import Scorecard.Codec
import Scorecard.Config.Document
import Scorecard.Document.Json.Reader
import Scorecard.Document.Yaml.Reader
import Scorecard.Document.Yaml.Writer

/-!
# The standard codec

The readers of this library and its writer of YAML, put together for a program to run with.
-/

namespace Scorecard

/-- The document of a text in a format. -/
def Format.read? (format : Format) (text : String) : Option Document :=
  match format with
  | json => Document.Json.read? text
  | yaml => Document.Yaml.read? text

/-- The codec that goes by documents. -/
def Codec.standard : Codec where
  config? text := (Format.yaml.read? text).bind Config.ofRecord?
  inputs? format text := (format.read? text).bind InputsFile.ofDocument?
  configText? config := some (Document.Yaml.write config.toDocument)

end Scorecard
