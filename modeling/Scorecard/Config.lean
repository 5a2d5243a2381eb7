import Scorecard.Catalog

/-!
# Configurations

A configuration has the formulas whose sum is the score, and the definitions of the elements that
they refer to. There is one to start from.
-/

namespace Scorecard

/-- What a configuration file holds. -/
structure Config where
  formulas : List String
  definitions : NameMap Definition
  deriving DecidableEq

/-- The configuration to start from. -/
def Config.starter : Config where
  formulas := ["1000 * [Account Age] * [Transactions]", "[Balance]"]
  definitions := .ofList
    [("Account Age", .interval ["< 30: 0.1", "< 365: 0.5", "/> 365: 1"]),
     ("Transactions", .interval ["< 10: 0.2", "< 100: 0.6", "/> 100: 1"]),
     ("Balance", .range [-400, 400])]

end Scorecard
