/-!
# Parse errors

Why a formula or the definition of an element cannot be used, and the text that says so.
-/

namespace Scorecard

/-- Why a formula or the definition of an element cannot be used. -/
inductive ParseError where
  /-- A token is no operator, no reference and no finite number. -/
  | invalidToken (token : String)
  /-- A reference names no element of the catalog. -/
  | unknownElement (name : String)
  /-- An element has a name that no reference can spell. -/
  | invalidElementName (name : String)
  /-- The bounds of an element are not a finite lower and upper bound in this order. -/
  | invalidRange (name : String)
  /-- The rules of an element are missing or not readable. -/
  | invalidInterval (name : String)
  /-- A rule compares by an operator that there is not. -/
  | unsupportedOperator (operator : String)
  /-- A parenthesis has no partner; the position counts bytes. -/
  | unbalancedParentheses (position : Nat)
  deriving Repr, DecidableEq

/-- The text of an error. -/
def ParseError.message : ParseError → String
  | invalidToken token => s!"invalid token '{token}'"
  | unknownElement name => s!"unknown element '{name}'"
  | invalidElementName name => s!"element name '{name}' cannot contain '[' or ']'"
  | invalidRange name => s!"invalid range config for '{name}': expected [min, max]"
  | invalidInterval name =>
    s!"invalid interval config for '{name}': expected rules like \"< 5: 0.1\""
  | unsupportedOperator operator =>
    s!"unsupported interval operator '{operator}' (expected '<' or '/>')"
  | unbalancedParentheses position => s!"unbalanced parentheses at position {position}"

end Scorecard
