/-!
# Operations

The five arithmetic operations of formulas, their symbols and their meaning on numbers.
-/

namespace Scorecard

/-- An arithmetic operation of formulas. -/
inductive Operation where
  | add
  | subtract
  | multiply
  | divide
  | power
  deriving Repr, DecidableEq, Inhabited

namespace Operation

/-- The symbol that stands for an operation in formulas and listings. -/
def symbol : Operation → String
  | add => "+"
  | subtract => "-"
  | multiply => "*"
  | divide => "/"
  | power => "^"

/-- The operation of a symbol. -/
def ofSymbol? : String → Option Operation
  | "+" => some add
  | "-" => some subtract
  | "*" => some multiply
  | "/" => some divide
  | "^" => some power
  | _ => none

/-- The operation's name in listings of the calculation tree. -/
def label : Operation → String
  | add => "Add"
  | subtract => "Subtract"
  | multiply => "Multiply"
  | divide => "Divide"
  | power => "Power"

/-- The value of an operation on binary floating-point numbers. -/
def apply : Operation → Float → Float → Float
  | add, x, y => x + y
  | subtract, x, y => x - y
  | multiply, x, y => x * y
  | divide, x, y => x / y
  | power, x, y => Float.pow x y

theorem ofSymbol?_symbol (operation : Operation) : ofSymbol? operation.symbol = some operation := by
  cases operation <;> rfl

theorem ofSymbol?_eq_some_iff {s : String} {operation : Operation} :
    ofSymbol? s = some operation ↔ s = operation.symbol := by
  refine ⟨fun h => ?_, fun h => h ▸ ofSymbol?_symbol operation⟩
  unfold ofSymbol? at h
  split at h <;> simp_all [symbol]
  all_goals subst h; rfl

end Operation

end Scorecard
