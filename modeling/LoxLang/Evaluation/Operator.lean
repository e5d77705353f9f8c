import LoxLang.Value

/-!
# Operators on values

* `RuntimeError` — why an evaluation stops.
* **`Value.prefixed`** and **`Value.combined`** — what unary and binary operators yield.
-/

namespace LoxLang

/-- Why an evaluation stops. -/
inductive RuntimeError where
  | operandNoNumber
  | operandsNoNumbers
  | operandsNotAlike
  | unknownUnary
  | unknownBinary
  | notCallable
  | wrongCount (expected given : Nat)
  | undefined (name : String)
  /-- A function of the host gave up, in its own words. -/
  | host (text : String)
  deriving DecidableEq, Repr

/-- The wording of a runtime error. -/
def RuntimeError.message : RuntimeError → String
  | operandNoNumber => "Operand must be a number."
  | operandsNoNumbers => "Operands must be numbers."
  | operandsNotAlike => "Operands must be two numbers or two strings."
  | unknownUnary => "Invalid unary operator."
  | unknownBinary => "Invalid binary operator."
  | notCallable => "Can only call functions and classes."
  | wrongCount expected given =>
    "Expected " ++ expected.repr ++ " arguments but got " ++ given.repr ++ "."
  | undefined name => "Undefined variable '" ++ name ++ "'."
  | host text => text

namespace Value

/-- What a unary operator yields. -/
def prefixed (operator : Kind) (operand : Value) : Except RuntimeError Value :=
  match operator with
  | .minus =>
    match operand with
    | number x => .ok (number (-x))
    | _ => .error .operandNoNumber
  | .bang => .ok (bool (!operand.isTruthy))
  | _ => .error .unknownUnary

/-- The operators that take two numbers and nothing else. -/
def arithmetic? : Kind → Option (Float → Float → Value)
  | .minus => some fun a b => number (a - b)
  | .star => some fun a b => number (a * b)
  | .slash => some fun a b => number (a / b)
  | .greater => some fun a b => bool (b < a)
  | .greaterEqual => some fun a b => bool (b ≤ a)
  | .less => some fun a b => bool (a < b)
  | .lessEqual => some fun a b => bool (a ≤ b)
  | _ => none

/-- The sum of two numbers, or two texts joined. -/
def sum : Value → Value → Except RuntimeError Value
  | number a, number b => .ok (number (a + b))
  | text a, text b => .ok (text (a ++ b))
  | _, _ => .error .operandsNotAlike

/-- What a binary operator yields. -/
def combined (operator : Kind) (left right : Value) : Except RuntimeError Value :=
  match operator with
  | .equalEqual => .ok (bool (left.equals right))
  | .bangEqual => .ok (bool (!left.equals right))
  | .plus => sum left right
  | other =>
    match arithmetic? other with
    | none => .error .unknownBinary
    | some f =>
      match left, right with
      | number a, number b => .ok (f a b)
      | _, _ => .error .operandsNoNumbers

end Value

end LoxLang
