import LoxLang.Program.Text

/-!
# Values

* `Closure` — the declaration of a function and the scope it was declared in.
* `Value` — what expressions yield.
* `Value.isTruthy`, `Value.equals`, `Value.shown` — the rules that hold for values of every kind.

A function carries the number of the declaration event it came from, so that two functions are equal
exactly when the same execution of the same declaration made them.
-/

namespace LoxLang

/-- A declared function. -/
structure Closure where
  name : Token
  parameters : List Token
  body : List Stmt
  /-- The number of the scope in which it was declared. -/
  scope : Nat

/-- What expressions yield. -/
inductive Value where
  | nil
  | bool (value : Bool)
  | number (value : Float)
  | text (value : String)
  | function (event : Nat) (closure : Closure)
  /-- A function of the host, by the number it was registered under. -/
  | native (index arity : Nat)

/-- The value that a literal stands for. -/
def Constant.value : Constant → Value
  | nil => .nil
  | bool b => .bool b
  | number x => .number x
  | text s => .text s

namespace Value

/-- Whether a condition holds: all values but nil and false do. -/
def isTruthy : Value → Bool
  | nil => false
  | bool b => b
  | _ => true

/-- Equality: by content, with numbers as the arithmetic compares them, and functions by identity. -/
def equals : Value → Value → Bool
  | nil, nil => true
  | bool a, bool b => a == b
  | number a, number b => a == b
  | text a, text b => a == b
  | function a _, function b _ => a == b
  | native a _, native b _ => a == b
  | _, _ => false

/-- A value as a program prints it. -/
def shown : Value → String
  | nil => "nil"
  | bool true => "true"
  | bool false => "false"
  | number x => Number.text .printed x
  | text s => s
  | function _ closure => "<fn " ++ closure.name.lexeme ++ ">"
  | native _ _ => "<native fn>"

end Value

end LoxLang
