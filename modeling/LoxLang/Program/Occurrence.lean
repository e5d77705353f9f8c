import LoxLang.Program.Tree

/-!
# Occurrences of variables

* `Occurrence` — one place in a tree where a variable is read or assigned.
* **`Stmt.occurrences`** — all of them in the order of the source, an assignment after its value.
-/

namespace LoxLang

/-- A place where a variable is read or assigned. -/
structure Occurrence where
  /-- Whether the variable is assigned there. -/
  assigned : Bool
  name : Token
  hops : Option Nat
  deriving DecidableEq, Repr

mutual

/-- The occurrences in an expression. -/
def Expr.occurrences : Expr → List Occurrence
  | .literal _ => []
  | .group inner => inner.occurrences
  | .unary _ operand => operand.occurrences
  | .binary left _ right => left.occurrences ++ right.occurrences
  | .logical left _ right => left.occurrences ++ right.occurrences
  | .variable name hops => [⟨false, name, hops⟩]
  | .assign name value hops => value.occurrences ++ [⟨true, name, hops⟩]
  | .call callee _ arguments => callee.occurrences ++ Expr.occurrencesAll arguments

/-- The occurrences in arguments. -/
def Expr.occurrencesAll : List Expr → List Occurrence
  | [] => []
  | first :: others => first.occurrences ++ Expr.occurrencesAll others

end

/-- The occurrences in an expression that may be missing. -/
def Expr.occurrences? (value : Option Expr) : List Occurrence :=
  match value with
  | some value => value.occurrences
  | none => []

mutual

/-- The occurrences in a statement. -/
def Stmt.occurrences : Stmt → List Occurrence
  | .expression value => value.occurrences
  | .print value => value.occurrences
  | .variable _ initializer => Expr.occurrences? initializer
  | .block body => Stmt.occurrencesAll body
  | .branch condition consequent alternative =>
    condition.occurrences ++ consequent.occurrences ++ Stmt.occurrences? alternative
  | .loop condition body => condition.occurrences ++ body.occurrences
  | .function _ _ body => Stmt.occurrencesAll body
  | .return_ _ value => Expr.occurrences? value

/-- The occurrences in statements. -/
def Stmt.occurrencesAll : List Stmt → List Occurrence
  | [] => []
  | first :: others => first.occurrences ++ Stmt.occurrencesAll others

/-- The occurrences in a statement that may be missing. -/
def Stmt.occurrences? : Option Stmt → List Occurrence
  | none => []
  | some stmt => stmt.occurrences

end

end LoxLang
