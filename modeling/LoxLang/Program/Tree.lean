import LoxLang.Token.Basic

/-!
# Program trees

* `Constant` — the values that a literal can stand for.
* `Expr`, `Stmt` — expressions and statements.  A node keeps the tokens that an error would name.
* `Stmt.forLoop` — the `for` loop, which is no node of its own but a way to write blocks and loops.

An occurrence of a variable carries the number of scopes between it and the scope it belongs to,
its *hops*.  An occurrence without hops belongs to the globals; a tree fresh from the parser has
none.
-/

namespace LoxLang

/-- What a literal expression stands for. -/
inductive Constant where
  | nil
  | bool (value : Bool)
  | number (value : Float)
  | text (value : String)
  deriving DecidableEq, Repr

/-- Expressions. -/
inductive Expr where
  | literal (value : Constant)
  | group (inner : Expr)
  | unary (operator : Token) (operand : Expr)
  | binary (left : Expr) (operator : Token) (right : Expr)
  | logical (left : Expr) (operator : Token) (right : Expr)
  | variable (name : Token) (hops : Option Nat)
  | assign (name : Token) (value : Expr) (hops : Option Nat)
  /-- A call with its closing parenthesis. -/
  | call (callee : Expr) (paren : Token) (arguments : List Expr)
  deriving Repr

/-- Statements. -/
inductive Stmt where
  | expression (value : Expr)
  | print (value : Expr)
  | variable (name : Token) (initializer : Option Expr)
  | block (body : List Stmt)
  | branch (condition : Expr) (consequent : Stmt) (alternative : Option Stmt)
  | loop (condition : Expr) (body : Stmt)
  | function (name : Token) (parameters : List Token) (body : List Stmt)
  | return_ (keyword : Token) (value : Option Expr)
  deriving Repr

/-- A `for` loop: the increment follows the body in a block of its own, a missing condition always
holds, and an initializer opens a block around the loop. -/
def Stmt.forLoop (initializer : Option Stmt) (condition increment : Option Expr) (body : Stmt) :
    Stmt :=
  let round := match increment with
    | some step => .block [body, .expression step]
    | none => body
  let loop := .loop (condition.getD (.literal (.bool true))) round
  match initializer with
  | some first => .block [first, loop]
  | none => loop

end LoxLang
