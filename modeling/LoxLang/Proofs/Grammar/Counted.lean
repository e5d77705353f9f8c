import LoxLang.Proofs.Grammar.Reader

/-!
# A parser that numbers what it makes

Every node of an expression takes a number from one counter when it is made, and an occurrence of a
variable keeps the number that it took.  Numbers are never given back: not when a variable turns out to be
the left side of an assignment and is made anew, not when a loop is written out in other terms, and not
when an error throws away the statement that nodes were made for.

* `Counted` — a parser with a counter beside it; `Counted.node` — a new node.
* `Counted.reader`, `Counted.assembly` — what the rules of the grammar are made of.
* **`Counted.parse`**, **`Counted.parseExpression`** — whole inputs.
-/

namespace LoxLang

/-- Reads from the front of a token list and takes numbers from a counter. -/
def Counted (α : Type) := (next : Nat) → List Token → Step α × Nat

namespace Counted

variable {α β : Type}

/-- Reads nothing. -/
protected def pure (value : α) : Counted α := fun next tokens => (⟨[], tokens, .ok value⟩, next)

/-- One parser after another; an error stops both and leaves the counter where it is. -/
protected def bind (first : Counted α) (second : α → Counted β) : Counted β := fun next tokens =>
  match first next tokens with
  | (⟨reports, rest, .ok value⟩, later) =>
    let step := second value later rest
    (⟨reports ++ step.1.reports, step.1.rest, step.1.outcome⟩, step.2)
  | (⟨reports, rest, .error error⟩, later) => (⟨reports, rest, .error error⟩, later)

instance : Monad Counted where
  pure := Counted.pure
  bind := Counted.bind

/-- A parser that makes no nodes. -/
def lift (parser : Parser α) : Counted α := fun next tokens => (parser tokens, next)

/-- A new node, which takes a number. -/
def node (make : Nat → Expr) : Counted Expr := fun next tokens =>
  (⟨[], tokens, .ok (make next)⟩, next + 1)

/-- Turns a raised error into a report and reads on behind it.  The numbers that were taken stay so. -/
def recovering (counted : Counted α) : Counted (Option α) := fun next tokens =>
  match counted next tokens with
  | (⟨reports, rest, .ok value⟩, later) => (⟨reports, rest, .ok (some value)⟩, later)
  | (⟨reports, rest, .error error⟩, later) =>
    (⟨reports ++ [⟨error, rest⟩], Parser.skip rest, .ok none⟩, later)

/-! ## The rules -/

/-- The readings of the parser, except that a node takes a number. -/
def reader : Reader Counted (List Token) :=
  { Parser.reader.map lift with node := fun make => node fun number => make (some number) }

/-- Reads an expression. -/
def expression : Counted Expr := fun next tokens =>
  reader.assignment (Parser.allowance tokens) next tokens

/-- The condition of a `for` loop; one that is missing is a new node, which always holds. -/
def forCondition : Option Expr → Counted Expr
  | some condition => pure condition
  | none => node fun _ => .literal (.bool true)

/-- The rules for statements, with these readings. -/
def assembly : Assembly Counted Counted Stmt Stmt Stmt where
  toParts := reader.parts (fun _ => expression) (fun n => lift (Parser.assembly.signature n)) .plain
  trees := .plain
  forLoop clauses body := do
    let condition ← forCondition clauses.2.1
    return .forLoop clauses.1 (some condition) clauses.2.2 body
  asDeclaration := id
  stops := reader.stops
  attempt _ := recovering
  enclose := id
  spentDeclaration := recovering (reader.spent .expression)
  spentStatement := reader.spent .expression
  spentBlock := reader.spent .closeBrace
  spentDeclarations := pure []

/-! ## Whole inputs -/

/-- The numbered statements of a program, and the counter behind them. -/
def parse (next : Nat) (tokens : List Token) : Parsed (List Stmt) × Nat :=
  let input := Program.beforeEnd tokens
  match assembly.declarations (Parser.allowance input) none next input with
  | (⟨reports, _, .ok statements⟩, later) => (⟨statements, reports⟩, later)
  | (⟨reports, rest, .error error⟩, later) => (⟨[], reports ++ [⟨error, rest⟩]⟩, later)

/-- The numbered expression that the tokens consist of, and the counter behind it.  An expression with
tokens behind it has taken its numbers as well. -/
def parseExpression (next : Nat) (tokens : List Token) : Parsed (Option Expr) × Nat :=
  match expression next (Program.beforeEnd tokens) with
  | (⟨reports, [], .ok value⟩, later) => (⟨some value, reports⟩, later)
  | (⟨reports, rest, .ok _⟩, later) => (⟨none, reports ++ [⟨.expected .endOfExpression, rest⟩]⟩, later)
  | (⟨reports, rest, .error error⟩, later) => (⟨none, reports ++ [⟨error, rest⟩]⟩, later)

end Counted

end LoxLang
