import LoxLang.Grammar.Parser
import LoxLang.Program.Tree

/-!
# The grammar of expressions

```
expression → variable "=" expression | operation
operation  → a chain of operands for each row of `Level.all`, from the loosest to the tightest
unary      → ( "!" | "-" ) unary | call
call       → primary ( "(" ( expression ( "," expression )* )? ")" )*
primary    → NUMBER | STRING | "true" | "false" | "nil" | IDENTIFIER | "(" expression ")"
```

A chain groups to the left, assignment and unary operators to the right.

* `Level.all` — the binary operators, and which of them bind tighter.
* **`Parser.expression`** — reads an expression.

The functions below count down an allowance, because their recursion follows the nesting of the input
and not the shape of any one argument.  Fewer than sixteen of them call each other before another token
is read, so the sixteen steps for each token that `Parser.allowance` grants are never used up.
-/

namespace LoxLang

/-- The most parameters or arguments in a list. -/
def maxArguments : Nat := 255

/-- Operators that bind equally tight, and the node they make. -/
structure Level where
  operators : List Kind
  node : Expr → Token → Expr → Expr

/-- The binary operators from the loosest to the tightest. -/
def Level.all : List Level :=
  [⟨[.keyword .or], .logical⟩,
    ⟨[.keyword .and], .logical⟩,
    ⟨[.bangEqual, .equalEqual], .binary⟩,
    ⟨[.greater, .greaterEqual, .less, .lessEqual], .binary⟩,
    ⟨[.minus, .plus], .binary⟩,
    ⟨[.slash, .star], .binary⟩]

/-- What a literal token stands for; nil for one that carries no literal. -/
def Constant.ofToken? (token : Token) : Option Constant :=
  match token.kind with
  | .keyword .false_ => some (.bool false)
  | .keyword .true_ => some (.bool true)
  | .keyword .nil => some .nil
  | .number | .string =>
    match token.literal with
    | some (.number x) => some (.number x)
    | some (.text s) => some (.text s)
    | none => some .nil
  | _ => none

namespace Parser

/-- How many steps are granted for reading the tokens ahead. -/
def allowance (tokens : List Token) : Nat := 16 * (tokens.length + 1)

mutual

/-- An expression: an operation, or a variable with `=` and an expression behind it.  Another left
side is reported, and stands for the whole assignment. -/
def assignment : Nat → Parser Expr
  | 0 => raise (.expected .expression)
  | n + 1 => do
    let target ← operation n Level.all
    let equals ← ahead
    match ← accept .equal with
    | none => return target
    | some _ =>
      let value ← assignment n
      match target with
      | .variable name _ => return .assign name value none
      | _ =>
        report .invalidTarget equals
        return target

/-- Operands joined by the operators of the first level; the other levels bind tighter. -/
def operation : Nat → List Level → Parser Expr
  | 0, _ => raise (.expected .expression)
  | n + 1, [] => unary n
  | n + 1, level :: tighter => do
    let left ← operation n tighter
    chain n level tighter left

/-- The operators and operands behind the operand `left`. -/
def chain : Nat → Level → List Level → Expr → Parser Expr
  | 0, _, _, _ => raise (.expected .expression)
  | n + 1, level, tighter, left => do
    match ← acceptAny level.operators with
    | none => return left
    | some operator =>
      let right ← operation n tighter
      chain n level tighter (level.node left operator right)

/-- Operators in front of an operand. -/
def unary : Nat → Parser Expr
  | 0 => raise (.expected .expression)
  | n + 1 => do
    match ← acceptAny [.bang, .minus] with
    | some operator =>
      let operand ← unary n
      return .unary operator operand
    | none =>
      let callee ← primary n
      calls n callee

/-- The calls behind a callee. -/
def calls : Nat → Expr → Parser Expr
  | 0, _ => raise (.expected .expression)
  | n + 1, callee => do
    match ← accept .leftParen with
    | none => return callee
    | some _ =>
      let arguments ← if ← isNext .rightParen then pure [] else arguments n 0
      let paren ← expect .rightParen .closeParenAfterArguments
      calls n (.call callee paren arguments)

/-- Arguments separated by commas, of which `count` have been read before. -/
def arguments : Nat → (count : Nat) → Parser (List Expr)
  | 0, _ => raise (.expected .expression)
  | n + 1, count => do
    let here ← ahead
    let _ ← if maxArguments ≤ count then report .tooManyArguments here else pure ()
    let first ← assignment n
    match ← accept .comma with
    | none => return [first]
    | some _ =>
      let others ← arguments n (count + 1)
      return first :: others

/-- A constant, a variable or an expression in parentheses. -/
def primary : Nat → Parser Expr
  | 0 => raise (.expected .expression)
  | n + 1 => do
    match ← acceptMap Constant.ofToken? with
    | some value => return .literal value
    | none =>
      match ← accept .identifier with
      | some name => return .variable name none
      | none =>
        match ← accept .leftParen with
        | some _ =>
          let inner ← assignment n
          let _ ← expect .rightParen .closeParenAfterExpression
          return .group inner
        | none => raise (.expected .expression)

end

/-- Reads an expression. -/
def expression : Parser Expr := fun tokens => assignment (allowance tokens) tokens

end Parser

end LoxLang
