import LoxLang.Grammar.Statement
import Mathlib

/-!
# Writing trees out

The tokens of a tree, and the trees that a token list can stand for.

A tree keeps its names, its operators, the closing parenthesis of a call and the word `return` as the
tokens they were; the other tokens are written afresh.

* `Expr.written`, `Stmt.written` — a tree as tokens.
* `Expr.Shaped`, `Stmt.Shaped` — trees that obey the grammar: operators and operands bind as they
  stand, no `else` could be taken for that of another `if`, and declarations stand only where they may.
* `Token.plain` — what a tree keeps of a token.
-/

namespace LoxLang

/-- A token of a kind that is always written the same way. -/
def Kind.mark (kind : Kind) : Token := ⟨kind, kind.spelling?.getD "", none, 1⟩

@[simp] lemma Kind.mark_kind (kind : Kind) : kind.mark.kind = kind := rfl

/-- The token of a literal. -/
def Constant.written : Constant → Token
  | nil => (Kind.keyword .nil).mark
  | bool true => (Kind.keyword .true_).mark
  | bool false => (Kind.keyword .false_).mark
  | number x => ⟨.number, Number.text .tree x, some (.number x), 1⟩
  | text s => ⟨.string, "\"" ++ s ++ "\"", some (.text s), 1⟩

lemma Constant.ofToken?_written (value : Constant) :
    Constant.ofToken? value.written = some value := by
  rcases value with _ | (_ | _) | _ | _ <;> rfl

mutual

/-- The tokens of an expression. -/
def Expr.written : Expr → List Token
  | .literal value => [value.written]
  | .group inner => Kind.leftParen.mark :: (inner.written ++ [Kind.rightParen.mark])
  | .unary operator operand => operator :: operand.written
  | .binary left operator right => left.written ++ (operator :: right.written)
  | .logical left operator right => left.written ++ (operator :: right.written)
  | .variable name _ => [name]
  | .assign name value _ => name :: Kind.equal.mark :: value.written
  | .call callee paren arguments =>
    callee.written ++ (Kind.leftParen.mark :: (Expr.writtenAll arguments ++ [paren]))

/-- The tokens of arguments, with commas between them. -/
def Expr.writtenAll : List Expr → List Token
  | [] => []
  | first :: others => first.written ++ Expr.writtenMore others

/-- The tokens of further arguments, each behind a comma. -/
def Expr.writtenMore : List Expr → List Token
  | [] => []
  | next :: others => Kind.comma.mark :: (next.written ++ Expr.writtenMore others)

end

/-- The tokens of an expression that may be left out. -/
def Expr.written? : Option Expr → List Token
  | none => []
  | some value => value.written

/-- The tokens of an initializer, behind its name. -/
def Expr.writtenInitializer : Option Expr → List Token
  | none => []
  | some value => Kind.equal.mark :: value.written

mutual

/-- The tokens of a statement. -/
def Stmt.written : Stmt → List Token
  | .expression value => value.written ++ [Kind.semicolon.mark]
  | .print value => (Kind.keyword .print).mark :: (value.written ++ [Kind.semicolon.mark])
  | .variable name initializer =>
    (Kind.keyword .var).mark :: name
      :: (Expr.writtenInitializer initializer ++ [Kind.semicolon.mark])
  | .block body => Kind.leftBrace.mark :: (Stmt.writtenAll body ++ [Kind.rightBrace.mark])
  | .branch condition consequent alternative =>
    (Kind.keyword .if_).mark :: Kind.leftParen.mark
      :: (condition.written ++ (Kind.rightParen.mark
        :: (consequent.written ++ Stmt.writtenElse alternative)))
  | .loop condition body =>
    (Kind.keyword .while_).mark :: Kind.leftParen.mark
      :: (condition.written ++ (Kind.rightParen.mark :: body.written))
  | .function name parameters body =>
    (Kind.keyword .fun_).mark :: name :: Kind.leftParen.mark
      :: (parameters.intersperse Kind.comma.mark ++ (Kind.rightParen.mark :: Kind.leftBrace.mark
        :: (Stmt.writtenAll body ++ [Kind.rightBrace.mark])))
  | .return_ keyword value => keyword :: (Expr.written? value ++ [Kind.semicolon.mark])

/-- The tokens of statements. -/
def Stmt.writtenAll : List Stmt → List Token
  | [] => []
  | first :: others => first.written ++ Stmt.writtenAll others

/-- The tokens of the other branch, if there is one. -/
def Stmt.writtenElse : Option Stmt → List Token
  | none => []
  | some alternative => (Kind.keyword .else_).mark :: alternative.written

end

/-! ## The shape of trees -/

/-- How tight a binary operator binds; nothing for other kinds. -/
def Kind.precedence : Kind → Nat
  | .keyword .or => 1
  | .keyword .and => 2
  | .bangEqual | .equalEqual => 3
  | .greater | .greaterEqual | .less | .lessEqual => 4
  | .minus | .plus => 5
  | .slash | .star => 6
  | _ => 0

/-- How tight an expression binds, from an assignment to what needs no parentheses. -/
def Expr.rank : Expr → Nat
  | .assign _ _ _ => 0
  | .logical _ operator _ => operator.kind.precedence
  | .binary _ operator _ => operator.kind.precedence
  | .unary _ _ => 7
  | .call _ _ _ => 8
  | .literal _ => 9
  | .group _ => 9
  | .variable _ _ => 9

mutual

/-- An expression that its tokens stand for. -/
def Expr.Shaped : Expr → Prop
  | .literal _ => True
  | .group inner => inner.Shaped
  | .unary operator operand =>
    operator.kind ∈ [Kind.bang, .minus] ∧ 7 ≤ operand.rank ∧ operand.Shaped
  | .binary left operator right =>
    3 ≤ operator.kind.precedence ∧ operator.kind.precedence ≤ left.rank
      ∧ operator.kind.precedence < right.rank ∧ left.Shaped ∧ right.Shaped
  | .logical left operator right =>
    operator.kind ∈ [Kind.keyword .or, .keyword .and] ∧ operator.kind.precedence ≤ left.rank
      ∧ operator.kind.precedence < right.rank ∧ left.Shaped ∧ right.Shaped
  | .variable name hops => name.kind = .identifier ∧ hops = none
  | .assign name value hops => name.kind = .identifier ∧ hops = none ∧ value.Shaped
  | .call callee paren arguments =>
    8 ≤ callee.rank ∧ callee.Shaped ∧ paren.kind = .rightParen
      ∧ arguments.length ≤ maxArguments ∧ Expr.ShapedAll arguments

/-- Expressions that their tokens stand for. -/
def Expr.ShapedAll : List Expr → Prop
  | [] => True
  | first :: others => first.Shaped ∧ Expr.ShapedAll others

end

/-- An expression that its tokens stand for, or none. -/
def Expr.Shaped? : Option Expr → Prop
  | none => True
  | some value => value.Shaped

/-- Whether a statement is a declaration. -/
def Stmt.isDeclaration : Stmt → Bool
  | .variable _ _ => true
  | .function _ _ _ => true
  | _ => false

mutual

/-- Whether a statement ends in an `if` without `else`. -/
def Stmt.isOpen : Stmt → Bool
  | .branch _ _ alternative => Stmt.isOpenElse alternative
  | .loop _ body => body.isOpen
  | _ => false

/-- Whether the end of a branch is open: always without an `else`. -/
def Stmt.isOpenElse : Option Stmt → Bool
  | none => true
  | some alternative => alternative.isOpen

end

mutual

/-- A declaration that its tokens stand for. -/
def Stmt.Shaped : Stmt → Prop
  | .expression value => value.Shaped
  | .print value => value.Shaped
  | .variable name initializer =>
    name.kind = .identifier ∧ Expr.Shaped? initializer
  | .block body => Stmt.ShapedAll body
  | .branch condition consequent alternative =>
    condition.Shaped ∧ consequent.isDeclaration = false ∧ consequent.Shaped
      ∧ (alternative.isSome → consequent.isOpen = false) ∧ Stmt.ShapedElse alternative
  | .loop condition body => condition.Shaped ∧ body.isDeclaration = false ∧ body.Shaped
  | .function name parameters body =>
    name.kind = .identifier ∧ (∀ parameter ∈ parameters, parameter.kind = .identifier)
      ∧ parameters.length ≤ maxArguments ∧ Stmt.ShapedAll body
  | .return_ keyword value => keyword.kind = .keyword .return_ ∧ Expr.Shaped? value

/-- Declarations that their tokens stand for. -/
def Stmt.ShapedAll : List Stmt → Prop
  | [] => True
  | first :: others => first.Shaped ∧ Stmt.ShapedAll others

/-- The other branch, if there is one, is a statement that its tokens stand for. -/
def Stmt.ShapedElse : Option Stmt → Prop
  | none => True
  | some alternative => alternative.isDeclaration = false ∧ alternative.Shaped

end

/-! ## What a tree keeps of a token -/

/-- The kinds of tokens that a tree keeps as they are: names, operators and `return`. -/
def keptKinds : List Kind :=
  .identifier :: .keyword .return_ :: .bang :: .minus :: Level.all.flatMap Level.operators

/-- A token up to what a tree does not keep: the text of a literal, and all but the kind of a
parenthesis, a brace, a comma or another word. -/
def Token.plain (token : Token) : Token :=
  if token.kind ∈ keptKinds then token
  else if token.kind ∈ [Kind.number, .string] then ⟨token.kind, "", token.literal, 1⟩
  else token.kind.mark

/-- A number carries a number and a quoted text a text, as every token of a source does. -/
def Token.Carries (token : Token) : Prop :=
  (token.kind = .number → ∃ x, token.literal = some (.number x))
    ∧ (token.kind = .string → ∃ s, token.literal = some (.text s))

end LoxLang
