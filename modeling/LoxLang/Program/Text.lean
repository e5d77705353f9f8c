import LoxLang.Program.Tree

/-!
# Trees in prefix form

A tree is shown in parentheses with its operator or its keyword in front, `(+ 1.0 (group 2.5))`.

* **`Expr.shown`** and **`Stmt.shown`** — the prefix form of expressions and statements.
-/

namespace LoxLang

/-- A constant in a tree; texts stand without quotes. -/
def Constant.shown : Constant → String
  | nil => "nil"
  | bool true => "true"
  | bool false => "false"
  | number x => Number.text .tree x
  | text s => s

/-- Texts with a blank in front of each. -/
def spaced (texts : List String) : String := String.join (texts.map (" " ++ ·))

/-- Texts in parentheses behind a first word. -/
def form (word : String) (texts : List String) : String := "(" ++ word ++ spaced texts ++ ")"

mutual

/-- The prefix form of an expression. -/
def Expr.shown : Expr → String
  | .literal value => value.shown
  | .group inner => form "group" [inner.shown]
  | .unary operator operand => form operator.lexeme [operand.shown]
  | .binary left operator right => form operator.lexeme [left.shown, right.shown]
  | .logical left operator right => form operator.lexeme [left.shown, right.shown]
  | .variable name _ => name.lexeme
  | .assign name value _ => form "=" [name.lexeme, value.shown]
  | .call callee _ arguments => form "call" (callee.shown :: Expr.shownAll arguments)

/-- The prefix forms of arguments. -/
def Expr.shownAll : List Expr → List String
  | [] => []
  | first :: others => first.shown :: Expr.shownAll others

end

mutual

/-- The prefix form of a statement. -/
def Stmt.shown : Stmt → String
  | .expression value => form ";" [value.shown]
  | .print value => form "print" [value.shown]
  | .variable name initializer =>
    form "var" (name.lexeme :: (initializer.map Expr.shown).toList)
  | .block body => form "block" (Stmt.shownAll body)
  | .branch condition consequent alternative =>
    form "if" (condition.shown :: consequent.shown :: Stmt.shownElse alternative)
  | .loop condition body => form "while" [condition.shown, body.shown]
  | .function name parameters body =>
    form "fun" (name.lexeme
      :: ("(" ++ " ".intercalate (parameters.map Token.lexeme) ++ ")") :: Stmt.shownAll body)
  | .return_ _ value => form "return" (value.map Expr.shown).toList

/-- The prefix forms of statements. -/
def Stmt.shownAll : List Stmt → List String
  | [] => []
  | first :: others => first.shown :: Stmt.shownAll others

/-- The prefix form of the other branch, if there is one. -/
def Stmt.shownElse : Option Stmt → List String
  | none => []
  | some alternative => [alternative.shown]

end

end LoxLang
