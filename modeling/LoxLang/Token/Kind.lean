/-!
# Kinds of tokens

* `Keyword` — the reserved words, some of which no rule of the grammar uses.
* `Kind` — punctuation and operators, names, literals, keywords and the end of the input.
* `Kind.label` — the name of a kind in written tokens; `Kind.spelling?` — the one text of a kind that
  has only one.
-/

namespace LoxLang

/-- The reserved words. -/
inductive Keyword where
  | and
  | class_
  | else_
  | false_
  | fun_
  | for_
  | if_
  | nil
  | or
  | print
  | return_
  | super
  | this
  | true_
  | var
  | while_
  deriving DecidableEq, Repr

namespace Keyword

/-- All reserved words. -/
def all : List Keyword :=
  [and, class_, else_, false_, fun_, for_, if_, nil, or, print, return_, super, this, true_, var,
    while_]

/-- How a reserved word is written in a program. -/
def spelling : Keyword → String
  | and => "and"
  | class_ => "class"
  | else_ => "else"
  | false_ => "false"
  | fun_ => "fun"
  | for_ => "for"
  | if_ => "if"
  | nil => "nil"
  | or => "or"
  | print => "print"
  | return_ => "return"
  | super => "super"
  | this => "this"
  | true_ => "true"
  | var => "var"
  | while_ => "while"

/-- The name of a reserved word in written tokens. -/
def label : Keyword → String
  | and => "AND"
  | class_ => "CLASS"
  | else_ => "ELSE"
  | false_ => "FALSE"
  | fun_ => "FUN"
  | for_ => "FOR"
  | if_ => "IF"
  | nil => "NIL"
  | or => "OR"
  | print => "PRINT"
  | return_ => "RETURN"
  | super => "SUPER"
  | this => "THIS"
  | true_ => "TRUE"
  | var => "VAR"
  | while_ => "WHILE"

/-- The reserved word with a given spelling. -/
def ofSpelling? (spelling : String) : Option Keyword :=
  all.find? (·.spelling == spelling)

theorem mem_all (word : Keyword) : word ∈ all := by cases word <;> decide

end Keyword

/-- The kinds of tokens. -/
inductive Kind where
  | leftParen
  | rightParen
  | leftBrace
  | rightBrace
  | comma
  | dot
  | minus
  | plus
  | semicolon
  | slash
  | star
  | bang
  | bangEqual
  | equal
  | equalEqual
  | greater
  | greaterEqual
  | less
  | lessEqual
  | identifier
  | string
  | number
  | keyword (word : Keyword)
  | endOfInput
  deriving DecidableEq, Repr

namespace Kind

/-- The punctuation and the operators. -/
def symbols : List Kind :=
  [leftParen, rightParen, leftBrace, rightBrace, comma, dot, minus, plus, semicolon, slash, star,
    bang, bangEqual, equal, equalEqual, greater, greaterEqual, less, lessEqual]

/-- All kinds. -/
def all : List Kind :=
  symbols ++ [identifier, string, number] ++ Keyword.all.map keyword ++ [endOfInput]

/-- The name of a kind in written tokens. -/
def label : Kind → String
  | leftParen => "LEFT_PAREN"
  | rightParen => "RIGHT_PAREN"
  | leftBrace => "LEFT_BRACE"
  | rightBrace => "RIGHT_BRACE"
  | comma => "COMMA"
  | dot => "DOT"
  | minus => "MINUS"
  | plus => "PLUS"
  | semicolon => "SEMICOLON"
  | slash => "SLASH"
  | star => "STAR"
  | bang => "BANG"
  | bangEqual => "BANG_EQUAL"
  | equal => "EQUAL"
  | equalEqual => "EQUAL_EQUAL"
  | greater => "GREATER"
  | greaterEqual => "GREATER_EQUAL"
  | less => "LESS"
  | lessEqual => "LESS_EQUAL"
  | identifier => "IDENTIFIER"
  | string => "STRING"
  | number => "NUMBER"
  | keyword word => word.label
  | endOfInput => "EOF"

/-- The kind with a given name. -/
def ofLabel? (label : String) : Option Kind :=
  all.find? (·.label == label)

theorem mem_all (kind : Kind) : kind ∈ all := by
  cases kind with
  | keyword word => simp [all, Keyword.mem_all]
  | _ => decide

/-- The text of a kind that is always written the same way. -/
def spelling? : Kind → Option String
  | leftParen => "("
  | rightParen => ")"
  | leftBrace => "\x7b"
  | rightBrace => "\x7d"
  | comma => ","
  | dot => "."
  | minus => "-"
  | plus => "+"
  | semicolon => ";"
  | slash => "/"
  | star => "*"
  | bang => "!"
  | bangEqual => "!="
  | equal => "="
  | equalEqual => "=="
  | greater => ">"
  | greaterEqual => ">="
  | less => "<"
  | lessEqual => "<="
  | identifier => none
  | string => none
  | number => none
  | keyword word => word.spelling
  | endOfInput => ""

end Kind

end LoxLang
