import LoxLang.Text.Json
import LoxLang.Token.Kind

/-!
# Tokens

* `Literal` — what a number or a quoted text stands for.
* `Token` — a kind, the text it was read from, its literal and its line.
* `Token.shown` — a token on a line of output; `Token.json` — a token as a document.
-/

namespace LoxLang

/-- What the text of a literal stands for. -/
inductive Literal where
  | number (value : Float)
  | text (value : String)
  deriving DecidableEq, Repr

/-- A token of a program. -/
structure Token where
  kind : Kind
  /-- The text the token was read from. -/
  lexeme : String
  /-- Present for numbers and quoted texts. -/
  literal : Option Literal
  /-- The line on which the text ends, counted from one. -/
  line : Nat
  deriving DecidableEq, Repr

namespace Token

/-- The token after all others. -/
def endMark (line : Nat) : Token := ⟨.endOfInput, "", none, line⟩

/-- A name. -/
def name (text : String) (line : Nat) : Token := ⟨.identifier, text, none, line⟩

/-- Whether a token is the one after all others. -/
def isEnd (token : Token) : Bool := token.kind == .endOfInput

/-- The part of a written token that shows the literal. -/
def shownLiteral : Option Literal → String
  | none => "null"
  | some (.number x) => Number.text .token x
  | some (.text s) => s

/-- A token as it is listed: kind, lexeme and literal. -/
def shown (token : Token) : String :=
  token.kind.label ++ " " ++ token.lexeme ++ " " ++ shownLiteral token.literal

/-- The document for a literal: the value under the name of its type. -/
def jsonLiteral : Option Literal → Json
  | none => .null
  | some (.number x) => .object [("Number", .number x)]
  | some (.text s) => .object [("Str", .text s)]

/-- The document for a token. -/
def json (token : Token) : Json :=
  .object [("token_type", .text token.kind.label), ("lexeme", .text token.lexeme),
    ("literal", jsonLiteral token.literal), ("line", .natural token.line)]

end Token

end LoxLang
