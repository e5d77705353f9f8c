import LoxLang.Grammar.Error

/-!
# Reading tokens

A `Parser` reads from the front of a token list.  It may report errors without stopping, and it ends
with a value or with one error that stops it; in both cases the tokens it did not read are left.
A raised error therefore always stands at the first token left.

* `Step` — how a parser ends.
* `Parser.accept`, `Parser.expect` — reading one token, which may or must be there.
* **`Parser.recovering`** — what a raised error costs: the statement it stands in, and the tokens up to
  the next place where a statement may start.
-/

namespace LoxLang

/-- How a parser ends: errors reported on the way, the tokens left, a value or an error. -/
structure Step (α : Type) where
  reports : List SyntaxReport
  rest : List Token
  outcome : Except SyntaxError α

/-- Reads from the front of a token list. -/
def Parser (α : Type) := List Token → Step α

namespace Parser

variable {α β : Type}

/-- Reads nothing. -/
@[always_inline, inline]
protected def pure (value : α) : Parser α := fun tokens => ⟨[], tokens, .ok value⟩

/-- One parser after another; an error stops both. -/
@[always_inline, inline]
protected def bind (first : Parser α) (second : α → Parser β) : Parser β := fun tokens =>
  match first tokens with
  | ⟨reports, rest, .ok value⟩ =>
    let step := second value rest
    ⟨reports ++ step.reports, step.rest, step.outcome⟩
  | ⟨reports, rest, .error error⟩ => ⟨reports, rest, .error error⟩

instance : Monad Parser where
  pure := Parser.pure
  bind := Parser.bind

/-- Stops with an error at the next token. -/
def raise (error : SyntaxError) : Parser α := fun tokens => ⟨[], tokens, .error error⟩

/-- Reports an error at the first of `ahead` and goes on. -/
def report (error : SyntaxError) (ahead : List Token) : Parser Unit := fun tokens =>
  ⟨[⟨error, ahead⟩], tokens, .ok ()⟩

/-- The tokens ahead. -/
def ahead : Parser (List Token) := fun tokens => ⟨[], tokens, .ok tokens⟩

/-- Whether the next token is of a kind. -/
def isNext (kind : Kind) : Parser Bool := fun tokens =>
  ⟨[], tokens, .ok (tokens.head?.any (·.kind == kind))⟩

/-- Reads the next token if `f` gives something for it. -/
def acceptMap (f : Token → Option α) : Parser (Option α) := fun tokens =>
  match tokens with
  | [] => ⟨[], [], .ok none⟩
  | token :: rest =>
    match f token with
    | some value => ⟨[], rest, .ok (some value)⟩
    | none => ⟨[], token :: rest, .ok none⟩

/-- Reads the next token if it is of one of the kinds. -/
def acceptAny (kinds : List Kind) : Parser (Option Token) :=
  acceptMap fun token => if kinds.contains token.kind then some token else none

/-- Reads the next token if it is of a kind. -/
def accept (kind : Kind) : Parser (Option Token) :=
  acceptMap fun token => if token.kind = kind then some token else none

/-- Reads the next token, which must be of a kind. -/
def expect (kind : Kind) (what : Expectation) : Parser Token := do
  match ← accept kind with
  | some token => return token
  | none => raise (.expected what)

/-! ## Recovery -/

/-- The keywords that a statement or a declaration starts with. -/
def startsStatement : Kind → Bool
  | .keyword .class_ => true
  | .keyword .fun_ => true
  | .keyword .var => true
  | .keyword .for_ => true
  | .keyword .if_ => true
  | .keyword .while_ => true
  | .keyword .print => true
  | .keyword .return_ => true
  | _ => false

/-- Skips to the next place where a statement may start, behind `last`: after a semicolon or before
one of the keywords. -/
def skipFrom (last : Token) : List Token → List Token
  | [] => []
  | token :: rest =>
    if last.kind = .semicolon ∨ startsStatement token.kind then token :: rest
    else skipFrom token rest

/-- Skips at least one token, if there is one, to the next place where a statement may start. -/
def skip : List Token → List Token
  | [] => []
  | token :: rest => skipFrom token rest

/-- Turns a raised error into a report and reads on behind it, without a value. -/
def recovering (parser : Parser α) : Parser (Option α) := fun tokens =>
  match parser tokens with
  | ⟨reports, rest, .ok value⟩ => ⟨reports, rest, .ok (some value)⟩
  | ⟨reports, rest, .error error⟩ => ⟨reports ++ [⟨error, rest⟩], skip rest, .ok none⟩

end Parser

end LoxLang
