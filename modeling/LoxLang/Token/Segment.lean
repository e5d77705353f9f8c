import LoxLang.Number.Binary
import LoxLang.Token.Basic

/-!
# Cutting source text into segments

Every character of a program belongs to exactly one segment: a token, something skipped, or a
mistake.  The next segment depends only on the text that is still ahead, and it is always the longest
one that fits.

* `Segment` — the kinds of segments, each with the text it covers.
* **`Segment.split`** — the first segment of a text, and the text behind it.
* **`Segment.text_append_split`** — the two together are the text, so nothing is lost.
-/

namespace LoxLang

/-- What is wrong with a piece of source text. -/
inductive LexicalError where
  | unexpectedCharacter
  | unterminatedString
  deriving DecidableEq, Repr

/-- The wording of a lexical error. -/
def LexicalError.message : LexicalError → String
  | unexpectedCharacter => "Unexpected character."
  | unterminatedString => "Unterminated string."

/-- A piece of source text. -/
inductive Segment where
  | blank (c : Char)
  /-- A comment with the text behind its two slashes, up to the end of the line. -/
  | comment (body : List Char)
  | token (kind : Kind) (lexeme : List Char) (literal : Option Literal)
  /-- A character that starts no token. -/
  | stray (c : Char)
  /-- A quote with the text behind it, up to the end of the input. -/
  | unclosed (body : List Char)

namespace Segment

/-- The text that a segment covers. -/
def text : Segment → List Char
  | blank c => [c]
  | comment body => '/' :: '/' :: body
  | token _ lexeme _ => lexeme
  | stray c => [c]
  | unclosed body => '"' :: body

/-- The characters that only separate tokens. -/
def isBlank (c : Char) : Bool := c == ' ' || c == '\r' || c == '\t' || c == '\n'

/-- The characters that start a name: letters of the English alphabet and the underscore. -/
def startsName (c : Char) : Bool := c.isAlpha || c == '_'

/-- The characters that continue a name. -/
def continuesName (c : Char) : Bool := c.isAlphanum || c == '_'

/-! ## One kind of segment at a time -/

/-- What follows an opening quote, up to the next quote. -/
def quoted (rest : List Char) : Segment × List Char :=
  let body := rest.takeWhile (· != '"')
  match rest.dropWhile (· != '"') with
  | [] => (unclosed body, [])
  | quote :: after =>
    (token .string ('"' :: body ++ [quote]) (some (.text (String.ofList body))), after)

/-- Digits from `first` on, with a fraction if a digit follows the point. -/
def numeral (first : Char) (rest : List Char) : Segment × List Char :=
  let whole := first :: rest.takeWhile Char.isDigit
  let plain := token .number whole (some (.number (Number.ofDigits whole [])))
  match rest.dropWhile Char.isDigit with
  | '.' :: digit :: after =>
    if digit.isDigit then
      let fraction := digit :: after.takeWhile Char.isDigit
      (token .number (whole ++ '.' :: fraction) (some (.number (Number.ofDigits whole fraction))),
        after.dropWhile Char.isDigit)
    else (plain, '.' :: digit :: after)
  | after => (plain, after)

/-- A name or a keyword: the whole run of letters, digits and underscores decides. -/
def word (first : Char) (rest : List Char) : Segment × List Char :=
  let lexeme := first :: rest.takeWhile continuesName
  let kind := match Keyword.ofSpelling? (String.ofList lexeme) with
    | some keyword => .keyword keyword
    | none => .identifier
  (token kind lexeme none, rest.dropWhile continuesName)

/-- What follows the two slashes of a comment. -/
def remark (rest : List Char) : Segment × List Char :=
  (comment (rest.takeWhile (· != '\n')), rest.dropWhile (· != '\n'))

/-- Punctuation and operators that are never the start of a longer one. -/
def single? : Char → Option Kind
  | '(' => some .leftParen
  | ')' => some .rightParen
  | '{' => some .leftBrace
  | '}' => some .rightBrace
  | ',' => some .comma
  | '.' => some .dot
  | '-' => some .minus
  | '+' => some .plus
  | ';' => some .semicolon
  | '*' => some .star
  | '/' => some .slash
  | _ => none

/-- Operators that a `=` behind them makes longer: the longer kind, then the shorter one. -/
def extensible? : Char → Option (Kind × Kind)
  | '!' => some (.bangEqual, .bang)
  | '=' => some (.equalEqual, .equal)
  | '<' => some (.lessEqual, .less)
  | '>' => some (.greaterEqual, .greater)
  | _ => none

/-- An operator of two characters if the second one is `=`, else of one. -/
def operator (first : Char) (long short : Kind) (rest : List Char) : Segment × List Char :=
  match rest with
  | '=' :: after => (token long [first, '='] none, after)
  | after => (token short [first] none, after)

/-- An operator, punctuation or a character that starts nothing. -/
def symbol (first : Char) (rest : List Char) : Segment × List Char :=
  match extensible? first with
  | some (long, short) => operator first long short rest
  | none =>
    match single? first with
    | some kind => (token kind [first] none, rest)
    | none => (stray first, rest)

/-- A comment if a second slash follows the first one, else the operator. -/
def slash (rest : List Char) : Segment × List Char :=
  match rest with
  | '/' :: after => remark after
  | after => symbol '/' after

/-- The first segment of a text that starts with `first`, and the text behind it. -/
def split (first : Char) (rest : List Char) : Segment × List Char :=
  if isBlank first then (blank first, rest)
  else if first = '"' then quoted rest
  else if first.isDigit then numeral first rest
  else if startsName first then word first rest
  else if first = '/' then slash rest
  else symbol first rest

/-! ## Nothing is lost

A segment covers the text it was cut from: it starts with the first character, and the rest of it
stands in front of what is left.
-/

/-- A segment and what is left make up `first :: rest`, and the segment is not empty. -/
def Covers (piece : Segment × List Char) (first : Char) (rest : List Char) : Prop :=
  ∃ more, piece.1.text = first :: more ∧ more ++ piece.2 = rest

theorem covers_quoted (rest : List Char) : Covers (quoted rest) '"' rest := by
  have whole := List.takeWhile_append_dropWhile (p := (· != '"')) (l := rest)
  unfold quoted
  split
  · next h => exact ⟨_, rfl, by simpa [h] using whole⟩
  · next h => exact ⟨_, rfl, by simpa [h] using whole⟩

theorem covers_numeral (first : Char) (rest : List Char) :
    Covers (numeral first rest) first rest := by
  have whole := List.takeWhile_append_dropWhile (p := Char.isDigit) (l := rest)
  unfold numeral
  split
  · next h =>
    split
    · exact ⟨_, rfl, by simpa [h] using whole⟩
    · exact ⟨_, rfl, by simpa [h] using whole⟩
  · exact ⟨_, rfl, whole⟩

theorem covers_word (first : Char) (rest : List Char) : Covers (word first rest) first rest :=
  ⟨_, rfl, List.takeWhile_append_dropWhile⟩

theorem covers_operator (first : Char) (long short : Kind) (rest : List Char) :
    Covers (operator first long short rest) first rest := by
  unfold operator
  split
  · exact ⟨_, rfl, rfl⟩
  · exact ⟨_, rfl, rfl⟩

theorem covers_remark (rest : List Char) : Covers (remark rest) '/' ('/' :: rest) :=
  ⟨_, rfl, congrArg ('/' :: ·) List.takeWhile_append_dropWhile⟩

theorem covers_symbol (first : Char) (rest : List Char) :
    Covers (symbol first rest) first rest := by
  unfold symbol
  split
  · exact covers_operator ..
  · split
    · exact ⟨_, rfl, rfl⟩
    · exact ⟨_, rfl, rfl⟩

theorem covers_slash (rest : List Char) : Covers (slash rest) '/' rest := by
  unfold slash
  split
  · exact covers_remark _
  · exact covers_symbol ..

theorem covers_split (first : Char) (rest : List Char) : Covers (split first rest) first rest := by
  unfold split
  repeat' split
  · exact ⟨_, rfl, rfl⟩
  · next h => exact h ▸ covers_quoted rest
  · exact covers_numeral first rest
  · exact covers_word first rest
  · next h => exact h ▸ covers_slash rest
  · exact covers_symbol first rest

/-- **The first segment and the text behind it are the whole text.** -/
theorem text_append_split (first : Char) (rest : List Char) :
    (split first rest).1.text ++ (split first rest).2 = first :: rest := by
  obtain ⟨more, covered, behind⟩ := covers_split first rest
  rw [covered, List.cons_append, behind]

/-- The text behind a segment is shorter than the text that starts with it. -/
theorem length_split_le (first : Char) (rest : List Char) :
    (split first rest).2.length ≤ rest.length := by
  obtain ⟨more, _, behind⟩ := covers_split first rest
  have total := congrArg List.length behind
  rw [List.length_append] at total
  omega

end Segment

end LoxLang
