import Mathlib
import LoxLang.Proofs.Number.Nearest
import LoxLang.Token.Scan

/-!
# The lexemes of the language, and the lexer that takes the longest

The lexical grammar without a scanner: a table that says which texts are lexemes, and the rule that
picks one of them at each place of a source text.  Nothing here looks at how a text is cut.

* `Lexeme` — the table: a text, its kind, and the literal it stands for.
* `Longest` — a lexeme at the front of a text that no other one there exceeds.
* **`Lexes`** — the items of a text, one place after another: what is skipped, the longest lexeme, and
  the two mistakes where there is none.
-/

namespace LoxLang

/-! ## The table -/

/-- A run of digits. -/
def IsDigits (text : List Char) : Prop := text ≠ [] ∧ ∀ c ∈ text, c.isDigit = true

/-- The characters of names. -/
def IsNameChar (c : Char) : Prop := c.isAlpha = true ∨ c.isDigit = true ∨ c = '_'

/-- A run of letters, digits and underscores that does not start with a digit. -/
def IsName (text : List Char) : Prop :=
  (∀ c ∈ text, IsNameChar c) ∧ ∃ first, text.head? = some first ∧ first.isDigit = false

/-- The value of `whole.fraction` in decimal digits. -/
def Number.decimal (whole fraction : List Char) : ℚ :=
  Nat.ofDigitChars 10 (whole ++ fraction) 0 / 10 ^ fraction.length

/-- **The table of lexemes.**  A keyword is a name too, and as a text of the table it is the keyword
only. -/
inductive Lexeme : List Char → Kind → Option Literal → Prop where
  | symbol {kind : Kind} {text : String} (listed : kind ∈ Kind.symbols)
      (spelled : kind.spelling? = some text) : Lexeme text.toList kind none
  | whole {digits : List Char} {pattern : Nat} (run : IsDigits digits)
      (nearest : Number.IsNearest (Number.decimal digits []) pattern) :
      Lexeme digits .number (some (.number (Number.ofPattern false pattern)))
  | fractional {digits fraction : List Char} {pattern : Nat} (run : IsDigits digits)
      (behind : IsDigits fraction)
      (nearest : Number.IsNearest (Number.decimal digits fraction) pattern) :
      Lexeme (digits ++ '.' :: fraction) .number
        (some (.number (Number.ofPattern false pattern)))
  | keyword (word : Keyword) : Lexeme word.spelling.toList (.keyword word) none
  | name {text : List Char} (run : IsName text)
      (unreserved : ∀ word : Keyword, word.spelling.toList ≠ text) : Lexeme text .identifier none
  | string {body : List Char} (open_ : ∀ c ∈ body, c ≠ '"') :
      Lexeme ('"' :: body ++ ['"']) .string (some (.text (String.ofList body)))

/-- A lexeme at the front of `text` with `behind` after it, where no longer lexeme is in front. -/
structure Longest (text lexeme : List Char) (kind : Kind) (literal : Option Literal)
    (behind : List Char) : Prop where
  entry : Lexeme lexeme kind literal
  front : lexeme ++ behind = text
  longest : ∀ {other kind' literal'}, Lexeme other kind' literal' → other <+: text →
    other.length ≤ lexeme.length

/-! ## The lexer -/

/-- The characters between lexemes. -/
def IsBlank (c : Char) : Prop := c = ' ' ∨ c = '\t' ∨ c = '\r' ∨ c = '\n'

/-- The start of a comment. -/
def IsRemark (text : List Char) : Prop := ['/', '/'] <+: text

/-- **The items of a text whose first character is on `line`.**  A comment goes up to the line break
or the end of the input; a lexeme is the longest one there is; a quote without a second one takes the
rest of the input; any other character is a mistake of its own. -/
inductive Lexes : Nat → List Char → List Item → Prop where
  | finish (line : Nat) : Lexes line [] [.ok (.endMark line)]
  | blank {line : Nat} {c : Char} {behind : List Char} {items : List Item} (skipped : IsBlank c)
      (more : Lexes (if c = '\n' then line + 1 else line) behind items) :
      Lexes line (c :: behind) items
  | remark {line : Nat} {body behind : List Char} {items : List Item} (inside : ∀ c ∈ body, c ≠ '\n')
      (stops : behind = [] ∨ behind.head? = some '\n') (more : Lexes line behind items) :
      Lexes line ('/' :: '/' :: body ++ behind) items
  | lexeme {line : Nat} {text lexeme behind : List Char} {kind : Kind} {literal : Option Literal}
      {items : List Item} (unremarked : ¬IsRemark text)
      (longest : Longest text lexeme kind literal behind)
      (more : Lexes (line + lexeme.count '\n') behind items) :
      Lexes line text
        (.ok ⟨kind, String.ofList lexeme, literal, line + lexeme.count '\n'⟩ :: items)
  | unterminated {line : Nat} {body : List Char} (open_ : ∀ c ∈ body, c ≠ '"') :
      Lexes line ('"' :: body)
        [.error ⟨.unterminatedString, line + body.count '\n'⟩,
          .ok (.endMark (line + body.count '\n'))]
  | stray {line : Nat} {c : Char} {behind : List Char} {items : List Item} (visible : ¬IsBlank c)
      (unquoted : c ≠ '"')
      (none_ : ∀ {lexeme kind literal}, Lexeme lexeme kind literal → ¬lexeme <+: c :: behind)
      (more : Lexes line behind items) :
      Lexes line (c :: behind) (.error ⟨.unexpectedCharacter, line⟩ :: items)

/-! ## Names in the table -/

lemma isNameChar_iff {c : Char} : IsNameChar c ↔ Segment.continuesName c = true := by
  simp [IsNameChar, Segment.continuesName, Char.isAlphanum, or_assoc]

/-- Every keyword is written like a name. -/
lemma isName_keyword (word : Keyword) : IsName word.spelling.toList := by
  have spelled : word.spelling.toList.all Segment.continuesName = true := by cases word <;> decide
  refine ⟨fun c mem => isNameChar_iff.mpr (List.all_eq_true.mp spelled c mem), ?_⟩
  cases word <;> exact ⟨_, rfl, by decide⟩

/-- Every name is a lexeme without a literal. -/
lemma exists_lexeme_of_isName {text : List Char} (run : IsName text) :
    ∃ kind, Lexeme text kind none := by
  by_cases reserved : ∃ word : Keyword, word.spelling.toList = text
  · obtain ⟨word, rfl⟩ := reserved
    exact ⟨_, .keyword word⟩
  · exact ⟨_, .name run fun word same => reserved ⟨word, same⟩⟩

end LoxLang
