import LoxLang.Token.Segment

/-!
# Scanning

A scan turns source text into tokens and lexical errors, in the order of the text and with the line
that each of them ends on, and closes with one end mark.

* `Item` — a token, or a lexical error with its line.
* **`Scan.items`** — all items of a text.
* `Cursor` — a scan in progress, which gives one item at a time; `Cursor.next?` is `none` for good
  once the end mark has been given.
-/

namespace LoxLang

/-- A lexical error at a place. -/
structure LexicalFault where
  error : LexicalError
  /-- The line on which the faulty text ends. -/
  line : Nat
  deriving DecidableEq, Repr

/-- What a scan gives at one place. -/
abbrev Item := Except LexicalFault Token

namespace Segment

/-- How many lines a segment ends. -/
def newlines (segment : Segment) : Nat := segment.text.count '\n'

/-- The item for a segment that ends on `line`; nothing for what is skipped. -/
def item? (line : Nat) : Segment → Option Item
  | blank _ => none
  | comment _ => none
  | token kind lexeme literal => some (.ok ⟨kind, String.ofList lexeme, literal, line⟩)
  | stray _ => some (.error ⟨.unexpectedCharacter, line⟩)
  | unclosed _ => some (.error ⟨.unterminatedString, line⟩)

end Segment

namespace Scan

/-- The items of a text whose first character is on `line`. -/
def itemsFrom (line : Nat) : List Char → List Item
  | [] => [.ok (.endMark line)]
  | first :: rest =>
    let segment := (Segment.split first rest).1
    let line := line + segment.newlines
    let behind := itemsFrom line (Segment.split first rest).2
    match segment.item? line with
    | some item => item :: behind
    | none => behind
termination_by text => text.length
decreasing_by exact Nat.lt_succ_of_le (Segment.length_split_le first rest)

/-- The items of a source text. -/
def items (source : String) : List Item := itemsFrom 1 source.toList

/-- The tokens among items. -/
def tokens (items : List Item) : List Token :=
  items.filterMap fun
    | .ok token => some token
    | .error _ => none

/-- The lexical errors among items. -/
def faults (items : List Item) : List LexicalFault :=
  items.filterMap fun
    | .ok _ => none
    | .error fault => some fault

end Scan

/-! ## One item at a time -/

/-- A scan in progress. -/
structure Cursor where
  /-- The text ahead. -/
  rest : List Char
  /-- The line of the first character ahead. -/
  line : Nat
  /-- Whether the end mark has been given. -/
  finished : Bool

namespace Cursor

/-- A scan that has not started. -/
def start (source : String) : Cursor := ⟨source.toList, 1, false⟩

/-- The next item of a text, and the scan behind it. -/
def step (line : Nat) : List Char → Item × Cursor
  | [] => (.ok (.endMark line), ⟨[], line, true⟩)
  | first :: rest =>
    let segment := (Segment.split first rest).1
    let line := line + segment.newlines
    match segment.item? line with
    | some item => (item, ⟨(Segment.split first rest).2, line, false⟩)
    | none => step line (Segment.split first rest).2
termination_by text => text.length
decreasing_by exact Nat.lt_succ_of_le (Segment.length_split_le first rest)

/-- The next item and the scan behind it, until the end mark has been given. -/
def next? (cursor : Cursor) : Option (Item × Cursor) :=
  if cursor.finished then none else some (step cursor.line cursor.rest)

end Cursor

end LoxLang
