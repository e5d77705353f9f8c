import Mathlib
import LoxLang.Proofs.Token.Bytes
import LoxLang.Token.Scan

/-!
# A scanner on bytes

A scanner that keeps two indices into the bytes of its source must not read behind the end and must not
slice a character in two.  Here every access is checked: the scanner below yields nothing at all once one
of them fails, or if it stood still.

* `Head` — the two indices and the line.
* `ByteScan.advance`, `ByteScan.peek`, `ByteScan.skip` and so on — what a scanner does with bytes.
* **`ByteScan.scan`** — one lexeme.
* `ByteScan.next` — one item; `ByteScan.calls` — what many calls give.
-/

namespace LoxLang

open Utf8

/-- The place of a scanner in the bytes of its source. -/
structure Head where
  /-- Where the lexeme starts that is being scanned. -/
  start : Nat
  /-- The byte that is read next. -/
  curr : Nat
  line : Nat

/-- What one lexeme turns out to be. -/
inductive Scanned where
  /-- Something that is skipped. -/
  | nothing
  | token (kind : Kind) (literal : Option Literal)
  | fault (error : LexicalError)

namespace ByteScan

variable (source : List Char)

/-- How many bytes there are. -/
def size : Nat := (encoded source).length

/-- The byte at an index.  All that a scanner looks for are characters below 128, which are single
bytes. -/
def byte? (index : Nat) : Option Char := (encoded source)[index]?.map Char.ofUInt8

/-- Reads a byte and goes on. -/
def advance (head : Head) : Option (Char × Head) :=
  (byte? source head.curr).map fun c => (c, { head with curr := head.curr + 1 })

/-- The byte ahead; zero at the end. -/
def peek (head : Head) : Option Char :=
  if size source ≤ head.curr then some '\x00' else byte? source head.curr

/-- The byte behind the one ahead; zero at the end. -/
def peekNext (head : Head) : Option Char :=
  if size source ≤ head.curr + 1 then some '\x00' else byte? source (head.curr + 1)

/-- Goes on if the byte ahead is `expected`. -/
def matchByte (expected : Char) (head : Head) : Option (Bool × Head) :=
  if size source ≤ head.curr then some (false, head)
  else do
    if (← peek source head) = expected then
      let (_, head) ← advance source head
      return (true, head)
    else return (false, head)

variable {source} in
lemma advance_some {head after : Head} {c : Char} (read : advance source head = some (c, after)) :
    head.curr < size source ∧ after = { head with curr := head.curr + 1 } := by
  obtain ⟨found, here, same⟩ := Option.map_eq_some_iff.mp read
  cases same
  rw [byte?] at here
  obtain ⟨byte, here, -⟩ := Option.map_eq_some_iff.mp here
  exact ⟨(List.getElem?_eq_some_iff.mp here).1, rfl⟩

/-- Goes on while the byte ahead belongs to a class. -/
def skip (goes : Char → Bool) (head : Head) : Option Head :=
  (peek source head).bind fun c =>
    if goes c then
      match _read : advance source head with
      | none => none
      | some (_, after) => skip goes after
    else some head
termination_by size source - head.curr
decreasing_by
  obtain ⟨inside, rfl⟩ := advance_some _read
  exact Nat.sub_succ_lt_self _ _ inside

/-- Goes on up to the next quote or the end, and counts the lines on the way. -/
def throughText (head : Head) : Option Head :=
  if size source ≤ head.curr then some head
  else (peek source head).bind fun c =>
    if c = '"' then some head
    else
      match _read : advance source head with
      | none => none
      | some (c, after) =>
        throughText (if c = '\n' then { after with line := after.line + 1 } else after)
termination_by size source - head.curr
decreasing_by
  obtain ⟨inside, rfl⟩ := advance_some _read
  split <;> exact Nat.sub_succ_lt_self _ _ inside

/-! ## One lexeme -/

/-- A text in quotes, behind the first of them. -/
def string (head : Head) : Option (Scanned × Head) := do
  let head ← throughText source head
  if size source ≤ head.curr then return (.fault .unterminatedString, head)
  else
    let (_, head) ← advance source head
    let text ← slice? source (head.start + 1) (head.curr - 1)
    return (.token .string (some (.text (String.ofList text))), head)

/-- The value of digits, with or without a point among them. -/
def numberOf (lexeme : List Char) : Float :=
  Number.ofDigits (lexeme.takeWhile Char.isDigit) ((lexeme.dropWhile Char.isDigit).drop 1)

/-- A number, behind its first digit. -/
def number (head : Head) : Option (Scanned × Head) := do
  let head ← skip source Char.isDigit head
  let point ← peek source head
  let digit ← peekNext source head
  let head ←
    if point = '.' && digit.isDigit then do
      let (_, head) ← advance source head
      skip source Char.isDigit head
    else some head
  let lexeme ← slice? source head.start head.curr
  return (.token .number (some (.number (numberOf lexeme))), head)

/-- A name or a keyword, behind its first character. -/
def identifier (head : Head) : Option (Scanned × Head) := do
  let head ← skip source Segment.continuesName head
  let lexeme ← slice? source head.start head.curr
  match Keyword.ofSpelling? (String.ofList lexeme) with
  | some keyword => return (.token (.keyword keyword) none, head)
  | none => return (.token .identifier none, head)

/-- Goes to the next line end, or to the end. -/
def toLineEnd (head : Head) : Option Head :=
  if head.curr ≤ size source then
    match ((encoded source).drop head.curr).findIdx? (fun byte => Char.ofUInt8 byte == '\n') with
    | some position => some { head with curr := head.curr + position }
    | none => some { head with curr := size source }
  else none

/-- A comment or the operator, behind a slash. -/
def slash (head : Head) : Option (Scanned × Head) := do
  let (second, head) ← matchByte source '/' head
  if second then return (.nothing, ← toLineEnd source head)
  else return (.token .slash none, head)

/-- An operator that a `=` makes longer, behind its first character. -/
def either (long short : Kind) (head : Head) : Option (Scanned × Head) := do
  let (longer, head) ← matchByte source '=' head
  return (.token (if longer then long else short) none, head)

/-- Steps over a whole character that starts no token. -/
def stray (head : Head) : Option (Scanned × Head) := do
  let text ← slice? source head.start (size source)
  let c := text.head?.getD '\uFFFD'
  return (.fault .unexpectedCharacter, { head with curr := head.start + c.utf8Size })

/-- One lexeme from its first byte on. -/
def scan (head : Head) : Option (Scanned × Head) := do
  let (c, head) ← advance source head
  if Segment.isBlank c then
    return (.nothing, if c = '\n' then { head with line := head.line + 1 } else head)
  else if c = '"' then string source head
  else if c.isDigit then number source head
  else if Segment.startsName c then identifier source head
  else if c = '/' then slash source head
  else
    match Segment.extensible? c with
    | some (long, short) => either source long short head
    | none =>
      match Segment.single? c with
      | some kind => return (.token kind none, head)
      | none => stray source head

/-! ## Items -/

/-- The next item, and nothing more behind the end mark. -/
def next (head : Head) : Option (Option Item × Head) :=
  if head.curr < size source then
    match scan source { head with start := head.curr } with
    | none => none
    | some (.fault error, after) => some (some (.error ⟨error, after.line⟩), after)
    | some (.token kind literal, after) =>
      (slice? source after.start after.curr).map fun lexeme =>
        (some (.ok ⟨kind, String.ofList lexeme, literal, after.line⟩), after)
    -- what stands still here would stand still for ever
    | some (.nothing, after) => if head.curr < after.curr then next after else none
  else if head.curr = size source then
    some (some (.ok (.endMark head.line)), { head with curr := head.curr + 1 })
  else some (none, head)
termination_by size source - head.curr

/-- What the first calls give. -/
def calls : Nat → Head → Option (List (Option Item))
  | 0, _ => some []
  | n + 1, head => do
    let (item, head) ← next source head
    return item :: (← calls n head)

end ByteScan

end LoxLang
