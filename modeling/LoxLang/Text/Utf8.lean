/-!
# Reading bytes as UTF-8

Bytes that are no UTF-8 are not an error everywhere: a file with such bytes is refused with the place
of the first fault, while program output is shown with each fault replaced by one mark.  Both follow
from one cut of the bytes into pieces.

* `Utf8.Piece` — a character, or a longest run of bytes that starts a character and does not finish it.
* **`Utf8.pieces`** — the cut.
* `Utf8.decode` — the text, or the first fault; `Utf8.decodeLossy` — the text with marks.
-/

namespace LoxLang.Utf8

/-- A part of a byte string. -/
inductive Piece where
  | scalar (c : Char)
  /-- Bytes that no character starts with, or that the next byte contradicts. -/
  | invalid (length : Nat)
  /-- Bytes at the end that more bytes could have made a character. -/
  | cut (length : Nat)
  deriving DecidableEq, Repr

/-- The ranges that the bytes after a first byte must lie in, and the bits the first one brings.
The narrower second ranges rule out overlong forms, surrogates and what is above `10FFFF`. -/
def lead? (first : Nat) : Option (Nat × List (Nat × Nat)) :=
  let tail := (0x80, 0xBF)
  if first < 0x80 then some (first, [])
  else if first < 0xC2 then none
  else if first < 0xE0 then some (first - 0xC0, [tail])
  else if first = 0xE0 then some (0, [(0xA0, 0xBF), tail])
  else if first = 0xED then some (0xD, [(0x80, 0x9F), tail])
  else if first < 0xF0 then some (first - 0xE0, [tail, tail])
  else if first = 0xF0 then some (0, [(0x90, 0xBF), tail, tail])
  else if first < 0xF4 then some (first - 0xF0, [tail, tail, tail])
  else if first = 0xF4 then some (4, [(0x80, 0x8F), tail, tail])
  else none

/-- Goes on with a character of which `taken` bytes are read and whose bits so far are `code`. -/
def follow (code taken : Nat) : List (Nat × Nat) → List UInt8 → Piece × List UInt8
  | [], rest => (.scalar (Char.ofNat code), rest)
  | _ :: _, [] => (.cut taken, [])
  | (low, high) :: ranges, byte :: rest =>
    if low ≤ byte.toNat ∧ byte.toNat ≤ high then
      follow (code * 64 + (byte.toNat - 0x80)) (taken + 1) ranges rest
    else (.invalid taken, byte :: rest)

theorem length_follow_le (ranges : List (Nat × Nat)) (code taken : Nat) (bytes : List UInt8) :
    (follow code taken ranges bytes).2.length ≤ bytes.length := by
  induction ranges generalizing code taken bytes with
  | nil => simp [follow]
  | cons range ranges ih =>
    cases bytes with
    | nil => simp [follow]
    | cons byte rest =>
      simp only [follow]
      split
      · exact Nat.le_succ_of_le (ih ..)
      · simp

/-- The first piece of bytes that start with `first`, and what follows it. -/
def split (first : UInt8) (rest : List UInt8) : Piece × List UInt8 :=
  match lead? first.toNat with
  | some (code, ranges) => follow code 1 ranges rest
  | none => (.invalid 1, rest)

theorem length_split_le (first : UInt8) (rest : List UInt8) :
    (split first rest).2.length ≤ rest.length := by
  unfold split
  split
  · exact length_follow_le ..
  · simp

/-- Cuts bytes into pieces. -/
def pieces : List UInt8 → List Piece
  | [] => []
  | first :: rest => (split first rest).1 :: pieces (split first rest).2
termination_by bytes => bytes.length
decreasing_by exact Nat.lt_succ_of_le (length_split_le first rest)

/-- The character shown for a piece. -/
def Piece.shown : Piece → Char
  | .scalar c => c
  | .invalid _ => '\uFFFD'
  | .cut _ => '\uFFFD'

/-- The text of bytes, with one replacement mark for each faulty piece. -/
def decodeLossy (bytes : List UInt8) : String :=
  String.ofList ((pieces bytes).map Piece.shown)

/-! ## The first fault -/

/-- Why bytes are no UTF-8, and where the first faulty piece starts. -/
inductive Fault where
  | invalid (length index : Nat)
  | cut (index : Nat)
  deriving DecidableEq, Repr

/-- The wording of a fault. -/
def Fault.message : Fault → String
  | .invalid length index => s!"invalid utf-8 sequence of {length} bytes from index {index}"
  | .cut index => s!"incomplete utf-8 byte sequence from index {index}"

/-- The characters of pieces that start at byte `index`, or the first fault among them. -/
def scalars (index : Nat) : List Piece → Except Fault (List Char)
  | [] => .ok []
  | .scalar c :: rest => (scalars (index + c.utf8Size) rest).map (c :: ·)
  | .invalid length :: _ => .error (.invalid length index)
  | .cut _ :: _ => .error (.cut index)

/-- The text of bytes that are UTF-8 throughout. -/
def decode (bytes : List UInt8) : Except Fault String :=
  (scalars 0 (pieces bytes)).map String.ofList

end LoxLang.Utf8
