import Mathlib
import LoxLang.Text.Utf8

/-!
# The bytes of a text

The characters below 128 are single bytes of their own number, and all other characters consist of bytes
from 128 on.  Whoever only looks for characters below 128 may therefore look at bytes, and always stops
where a character starts.

* `Utf8.encoded` — the bytes of a text, as the library encodes it.
* **`Utf8.cut?`** — a text cut at the index of a byte, unless this is in the middle of a character.
* `Utf8.Glimpse` — what the first byte of a character tells of it.
* **`Utf8.takeWhile_encoded`**, `Utf8.count_encoded` — runs of characters and runs of bytes.
-/

namespace LoxLang.Utf8

/-- The bytes of a text. -/
def encoded (text : List Char) : List UInt8 := text.flatMap String.utf8EncodeChar

/-- These are the bytes of the library. -/
lemma toUTF8_eq_encoded (source : String) :
    source.toUTF8 = (encoded source.toList).toByteArray := by
  rw [encoded]
  exact String.utf8Encode_toList.symm

@[simp]
lemma encoded_nil : encoded [] = [] := rfl

@[simp]
lemma encoded_cons (c : Char) (text : List Char) :
    encoded (c :: text) = String.utf8EncodeChar c ++ encoded text := by
  rw [encoded, List.flatMap_cons, encoded]

@[simp]
lemma encoded_append (front behind : List Char) :
    encoded (front ++ behind) = encoded front ++ encoded behind := by
  rw [encoded, List.flatMap_append, encoded, encoded]

/-! ## One character -/

/-- A character below 128 is one byte. -/
lemma encodeChar_narrow {c : Char} (narrow : c.toNat < 128) :
    String.utf8EncodeChar c = [UInt8.ofNat c.toNat] := by
  have small : c.val.toNat ≤ 127 := by change c.toNat ≤ 127; omega
  rw [String.utf8EncodeChar, if_pos small]
  rfl

/-- All bytes of the other characters are from 128 on. -/
lemma encodeChar_wide {c : Char} (wide : 128 ≤ c.toNat) :
    ∀ byte ∈ String.utf8EncodeChar c, 128 ≤ byte.toNat := by
  have large : ¬c.val.toNat ≤ 127 := by change ¬c.toNat ≤ 127; omega
  intro byte mem
  simp only [String.utf8EncodeChar, if_neg large] at mem
  split_ifs at mem <;> simp only [List.mem_cons, List.not_mem_nil, or_false] at mem
  · rcases mem with rfl | rfl <;> simp only [UInt8.toNat_ofNat'] <;> omega
  · rcases mem with rfl | rfl | rfl <;> simp only [UInt8.toNat_ofNat'] <;> omega
  · rcases mem with rfl | rfl | rfl | rfl <;> simp only [UInt8.toNat_ofNat'] <;> omega

lemma encodeChar_ne_nil (c : Char) : String.utf8EncodeChar c ≠ [] := by
  intro empty
  have length := String.length_utf8EncodeChar c
  rw [empty] at length
  exact absurd length.symm (Char.utf8Size_pos c).ne'

lemma toNat_ofUInt8 (byte : UInt8) : (Char.ofUInt8 byte).toNat = byte.toNat := by
  show byte.toUInt32.toNat = byte.toNat
  exact UInt8.toNat_toUInt32 byte

lemma ofUInt8_narrow {c : Char} (narrow : c.toNat < 128) : Char.ofUInt8 (UInt8.ofNat c.toNat) = c := by
  refine Char.toNat_inj.mp ?_
  rw [toNat_ofUInt8, UInt8.toNat_ofNat', Nat.mod_eq_of_lt (by omega)]

/-- What the first byte of `c` tells of it: the character itself below 128, and of all others only that
they are none of these. -/
def Glimpse (c seen : Char) : Prop := seen = c ∨ 128 ≤ c.toNat ∧ 128 ≤ seen.toNat

namespace Glimpse

variable {c seen : Char}

/-- A known character below 128 is recognized. -/
lemma eq_iff (glimpse : Glimpse c seen) {known : Char} (narrow : known.toNat < 128) :
    seen = known ↔ c = known := by
  rcases glimpse with rfl | ⟨wide, wide'⟩
  · exact Iff.rfl
  · constructor
    · rintro rfl
      omega
    · rintro rfl
      omega

/-- So is a class of characters that takes all the others alike. -/
lemma apply_eq {β : Type} (glimpse : Glimpse c seen) {f : Char → β} {other : β}
    (uniform : ∀ c : Char, 128 ≤ c.toNat → f c = other) : f seen = f c := by
  rcases glimpse with rfl | ⟨wide, wide'⟩
  · rfl
  · rw [uniform c wide, uniform seen wide']

end Glimpse

lemma exists_glimpse (c : Char) : ∃ byte more, String.utf8EncodeChar c = byte :: more ∧
    Glimpse c (Char.ofUInt8 byte) := by
  by_cases narrow : c.toNat < 128
  · exact ⟨_, [], encodeChar_narrow narrow, .inl (ofUInt8_narrow narrow)⟩
  · obtain ⟨byte, more, bytes⟩ := List.exists_cons_of_ne_nil (encodeChar_ne_nil c)
    have wide := encodeChar_wide (Nat.le_of_not_lt narrow) byte (by simp [bytes])
    exact ⟨byte, more, bytes, .inr ⟨Nat.le_of_not_lt narrow, by rwa [toNat_ofUInt8]⟩⟩

/-! ## Runs -/

/-- **A run of bytes is a run of characters**, for a class that takes all characters from 128 on alike. -/
lemma takeWhile_encoded {p : Char → Bool} {other : Bool}
    (uniform : ∀ c : Char, 128 ≤ c.toNat → p c = other) (text : List Char) :
    (encoded text).takeWhile (fun byte => p (Char.ofUInt8 byte)) = encoded (text.takeWhile p) := by
  induction text with
  | nil => rfl
  | cons c text ih =>
      obtain ⟨byte, more, bytes, glimpse⟩ := exists_glimpse c
      rw [encoded_cons, List.takeWhile_cons]
      cases goes : p c with
      | false =>
          rw [bytes, List.cons_append, List.takeWhile_cons, glimpse.apply_eq uniform, goes]
          rfl
      | true =>
          have all : ∀ byte ∈ String.utf8EncodeChar c, p (Char.ofUInt8 byte) = true := by
            intro byte mem
            by_cases narrow : c.toNat < 128
            · rw [encodeChar_narrow narrow, List.mem_singleton] at mem
              rw [mem, ofUInt8_narrow narrow, goes]
            · have wide := Nat.le_of_not_lt narrow
              have wide' := encodeChar_wide wide byte mem
              rw [uniform _ (by rwa [toNat_ofUInt8]), ← uniform c wide, goes]
          rw [List.takeWhile_append_of_pos all, ih]
          simp

/-- Line ends are found among the bytes. -/
lemma count_encoded (text : List Char) :
    ((encoded text).map Char.ofUInt8).count '\n' = text.count '\n' := by
  induction text with
  | nil => rfl
  | cons c text ih =>
      rw [encoded_cons, List.map_append, List.count_append, ih, Nat.add_comm]
      by_cases narrow : c.toNat < 128
      · rw [encodeChar_narrow narrow, List.map_singleton, ofUInt8_narrow narrow, List.count_cons,
          List.count_cons, List.count_nil, Nat.zero_add]
      · have wide := Nat.le_of_not_lt narrow
        have none_ : ((String.utf8EncodeChar c).map Char.ofUInt8).count '\n' = 0 := by
          refine List.count_eq_zero.mpr fun mem => ?_
          obtain ⟨byte, mem, same⟩ := List.mem_map.mp mem
          have large := encodeChar_wide wide byte mem
          rw [← toNat_ofUInt8, same] at large
          exact absurd large (by decide)
        have other : c ≠ '\n' := by
          rintro rfl
          exact absurd wide (by decide)
        rw [none_, List.count_cons_of_ne other, Nat.add_zero]

/-! ## Cuts and slices -/

/-- A text cut at the index of a byte; nothing if the index is in the middle of a character or behind
the text. -/
def cut? : Nat → List Char → Option (List Char × List Char)
  | 0, text => some ([], text)
  | _ + 1, [] => none
  | index + 1, c :: text =>
    if index + 1 < c.utf8Size then none
    else (cut? (index + 1 - c.utf8Size) text).map fun (front, behind) => (c :: front, behind)

@[simp]
lemma length_encoded_cons (c : Char) (text : List Char) :
    (encoded (c :: text)).length = c.utf8Size + (encoded text).length := by
  rw [encoded_cons, List.length_append, String.length_utf8EncodeChar]

/-- Between two characters a text can be cut. -/
lemma cut?_encoded (front behind : List Char) :
    cut? (encoded front).length (front ++ behind) = some (front, behind) := by
  induction front with
  | nil =>
      cases behind with
      | nil => rfl
      | cons c behind => rfl
  | cons c front ih =>
      have positive := Char.utf8Size_pos c
      obtain ⟨index, size⟩ := Nat.exists_eq_add_of_lt positive
      have whole : (encoded (c :: front)).length = index + (encoded front).length + 1 := by
        rw [length_encoded_cons, size]
        omega
      have rest : index + (encoded front).length + 1 - c.utf8Size = (encoded front).length := by omega
      rw [whole, List.cons_append, cut?, if_neg (by omega), rest, ih]
      rfl

/-- **A cut is made exactly between two characters.** -/
lemma cut?_eq_some_iff {index : Nat} {text front behind : List Char} :
    cut? index text = some (front, behind) ↔
      front ++ behind = text ∧ (encoded front).length = index := by
  constructor
  · intro found
    induction text generalizing index front with
    | nil =>
        cases index with
        | zero => cases found; exact ⟨rfl, rfl⟩
        | succ index => cases found
    | cons c text ih =>
        cases index with
        | zero => cases found; exact ⟨rfl, rfl⟩
        | succ index =>
            rw [cut?] at found
            split_ifs at found with inside
            obtain ⟨⟨front, behind⟩, found, same⟩ := Option.map_eq_some_iff.mp found
            cases same
            obtain ⟨rfl, size⟩ := ih found
            refine ⟨rfl, ?_⟩
            rw [length_encoded_cons, size]
            omega
  · rintro ⟨rfl, rfl⟩
    exact cut?_encoded front behind

/-- The text between two bytes; nothing if one of them is in the middle of a character or behind the
text, or if they are in the wrong order. -/
def slice? (text : List Char) (first last : Nat) : Option (List Char) :=
  if first ≤ last then
    (cut? first text).bind fun cut => (cut? (last - first) cut.2).map Prod.fst
  else none

/-- **A slice is made exactly between two places between characters.** -/
lemma slice?_eq_some_iff {text between : List Char} {first last : Nat} :
    slice? text first last = some between ↔ ∃ front behind, front ++ between ++ behind = text ∧
      (encoded front).length = first ∧ (encoded (front ++ between)).length = last := by
  rw [slice?]
  constructor
  · intro found
    split_ifs at found with ordered
    obtain ⟨⟨front, ahead⟩, cut, found⟩ := Option.bind_eq_some_iff.mp found
    obtain ⟨⟨_, behind⟩, cut', rfl⟩ := Option.map_eq_some_iff.mp found
    obtain ⟨rfl, rfl⟩ := cut?_eq_some_iff.mp cut
    obtain ⟨rfl, size⟩ := cut?_eq_some_iff.mp cut'
    refine ⟨front, behind, List.append_assoc _ _ _, rfl, ?_⟩
    rw [encoded_append, List.length_append, size]
    omega
  · rintro ⟨front, behind, rfl, rfl, rfl⟩
    have size : (encoded (front ++ between)).length - (encoded front).length =
        (encoded between).length := by
      rw [encoded_append, List.length_append, Nat.add_sub_cancel_left]
    have ordered : (encoded front).length ≤ (encoded (front ++ between)).length := by
      rw [encoded_append, List.length_append]
      exact Nat.le_add_right _ _
    rw [if_pos ordered, size, List.append_assoc, cut?_encoded, Option.bind_some, cut?_encoded]
    rfl

end LoxLang.Utf8
