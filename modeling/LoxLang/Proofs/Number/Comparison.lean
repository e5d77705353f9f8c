import Mathlib
import LoxLang.Proofs.Number.Pattern

/-!
# Numbers are compared by their patterns

The host compares two numbers by what it takes them apart to.  A finite number is put together from
that as it was, so that two numbers without a sign are equal only if they have one pattern.

* `Number.eq_of_compare` — what is taken apart compares as equal to itself only, zeros excepted.
* **`Number.beq_ofPattern`** — the comparison of numbers without a sign is that of their patterns.
-/

namespace LoxLang

open Float.Model (Format UnpackedFloat)
open Float.Model.UnpackedFloat (Sign packComponents unpackSign pack unpack
  unpackExponent_packComponents)

namespace Number

variable {pattern other : Nat}

/-- Only the same two are equal, or two zeros. -/
lemma eq_of_compare {a b : UnpackedFloat} (equal : a.compare b = some .eq) :
    a = b ∨ ∃ s t, a = .zero s ∧ b = .zero t := by
  cases a with
  | notANumber => cases equal
  | infinity s =>
    cases b with
    | infinity t => cases s <;> cases t <;> first | exact .inl rfl | cases equal
    | _ => cases s <;> cases equal
  | zero s =>
    cases b with
    | zero t => exact .inr ⟨s, t, rfl, rfl⟩
    | notANumber => cases equal
    | infinity t => cases t <;> cases equal
    | finite t _ _ _ => cases t <;> cases equal
  | finite s m e positive =>
    cases b with
    | zero t => cases s <;> cases equal
    | notANumber => cases s <;> cases equal
    | infinity t => cases s <;> cases t <;> cases equal
    | finite t n f positive' =>
      -- with one sign the exponents are compared and then the significands
      cases s <;> cases t <;> simp only [UnpackedFloat.compare, Option.some.injEq, reduceCtorEq,
        Ordering.swap_eq_eq, Ordering.then_eq_eq, Std.LawfulEqCmp.compare_eq_iff_eq] at equal
      · obtain ⟨rfl, rfl⟩ := equal
        exact .inl rfl
      · obtain ⟨rfl, rfl⟩ := equal
        exact .inl rfl

lemma compare_self {a : UnpackedFloat} (number : a ≠ .notANumber) : a.compare a = some .eq := by
  cases a with
  | notANumber => exact absurd rfl number
  | infinity s => cases s <;> rfl
  | zero s => rfl
  | finite s m e positive => cases s <;> simp [UnpackedFloat.compare]

/-- What a finite pattern without a sign is taken apart to. -/
def apart (pattern : Nat) : UnpackedFloat :=
  unpack .binary64 (UInt64.ofNat (word false pattern)).toBitVec

lemma pack_apart (finite : pattern < infinity) :
    pack .binary64 (apart pattern) = (UInt64.ofNat (word false pattern)).toBitVec := by
  rw [apart, toBitVec_word false (lt_of_finite finite)]
  exact pack_unpack _ _ _ (exponent_ne finite)

lemma apart_injective (finite : pattern < infinity) (finite' : other < infinity)
    (same : apart pattern = apart other) : pattern = other := by
  have bits := (pack_apart finite).symm.trans ((congrArg _ same).trans (pack_apart finite'))
  have small := lt_of_finite finite
  have small' := lt_of_finite finite'
  have low : pattern % 2 ^ 64 = other % 2 ^ 64 := by simpa [word] using congrArg BitVec.toNat bits
  omega

lemma apart_ne_notANumber (finite : pattern < infinity) : apart pattern ≠ .notANumber := by
  rw [apart, toBitVec_word false (lt_of_finite finite)]
  simp only [unpack, unpackExponent_packComponents, if_neg (exponent_ne finite)]
  split
  · split <;> exact nofun
  · exact nofun

lemma sign_of_apart {s : Sign} (finite : pattern < infinity) (zero : apart pattern = .zero s) :
    s = .positive := by
  rw [apart, toBitVec_word false (lt_of_finite finite)] at zero
  simp only [unpack, unpackSign_packComponents, unpackExponent_packComponents,
    sign_ofBitVec_toBitVec, if_neg (exponent_ne finite)] at zero
  split at zero
  · split at zero
    · exact (UnpackedFloat.zero.inj zero).symm
    · cases zero
  · cases zero

/-- **The comparison of numbers without a sign is that of their patterns.** -/
theorem beq_ofPattern (finite : pattern < infinity) (finite' : other < infinity) :
    (ofPattern false pattern == ofPattern false other) = decide (pattern = other) := by
  have told : (ofPattern false pattern == ofPattern false other) =
      ((unpack .binary64 (ofPattern false pattern).toBits.toBitVec).compare
        (unpack .binary64 (ofPattern false other).toBits.toBitVec) == some .eq) := rfl
  rw [told, toBits_ofPattern false finite, toBits_ofPattern false finite', Bool.eq_iff_iff, beq_iff_eq,
    decide_eq_true_iff]
  change (apart pattern).compare (apart other) = some .eq ↔ _
  constructor
  · intro equal
    rcases eq_of_compare equal with same | ⟨s, t, zero, zero'⟩
    · exact apart_injective finite finite' same
    · refine apart_injective finite finite' ?_
      rw [zero, zero', sign_of_apart finite zero, sign_of_apart finite' zero']
  · rintro rfl
    exact compare_self (apart_ne_notANumber finite)

end Number
end LoxLang
