import Mathlib
import LoxLang.Number.Binary

/-!
# Signs, patterns and bits

A number of the language is its 64 bits, and everything that `Number.parts` says of it can be read off
them.  The arithmetic of the host takes a number apart and puts it together again for each operation;
for a finite number neither changes anything, so that negation is a change of the first bit.

* `Number.word` — the bits of a sign and a pattern.
* `Number.pack_unpack` — a finite number that is taken apart is put together as it was.
* **`Number.toBits_ofPattern`**, **`Number.eq_ofPattern`** — a finite number is its sign and its pattern.
* **`Number.neg_ofPattern`** — its negation has the other sign and the same pattern.
* **`Number.exists_parts`** — and every finite number has a pattern.
-/

namespace LoxLang

open Float.Model (Format UnpackedFloat)
open Float.Model.UnpackedFloat (Sign packComponents unpackSign unpackExponent unpackMantissa pack unpack
  unpackExponent_packComponents unpackMantissa_packComponents)

namespace Number

/-! ## Taking apart and putting together -/

section

variable (sign : Sign) (exponent : BitVec 11) (mantissa : BitVec 52)

@[simp] lemma sign_ofBitVec_toBitVec : Sign.ofBitVec sign.toBitVec = sign := by
  cases sign <;> rfl

lemma unpackSign_packComponents {spec : Format} (sign : Sign) (exponent : BitVec spec.exponentBits)
    (mantissa : BitVec spec.mantissaBitsWithoutImplicit) :
    unpackSign (packComponents spec sign exponent mantissa) = sign.toBitVec := by
  refine BitVec.eq_of_getLsbD_eq fun i inside => ?_
  obtain rfl : i = 0 := by omega
  simp [unpackSign, packComponents, BitVec.getLsbD_append, BitVec.getElem_append]

/-- Negation and taking apart may change places. -/
lemma neg_unpack :
    (unpack .binary64 (packComponents .binary64 sign exponent mantissa)).neg =
      unpack .binary64 (packComponents .binary64 (-sign) exponent mantissa) := by
  simp only [unpack, unpackSign_packComponents, unpackExponent_packComponents,
    unpackMantissa_packComponents, sign_ofBitVec_toBitVec]
  split
  · split <;> rfl
  · split
    · split <;> rfl
    · rfl

/-- A fraction with the one in front of it. -/
lemma toNat_leading : (1#1 ++ mantissa).toNat = 2 ^ 52 + mantissa.toNat := by
  have below := mantissa.isLt
  rw [BitVec.toNat_append, ← Nat.shiftLeft_add_eq_or_of_lt below]
  rfl

lemma log2_leading : (2 ^ 52 + mantissa.toNat).log2 = 52 := by
  have below := mantissa.isLt
  rw [Nat.log2_eq_iff (by omega)]
  omega

lemma log2_subnormal : mantissa.toNat.log2 < 52 := by
  rcases Nat.eq_zero_or_pos mantissa.toNat with zero | positive
  · rw [zero]; simp
  · exact (Nat.log2_lt positive.ne').mpr mantissa.isLt

/-- A number with a leading one is packed as its exponent and its fraction. -/
lemma pack_normal (below : exponent.toNat < 2047) (positive : 0 < (1#1 ++ mantissa).toNat) :
    pack .binary64 (.finite sign (1#1 ++ mantissa).toNat (exponent.toNat - (1023 + 52)) positive) =
      packComponents .binary64 sign exponent mantissa := by
  have place : (((exponent.toNat : Int) - (1023 + 52)) + 1023 + 52).toNat = exponent.toNat := by
    omega
  have fraction : BitVec.ofNat 52 (2 ^ 52 + mantissa.toNat) = mantissa := by
    simp [BitVec.ofNat_add]
  have bias : (Format.binary64.exponentBias : Int) = 1023 := rfl
  have width : ((Format.binary64.mantissaBitsWithoutImplicit : Nat) : Int) = 52 := rfl
  unfold pack
  dsimp only
  rw [bias, width, place, toNat_leading, log2_leading, if_neg (by omega),
    if_pos (by simp [Format.mantissaBits]), BitVec.ofNat_toNat, fraction]
  simp

/-- A number without a leading one is packed as its fraction. -/
lemma pack_subnormal (positive : 0 < mantissa.toNat) :
    pack .binary64 (.finite sign mantissa.toNat ((0 : Nat) - (1023 + 52) + 1) positive) =
      packComponents .binary64 sign 0#11 mantissa := by
  have short := log2_subnormal mantissa
  have bias : (Format.binary64.exponentBias : Int) = 1023 := rfl
  have width : ((Format.binary64.mantissaBitsWithoutImplicit : Nat) : Int) = 52 := rfl
  unfold pack
  dsimp only
  rw [bias, width, if_neg (by decide), if_neg (by simp only [Format.mantissaBits]; omega),
    BitVec.ofNat_toNat]
  simp

/-- **A finite number is packed as the bits it was unpacked from.** -/
lemma pack_unpack (finite : exponent ≠ -1#11) :
    pack .binary64 (unpack .binary64 (packComponents .binary64 sign exponent mantissa)) =
      packComponents .binary64 sign exponent mantissa := by
  have below : exponent.toNat < 2047 := by
    have upper := exponent.isLt
    have apart : exponent.toNat ≠ 2047 := fun same => finite (BitVec.eq_of_toNat_eq same)
    omega
  simp only [unpack, unpackSign_packComponents, unpackExponent_packComponents,
    unpackMantissa_packComponents, sign_ofBitVec_toBitVec, if_neg finite]
  by_cases zero : exponent = 0#11
  · subst zero
    rw [if_pos rfl]
    split
    · next none => rw [none]; rfl
    · next some => exact pack_subnormal sign mantissa _
  · rw [if_neg zero]
    exact pack_normal sign exponent mantissa below _

end

/-! ## The bits of a pattern -/

/-- The sign of a number. -/
def signOf (negative : Bool) : Sign := if negative then .negative else .positive

/-- The bits of a sign and a pattern. -/
def word (negative : Bool) (pattern : Nat) : Nat := if negative then 2 ^ 63 + pattern else pattern

lemma word_lt (negative : Bool) {pattern : Nat} (below : pattern < 2 ^ 63) :
    word negative pattern < 2 ^ 64 := by
  unfold word
  split <;> omega

lemma infinity_eq : infinity = 2047 * 2 ^ 52 := rfl

/-- The parts of a bit pattern: sign, exponent and fraction. -/
lemma toBitVec_word (negative : Bool) {pattern : Nat} (below : pattern < 2 ^ 63) :
    (UInt64.ofNat (word negative pattern)).toBitVec =
      packComponents .binary64 (signOf negative) (BitVec.ofNat 11 (pattern / 2 ^ 52))
        (BitVec.ofNat 52 (pattern % 2 ^ 52)) := by
  have exponent : pattern / 2 ^ 52 < 2 ^ 11 := by omega
  have fraction : pattern % 2 ^ 52 < 2 ^ 52 := Nat.mod_lt _ (by decide)
  refine BitVec.eq_of_toNat_eq ?_
  have left : (UInt64.ofNat (word negative pattern)).toBitVec.toNat = word negative pattern := by
    simpa using Nat.mod_eq_of_lt (word_lt negative below)
  have right : (packComponents .binary64 (signOf negative) (BitVec.ofNat 11 (pattern / 2 ^ 52))
      (BitVec.ofNat 52 (pattern % 2 ^ 52))).toNat =
        ((signOf negative).toBitVec.toNat * 2 ^ 11 + pattern / 2 ^ 52) * 2 ^ 52 +
          pattern % 2 ^ 52 := by
    rw [packComponents, BitVec.toNat_append, BitVec.toNat_append, BitVec.toNat_ofNat,
      BitVec.toNat_ofNat, Nat.mod_eq_of_lt exponent, Nat.mod_eq_of_lt fraction,
      ← Nat.shiftLeft_add_eq_or_of_lt exponent, ← Nat.shiftLeft_add_eq_or_of_lt fraction,
      Nat.shiftLeft_eq, Nat.shiftLeft_eq]
  rw [left, right]
  unfold word signOf
  cases negative
  · simp [Sign.toBitVec]; omega
  · simp [Sign.toBitVec]; omega

variable {pattern : Nat}

lemma exponent_ne (finite : pattern < infinity) : BitVec.ofNat 11 (pattern / 2 ^ 52) ≠ -1#11 := by
  rw [infinity_eq] at finite
  have below : pattern / 2 ^ 52 < 2047 := by omega
  intro same
  have nat := congrArg BitVec.toNat same
  rw [BitVec.toNat_ofNat, Nat.mod_eq_of_lt (by omega)] at nat
  have : (-1#11).toNat = 2047 := rfl
  omega

lemma lt_of_finite (finite : pattern < infinity) : pattern < 2 ^ 63 := by
  rw [infinity_eq] at finite
  omega

/-- **The bits of a finite number are its sign and its pattern.** -/
theorem toBits_ofPattern (negative : Bool) (finite : pattern < infinity) :
    (ofPattern negative pattern).toBits = UInt64.ofNat (word negative pattern) := by
  have bits := toBitVec_word negative (lt_of_finite finite)
  have packed := pack_unpack (signOf negative) _ (BitVec.ofNat 52 (pattern % 2 ^ 52))
    (exponent_ne finite)
  rw [← bits] at packed
  rw [← UInt64.toBitVec_inj]
  exact packed

lemma signOf_not (negative : Bool) : signOf (!negative) = -signOf negative := by
  cases negative <;> rfl

/-- **Negating a finite number changes its sign and nothing else.** -/
theorem neg_ofPattern (negative : Bool) (finite : pattern < infinity) :
    -ofPattern negative pattern = ofPattern (!negative) pattern := by
  have bits := toBits_ofPattern negative finite
  have flipped : (unpack .binary64 (UInt64.ofNat (word negative pattern)).toBitVec).neg =
      unpack .binary64 (UInt64.ofNat (word (!negative) pattern)).toBitVec := by
    rw [toBitVec_word negative (lt_of_finite finite), toBitVec_word _ (lt_of_finite finite),
      signOf_not]
    exact neg_unpack ..
  calc -ofPattern negative pattern
      = .ofModel (.pack (unpack .binary64 (ofPattern negative pattern).toBits.toBitVec).neg) := rfl
    _ = .ofModel (.pack (unpack .binary64 (UInt64.ofNat (word (!negative) pattern)).toBitVec)) := by
      rw [bits, flipped]
    _ = ofPattern (!negative) pattern := rfl

/-- Numbers with the same bits are the same. -/
lemma eq_of_toBits {x y : Float} (same : x.toBits = y.toBits) : x = y := by
  obtain ⟨x, _⟩ := x
  obtain ⟨y, _⟩ := y
  obtain rfl : x = y := same
  rfl

/-- **A finite number is the one with its sign and its pattern.** -/
theorem eq_ofPattern {x : Float} {negative : Bool} (found : parts x = .finite negative pattern) :
    pattern < infinity ∧ x = ofPattern negative pattern := by
  have bounded : x.toBits.toNat < 2 ^ 64 := x.toBits.toNat_lt
  unfold parts at found
  simp only [Nat.pow_eq] at found
  split at found
  · next finite =>
    cases found
    refine ⟨finite, eq_of_toBits ?_⟩
    rw [toBits_ofPattern _ finite, ← UInt64.toNat_inj,
      UInt64.toNat_ofNat_of_lt' (word_lt _ (lt_of_finite finite))]
    unfold word
    split
    · next negative => simp at negative; omega
    · next positive => simp at positive; omega
  · split at found <;> cases found

/-- A number with all exponent bits set is not finite. -/
lemma isFinite_unpack_ones (sign : Sign) (mantissa : BitVec 52) :
    (unpack .binary64 (packComponents .binary64 sign (-1#11) mantissa)).isFinite = false := by
  simp only [unpack, unpackExponent_packComponents, if_true]
  split <;> rfl

/-- **A finite number has a pattern, and its sign is its first bit.** -/
theorem exists_parts {x : Float} (finite : x.isFinite) :
    ∃ pattern, parts x = .finite (decide (2 ^ 63 ≤ x.toBits.toNat)) pattern := by
  have bounded : x.toBits.toNat < 2 ^ 64 := x.toBits.toNat_lt
  refine ⟨x.toBits.toNat % 2 ^ 63, ?_⟩
  unfold parts
  simp only [Nat.pow_eq]
  by_cases small : x.toBits.toNat % 2 ^ 63 < infinity
  · rw [if_pos small]
  · exfalso
    have whole : x.toBits.toNat =
        word (decide (2 ^ 63 ≤ x.toBits.toNat)) (x.toBits.toNat % 2 ^ 63) := by
      unfold word
      split
      · next negative => simp at negative; omega
      · next positive => simp at positive; omega
    have bits := toBitVec_word (decide (2 ^ 63 ≤ x.toBits.toNat))
      (Nat.mod_lt x.toBits.toNat (by decide : 0 < 2 ^ 63))
    rw [← whole, UInt64.ofNat_toNat] at bits
    have ones : BitVec.ofNat 11 (x.toBits.toNat % 2 ^ 63 / 2 ^ 52) = -1#11 := by
      rw [infinity_eq] at small
      have top : x.toBits.toNat % 2 ^ 63 / 2 ^ 52 = 2047 := by omega
      rw [top]
      rfl
    rw [ones] at bits
    have infinite := isFinite_unpack_ones (signOf (decide (2 ^ 63 ≤ x.toBits.toNat)))
      (BitVec.ofNat 52 (x.toBits.toNat % 2 ^ 63 % 2 ^ 52))
    rw [← bits] at infinite
    have told : x.isFinite = (unpack .binary64 x.toBits.toBitVec).isFinite := rfl
    rw [told, infinite] at finite
    cases finite

end Number
end LoxLang
