import Mathlib
import LoxLang.Number.Binary

/-!
# Reading a quotient gives the nearest number

`Number.nearest` shifts, divides and rounds once.  This module says which number that is without
saying how it is found: of all numbers up to the infinity, the one at the least distance.

* `Number.magnitude` — what a pattern stands for, as a rational.
* `Number.IsNearest` — the pattern at the least distance from a rational; of two, the even one.
* **`Number.isNearest_nearest`** — `Number.nearest` gives it, also for subnormal numbers, across the
  carries of the significand and where a quotient is too large.
* **`Number.IsNearest.unique`** — no other pattern is nearest.

The infinity takes part with the magnitude `2 ^ 1024`, which follows the largest finite number on
its grid.  Half way to it is where rounding starts to overflow, so overflow is no case of its own.
-/

namespace LoxLang

namespace Number

/-! ## What is asked for -/

/-- The magnitude a pattern stands for. -/
def magnitude (pattern : Nat) : ℚ := units pattern / unitsPerOne

/-- How far a pattern is from `target`. -/
def distance (target : ℚ) (pattern : Nat) : ℚ := |magnitude pattern - target|

/-- **The number at the least distance from `target`, and of two the one with an even pattern.** -/
structure IsNearest (target : ℚ) (pattern : Nat) : Prop where
  bounded : pattern ≤ infinity
  closest : ∀ other ≤ infinity, distance target pattern ≤ distance target other
  even_of_tie : ∀ other ≤ infinity, other ≠ pattern →
    distance target other = distance target pattern → Even pattern

/-! ## The grid of numbers

Between two powers of two the numbers are equally spaced.  `significand + shift * 2 ^ 52` numbers the
multiples of `2 ^ shift`, also at the ends of the interval, where a carry moves to the next exponent.
-/

/-- The significands that belong to a shift, with the carry at the upper end. -/
def OnGrid (shift significand : Nat) : Prop :=
  significand ≤ 2 ^ 53 ∧ (0 < shift → 2 ^ 52 ≤ significand)

lemma units_of_lt {pattern : Nat} (below : pattern < 2 ^ 52) : units pattern = pattern := by
  have quotient : pattern / 2 ^ 52 = 0 := Nat.div_eq_of_lt below
  simp only [units, Nat.pow_eq, quotient, if_true, Nat.mod_eq_of_lt below]

lemma units_of_exponent (exponent : Nat) {fraction : Nat} (below : fraction < 2 ^ 52) :
    units ((exponent + 1) * 2 ^ 52 + fraction) = (2 ^ 52 + fraction) * 2 ^ exponent := by
  have quotient : ((exponent + 1) * 2 ^ 52 + fraction) / 2 ^ 52 = exponent + 1 := by omega
  have remainder : ((exponent + 1) * 2 ^ 52 + fraction) % 2 ^ 52 = fraction := by omega
  simp only [units, Nat.pow_eq, quotient, remainder, Nat.add_one_ne_zero, if_false,
    Nat.add_sub_cancel]

/-- The pattern made of a significand and a shift stands for the shifted significand. -/
lemma units_onGrid {shift significand : Nat} (onGrid : OnGrid shift significand) :
    units (significand + shift * 2 ^ 52) = significand * 2 ^ shift := by
  obtain ⟨upper, lower⟩ := onGrid
  rcases Nat.lt_or_ge significand (2 ^ 52) with small | normal
  · obtain rfl : shift = 0 := by by_contra positive; have := lower (by omega); omega
    simpa using units_of_lt small
  · rcases Nat.lt_or_eq_of_le upper with inside | carry
    · obtain ⟨fraction, rfl⟩ := Nat.exists_eq_add_of_le normal
      have shape : 2 ^ 52 + fraction + shift * 2 ^ 52 = (shift + 1) * 2 ^ 52 + fraction := by ring
      rw [shape, units_of_exponent shift (by omega)]
    · have shape : significand + shift * 2 ^ 52 = (shift + 1 + 1) * 2 ^ 52 + 0 := by
        rw [carry]; ring
      rw [shape, units_of_exponent (shift + 1) (by omega), carry]
      ring

/-- Every pattern is on the grid of some shift. -/
lemma exists_onGrid (pattern : Nat) : ∃ shift significand,
    pattern = significand + shift * 2 ^ 52 ∧ OnGrid shift significand ∧ significand < 2 ^ 53 := by
  rcases Nat.lt_or_ge pattern (2 ^ 52) with small | normal
  · exact ⟨0, pattern, by simp, ⟨by omega, by simp⟩, by omega⟩
  · refine ⟨pattern / 2 ^ 52 - 1, pattern % 2 ^ 52 + 2 ^ 52, by omega, ⟨by omega, ?_⟩, by omega⟩
    intro _
    omega

/-- The next pattern stands for a larger magnitude. -/
lemma units_lt_succ (pattern : Nat) : units pattern < units (pattern + 1) := by
  obtain ⟨shift, significand, rfl, onGrid, below⟩ := exists_onGrid pattern
  have next : OnGrid shift (significand + 1) := ⟨by omega, fun h => by have := onGrid.2 h; omega⟩
  rw [show significand + shift * 2 ^ 52 + 1 = significand + 1 + shift * 2 ^ 52 by ring,
    units_onGrid onGrid, units_onGrid next]
  exact Nat.mul_lt_mul_of_pos_right (Nat.lt_succ_self _) (Nat.two_pow_pos shift)

/-- Patterns are in the order of the magnitudes they stand for. -/
lemma units_strictMono : StrictMono units := strictMono_nat_of_lt_succ units_lt_succ

/-- Numbers that are not multiples of `2 ^ shift` lie below all significands of that shift. -/
lemma dvd_units_or_lt (shift pattern : Nat) :
    2 ^ shift ∣ units pattern ∨ units pattern < 2 ^ 52 * 2 ^ shift := by
  obtain ⟨exponent, significand, rfl, onGrid, below⟩ := exists_onGrid pattern
  rw [units_onGrid onGrid]
  rcases Nat.lt_or_ge exponent shift with less | enough
  · refine .inr ?_
    calc significand * 2 ^ exponent < 2 ^ 53 * 2 ^ exponent :=
          Nat.mul_lt_mul_of_pos_right below (Nat.two_pow_pos exponent)
      _ = 2 ^ 52 * 2 ^ (exponent + 1) := by ring
      _ ≤ 2 ^ 52 * 2 ^ shift := Nat.mul_le_mul_left _ (Nat.pow_le_pow_right two_pos less)
  · exact .inl (Dvd.dvd.mul_left (Nat.pow_dvd_pow 2 enough) significand)

/-! ## Rounding a quotient to an integer -/

/-- How far an integer multiple of `den` is from `num`. -/
def gap (num den k : Nat) : Int := |(k * den : Int) - num|

/-- A rounded quotient is at most half a step away, and even if it is exactly that. -/
lemma quotientToEven_half (num : Nat) {den : Nat} (positive : 0 < den) :
    2 * gap num den (quotientToEven num den) ≤ den ∧
      (2 * gap num den (quotientToEven num den) = den → Even (quotientToEven num den)) := by
  have whole : (num : Int) = (num / den : Nat) * den + (num % den : Nat) := by
    exact_mod_cast (Nat.div_add_mod' num den).symm
  have below : num % den < den := Nat.mod_lt num positive
  have down : gap num den (num / den) = (num % den : Nat) := by
    rw [gap, abs_sub_comm, whole, add_sub_cancel_left, Nat.abs_cast]
  have up : gap num den (num / den + 1) = den - (num % den : Nat) := by
    rw [gap, whole, abs_of_nonneg] <;> push_cast <;> linarith [Int.ofNat_lt.mpr below]
  simp only [quotientToEven]
  split
  · next less => rw [down]; omega
  · split
    · next more => rw [up]; omega
    · split
      · next even => rw [down]; exact ⟨by omega, fun _ => Nat.even_iff.mpr even⟩
      · next odd => rw [up]; exact ⟨by omega, fun _ => Nat.even_iff.mpr (by omega)⟩

/-- Two different integers are a whole step apart. -/
lemma step_le_gap_add_gap (num den : Nat) {k l : Nat} (different : k ≠ l) :
    (den : Int) ≤ gap num den k + gap num den l := by
  have apart : (1 : Int) ≤ |(k : Int) - l| := Int.one_le_abs (by omega)
  calc (den : Int) = 1 * den := by ring
    _ ≤ |(k : Int) - l| * den := by gcongr
    _ = |(k * den : Int) - num - (l * den - num)| := by
      rw [show (k * den : Int) - num - (l * den - num) = (k - l) * den by ring, abs_mul, Nat.abs_cast]
    _ ≤ gap num den k + gap num den l := abs_sub _ _

/-- No integer is nearer than the rounded quotient. -/
lemma gap_quotientToEven_le (num : Nat) {den : Nat} (positive : 0 < den) (k : Nat) :
    gap num den (quotientToEven num den) ≤ gap num den k := by
  rcases eq_or_ne k (quotientToEven num den) with rfl | different
  · exact le_rfl
  · have half := (quotientToEven_half num positive).1
    have apart := step_le_gap_add_gap num den different
    omega

/-- A rounded quotient that is as near as another integer is even. -/
lemma even_quotientToEven (num : Nat) {den k : Nat} (positive : 0 < den)
    (different : k ≠ quotientToEven num den)
    (tie : gap num den k = gap num den (quotientToEven num den)) : Even (quotientToEven num den) := by
  obtain ⟨half, even⟩ := quotientToEven_half num positive
  have apart := step_le_gap_add_gap num den different
  exact even (by omega)

/-- Rounding stays between the integers that the quotient is between. -/
lemma quotientToEven_bounds (num den : Nat) :
    num / den ≤ quotientToEven num den ∧ quotientToEven num den ≤ num / den + 1 := by
  simp only [quotientToEven]
  split_ifs <;> omega

/-! ## The nearest number -/

lemma unitsPerOne_pos : 0 < unitsPerOne := by
  unfold unitsPerOne
  generalize 1074 = exponent
  exact Nat.two_pow_pos exponent

/-- The distance of a pattern, with all denominators cleared. -/
lemma distance_eq_gap (num : Nat) {den : Nat} (positive : 0 < den) (pattern : Nat) :
    distance (num / den) pattern = gap (num * unitsPerOne) den (units pattern) / (unitsPerOne * den) := by
  have ones : (0 : ℚ) < unitsPerOne := Nat.cast_pos.mpr unitsPerOne_pos
  have step : (0 : ℚ) < den := by exact_mod_cast positive
  have cleared : magnitude pattern - num / den =
      (units pattern * den - num * unitsPerOne) / (unitsPerOne * den) := by
    rw [magnitude, div_sub_div _ _ ones.ne' step.ne']
    ring
  rw [distance, cleared, abs_div, abs_of_pos (mul_pos ones step), gap]
  push_cast
  rfl

lemma distance_le_iff (num : Nat) {den : Nat} (positive : 0 < den) (pattern other : Nat) :
    distance (num / den) pattern ≤ distance (num / den) other ↔
      gap (num * unitsPerOne) den (units pattern) ≤ gap (num * unitsPerOne) den (units other) := by
  have ones : (0 : ℚ) < unitsPerOne := Nat.cast_pos.mpr unitsPerOne_pos
  have step : (0 : ℚ) < den := by exact_mod_cast positive
  rw [distance_eq_gap num positive, distance_eq_gap num positive,
    div_le_div_iff_of_pos_right (mul_pos ones step)]
  exact Int.cast_le

/-- The gap on the grid of a shift is the gap of the shifted denominator. -/
lemma gap_mul (num den shift k : Nat) : gap num den (k * 2 ^ shift) = gap num (den * 2 ^ shift) k := by
  simp only [gap]
  push_cast
  ring_nf

/-- Below the quotient, a smaller multiple of `den` leaves a larger gap. -/
lemma gap_lt_gap {num den k l : Nat} (positive : 0 < den) (less : k < l) (below : l * den ≤ num) :
    gap num den l < gap num den k := by
  have steps : (k * den : Int) < l * den := by
    exact_mod_cast Nat.mul_lt_mul_of_pos_right less positive
  have room : (l * den : Int) ≤ num := by exact_mod_cast below
  rw [gap, gap, abs_of_nonpos (by linarith), abs_of_nonpos (by linarith)]
  linarith

/-- How many low bits of the quotient are lost. -/
def lostBits (num den : Nat) : Nat := (num * unitsPerOne / den).log2 - 52

/-- The significand that is kept. -/
def kept (num den : Nat) : Nat :=
  quotientToEven (num * unitsPerOne) (den * 2 ^ lostBits num den)

lemma nearest_eq (num den : Nat) :
    nearest num den = min (kept num den + lostBits num den * 2 ^ 52) infinity := rfl

/-- The quotient has 53 bits in front of the lost ones, and all of them if any is lost. -/
lemma quotient_bounds (num den : Nat) :
    num * unitsPerOne / (den * 2 ^ lostBits num den) < 2 ^ 53 ∧
      (0 < lostBits num den → 2 ^ 52 ≤ num * unitsPerOne / (den * 2 ^ lostBits num den)) := by
  rw [← Nat.div_div_eq_div_mul]
  unfold lostBits
  generalize num * unitsPerOne / den = quotient
  constructor
  · refine Nat.div_lt_of_lt_mul (Nat.lt_log2_self.trans_le ?_)
    rw [mul_comm, ← pow_add]
    exact Nat.pow_le_pow_right two_pos (by omega)
  · intro lost
    have nonzero : quotient ≠ 0 := by rintro rfl; simp at lost
    rw [Nat.le_div_iff_mul_le (Nat.two_pow_pos _), ← pow_add]
    exact (Nat.pow_le_pow_right two_pos (by omega)).trans (Nat.log2_self_le nonzero)

lemma onGrid_kept (num den : Nat) : OnGrid (lostBits num den) (kept num den) := by
  obtain ⟨below, above⟩ := quotient_bounds num den
  obtain ⟨down, up⟩ := quotientToEven_bounds (num * unitsPerOne) (den * 2 ^ lostBits num den)
  exact ⟨up.trans below, fun lost => (above lost).trans down⟩

/-- The gap that the kept significand leaves. -/
lemma gap_units_kept (num den : Nat) :
    gap (num * unitsPerOne) den (units (kept num den + lostBits num den * 2 ^ 52)) =
      gap (num * unitsPerOne) (den * 2 ^ lostBits num den) (kept num den) := by
  rw [units_onGrid (onGrid_kept num den), gap_mul]

/-- A number that is not a multiple of the kept step is farther than the kept significand. -/
lemma multiple_or_farther (num : Nat) {den : Nat} (positive : 0 < den) (other : Nat) :
    (∃ k, units other = k * 2 ^ lostBits num den) ∨
      gap (num * unitsPerOne) (den * 2 ^ lostBits num den) (kept num den) <
        gap (num * unitsPerOne) den (units other) := by
  rcases dvd_units_or_lt (lostBits num den) other with ⟨k, multiple⟩ | below
  · exact .inl ⟨k, by rw [multiple, mul_comm]⟩
  · rcases Nat.eq_zero_or_pos (lostBits num den) with none | lost
    · exact .inl ⟨units other, by rw [none, pow_zero, mul_one]⟩
    · -- the smallest significand lies between the number and the quotient
      have step : 0 < den * 2 ^ lostBits num den := Nat.mul_pos positive (Nat.two_pow_pos _)
      have room := (Nat.le_div_iff_mul_le step).mp ((quotient_bounds num den).2 lost)
      refine .inr ((gap_quotientToEven_le _ step (2 ^ 52)).trans_lt ?_)
      rw [← gap_mul]
      exact gap_lt_gap positive below (by rwa [mul_assoc, mul_comm (2 ^ lostBits num den)])

/-- A quotient with fewer than `52 + bits` bits loses fewer than `bits`. -/
lemma lostBits_lt {num den bits : Nat} (positive : 0 < den) (some : 0 < bits)
    (below : num * unitsPerOne < 2 ^ 52 * 2 ^ bits * den) : lostBits num den < bits := by
  have small : num * unitsPerOne / den < 2 ^ (52 + bits) := by
    rw [pow_add]; exact (Nat.div_lt_iff_lt_mul positive).mpr below
  unfold lostBits
  generalize num * unitsPerOne / den = quotient at small
  rcases Nat.eq_zero_or_pos quotient with rfl | nonzero
  · simpa using some
  · have := (Nat.log2_lt nonzero.ne').mpr small
    omega

/-- A quotient below the infinity is rounded to the infinity at most. -/
lemma kept_le_infinity {num den : Nat} (positive : 0 < den)
    (below : num * unitsPerOne < units infinity * den) :
    kept num den + lostBits num den * 2 ^ 52 ≤ infinity := by
  have shape : infinity = 2 ^ 52 + 2046 * 2 ^ 52 := rfl
  rw [shape, units_onGrid ⟨by norm_num, fun _ => le_rfl⟩] at below
  have lost := lostBits_lt positive (by norm_num) below
  have upper := (onGrid_kept num den).1
  rw [shape]
  omega

/-- Where the significand and its shift give a pattern, it is the nearest one. -/
lemma isNearest_kept (num : Nat) {den : Nat} (positive : 0 < den)
    (inside : kept num den + lostBits num den * 2 ^ 52 ≤ infinity) :
    IsNearest (num / den) (kept num den + lostBits num den * 2 ^ 52) := by
  have step : 0 < den * 2 ^ lostBits num den := Nat.mul_pos positive (Nat.two_pow_pos _)
  refine ⟨inside, fun other _ => ?_, fun other _ different tie => ?_⟩
  · rw [distance_le_iff num positive, gap_units_kept]
    rcases multiple_or_farther num positive other with ⟨k, multiple⟩ | farther
    · rw [multiple, gap_mul]
      exact gap_quotientToEven_le _ step k
    · exact farther.le
  · have near := (distance_le_iff num positive _ _).mp tie.le
    have far := (distance_le_iff num positive _ _).mp tie.ge
    rw [gap_units_kept] at near far
    rcases multiple_or_farther num positive other with ⟨k, multiple⟩ | farther
    · rw [multiple, gap_mul] at near far
      have distinct : k ≠ kept num den := by
        rintro rfl
        rw [← units_onGrid (onGrid_kept num den)] at multiple
        exact different (units_strictMono.injective multiple)
      have even := even_quotientToEven _ step distinct (le_antisymm near far)
      exact even.add (Even.mul_left (by decide) _)
    · exact absurd near (not_le.mpr farther)

/-- Above the infinity, the infinity is the nearest one, and nothing ties with it. -/
lemma isNearest_infinity {num den : Nat} (positive : 0 < den)
    (above : units infinity * den ≤ num * unitsPerOne) : IsNearest (num / den) infinity := by
  have nearer : ∀ other ≤ infinity, other ≠ infinity →
      ¬distance (num / den) other ≤ distance (num / den) infinity := fun other bounded different => by
    rw [distance_le_iff num positive, not_le]
    exact gap_lt_gap positive (units_strictMono (lt_of_le_of_ne bounded different)) above
  refine ⟨le_rfl, fun other bounded => ?_, fun other bounded different tie => ?_⟩
  · rcases eq_or_ne other infinity with rfl | different
    · exact le_rfl
    · exact (not_le.mp (nearer other bounded different)).le
  · exact absurd tie.le (nearer other bounded different)

/-- **Reading a quotient gives the nearest number.** -/
theorem isNearest_nearest (num : Nat) {den : Nat} (positive : 0 < den) :
    IsNearest (num / den) (nearest num den) := by
  rw [nearest_eq]
  rcases le_or_gt (kept num den + lostBits num den * 2 ^ 52) infinity with inside | overflow
  · rw [min_eq_left inside]
    exact isNearest_kept num positive inside
  · rw [min_eq_right overflow.le]
    exact isNearest_infinity positive
      (not_lt.mp fun below => absurd (kept_le_infinity positive below) (not_le.mpr overflow))

/-! ## There is no other -/

lemma magnitude_strictMono : StrictMono magnitude := fun _ _ less =>
  div_lt_div_of_pos_right (Nat.cast_lt.mpr (units_strictMono less)) (Nat.cast_pos.mpr unitsPerOne_pos)

/-- Two nearest patterns are not in strict order: the one after the first would be nearer. -/
lemma IsNearest.not_lt {target : ℚ} {low high : Nat} (first : IsNearest target low)
    (second : IsNearest target high) : ¬low < high := by
  intro less
  have tie : distance target low = distance target high :=
    le_antisymm (first.closest high second.bounded) (second.closest low first.bounded)
  have evenLow := first.even_of_tie high second.bounded less.ne' tie.symm
  have evenHigh := second.even_of_tie low first.bounded less.ne tie
  have between : low + 1 < high := lt_of_le_of_ne less fun h =>
    (Nat.not_even_iff_odd.mpr evenLow.add_one) (h ▸ evenHigh)
  have belowNext := magnitude_strictMono (Nat.lt_succ_self low)
  have nextBelow := magnitude_strictMono between
  have nearer := first.closest (low + 1) (between.le.trans second.bounded)
  simp only [distance] at tie nearer
  rcases abs_cases (magnitude low - target) with ⟨h₁, _⟩ | ⟨h₁, _⟩ <;>
  rcases abs_cases (magnitude high - target) with ⟨h₂, _⟩ | ⟨h₂, _⟩ <;>
  rcases abs_cases (magnitude (low + 1) - target) with ⟨h₃, _⟩ | ⟨h₃, _⟩ <;>
  linarith

/-- **Only one pattern is nearest.** -/
theorem IsNearest.unique {target : ℚ} {p q : Nat} (first : IsNearest target p)
    (second : IsNearest target q) : p = q :=
  le_antisymm (Nat.le_of_not_lt (second.not_lt first)) (Nat.le_of_not_lt (first.not_lt second))

end Number

end LoxLang
