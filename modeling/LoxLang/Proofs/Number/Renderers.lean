import Mathlib
import LoxLang.Proofs.Number.Pattern
import LoxLang.Proofs.Number.ReadBack

/-!
# The three ways of writing a number agree

A printed value, a token on a line and a constant in a tree each write numbers along branches of
their own: small whole numbers through a 64-bit integer, large ones with a fixed count of places,
everything else with the shortest digits.  Here the branches are spelled out, and `Number.text` is
what they come to.

* `Number.toRat?` — what a finite number is worth.
* `Number.toWord`, `Number.fixed` — the short way and the long way to the digits of a whole number;
  `Number.shortest` — the way to those of any other.
* `Number.isWhole_nearest` — a decimal without a fraction never reads as a number with one.
* `Number.printed`, `Number.inToken`, `Number.inTree` — the three places with their branches.
* **`Number.text_printed`**, **`Number.text_token`**, **`Number.text_tree`** — `Number.text` for all
  numbers, the infinities and minus zero included.
* **`Number.writtenAs_of_toRat?`**, **`Number.text_of_fraction`** — a whole number other than minus
  zero is written with its exact digits, any other number the same in all places.
-/

namespace LoxLang

namespace Number

/-- What a finite number is worth. -/
def toRat? (x : Float) : Option ℚ :=
  match parts x with
  | .finite negative pattern => some (if negative then -magnitude pattern else magnitude pattern)
  | _ => none

/-- The conversion to a 64-bit integer: towards zero, to the nearer end outside the range, and to
zero from what is not a number. -/
def toWord (x : Float) : Int64 :=
  match parts x with
  | .nan => 0
  | .infinite negative => if negative then Int64.minValue else Int64.maxValue
  | .finite negative pattern =>
    Int64.ofIntClamp (if negative then -(wholePart pattern : Int) else wholePart pattern)

/-- A number rounded to `places` digits behind the point; no point stands before none. -/
def fixed (places : Nat) (x : Float) : String :=
  match parts x with
  | .nan => "NaN"
  | .infinite negative => minusIf negative ++ "inf"
  | .finite negative pattern =>
    let digits := quotientToEven (units pattern * Nat.pow 10 places) unitsPerOne
    minusIf negative ++ if places = 0 then digits.repr else String.ofList (pointed digits places)

/-- The shortest digits that read back, without a point where none is needed. -/
def shortest (x : Float) : String :=
  match parts x with
  | .nan => "NaN"
  | .infinite negative => minusIf negative ++ "inf"
  | .finite negative pattern => minusIf negative ++ (Decimal.shortest .up pattern).positional ""

/-- Whether a magnitude is so small that its whole part surely fits a 64-bit integer. -/
def isShort (pattern : Nat) : Bool := decide (units pattern < Nat.pow 10 15 * unitsPerOne)

/-- A number as a program prints it. -/
def printed (x : Float) : String :=
  match parts x with
  | .nan => "NaN"
  | .infinite negative => if negative then "-Infinity" else "Infinity"
  | .finite negative pattern =>
    if isWhole pattern then
      if isShort pattern && !(pattern == 0 && negative) then toString (toWord x) else fixed 0 x
    else shortest x

/-- A number in a written token. -/
def inToken (x : Float) : String :=
  match parts x with
  | .finite _ pattern =>
    if isWhole pattern && isShort pattern then toString (toWord x) ++ ".0"
    else if isWhole pattern then fixed 1 x
    else shortest x
  | _ => shortest x

/-- A number in a written tree. -/
def inTree (x : Float) : String :=
  match parts x with
  | .finite _ pattern => if isWhole pattern then printed x ++ ".0" else printed x
  | _ => printed x

variable {x : Float} {negative : Bool} {pattern : Nat}

/-! ## Whole numbers are far apart from fractions

A number with a fraction is below `2 ^ 52`, and every natural up to there is a number itself.
-/

/-- On every grid, the naturals of at most 53 bits are numbers. -/
lemma exists_units_eq (shift : Nat) : ∀ m ≤ 2 ^ 53,
    ∃ pattern ≤ 2 ^ 53 + shift * 2 ^ 52, units pattern = m * 2 ^ shift := by
  induction shift with
  | zero =>
    intro m bounded
    have onGrid : OnGrid 0 m := ⟨bounded, by simp⟩
    exact ⟨m, by omega, by simpa using units_onGrid onGrid⟩
  | succ shift ih =>
    intro m bounded
    rcases Nat.lt_or_ge m (2 ^ 52) with small | normal
    · obtain ⟨pattern, inside, exactly⟩ := ih (2 * m) (by omega)
      exact ⟨pattern, inside.trans (by gcongr; omega), by rw [exactly]; ring⟩
    · exact ⟨m + (shift + 1) * 2 ^ 52, by omega, units_onGrid ⟨bounded, fun _ => normal⟩⟩

/-- The grid of the whole numbers is one of those below the infinity. -/
lemma exists_shift : ∃ shift ≤ 2045, unitsPerOne = Nat.pow 2 shift := by
  refine ⟨1074, by decide, ?_⟩
  unfold unitsPerOne
  rfl

/-- The naturals of at most 53 bits are numbers. -/
lemma exists_whole {m : Nat} (bounded : m ≤ 2 ^ 53) :
    ∃ pattern ≤ infinity, units pattern = m * unitsPerOne := by
  obtain ⟨shift, below, unit⟩ := exists_shift
  obtain ⟨pattern, inside, exactly⟩ := exists_units_eq shift m bounded
  refine ⟨pattern, inside.trans ?_, unit ▸ exactly⟩
  rw [infinity_eq]
  omega

lemma isWhole_iff : isWhole pattern = true ↔ unitsPerOne ∣ units pattern := by
  rw [isWhole, beq_iff_eq, Nat.dvd_iff_mod_eq_zero]

/-- The units of a whole number. -/
lemma units_of_isWhole (whole : isWhole pattern = true) :
    units pattern = wholePart pattern * unitsPerOne :=
  (Nat.div_mul_cancel (isWhole_iff.mp whole)).symm

/-- Numbers with a fraction are below the numbers that have no room for one. -/
lemma units_lt_of_fraction (fraction : isWhole pattern ≠ true) :
    units pattern < 2 ^ 52 * unitsPerOne := by
  obtain ⟨shift, -, unit⟩ := exists_shift
  rw [Ne, isWhole_iff, unit] at fraction
  rw [unit]
  exact (dvd_units_or_lt shift pattern).resolve_left fraction

/-- **A natural never reads as a number with a fraction.**  If it has at most 53 bits it is a number
itself, and otherwise `2 ^ 52` is nearer to it than any fraction. -/
lemma isWhole_nearest (n : Nat) : isWhole (nearest n 1) = true := by
  by_contra fraction
  rcases le_or_gt n (2 ^ 52) with small | large
  · obtain ⟨pattern, inside, exactly⟩ := exists_whole (small.trans (by norm_num))
    have found : nearest n 1 = pattern :=
      nearest_eq_self inside Nat.one_pos (by rw [exactly, Nat.mul_one])
    rw [found, isWhole_iff, exactly] at fraction
    exact fraction (Nat.dvd_mul_left _ _)
  · obtain ⟨pattern, inside, exactly⟩ := exists_whole (by norm_num : 2 ^ 52 ≤ 2 ^ 53)
    have nearer : distance ((n : ℚ) / (1 : Nat)) (nearest n 1) ≤ distance (n / (1 : Nat)) pattern :=
      (isNearest_nearest n Nat.one_pos).closest pattern inside
    rw [distance_le_iff n Nat.one_pos] at nearer
    refine absurd nearer (not_le.mpr (gap_lt_gap Nat.one_pos ?_ ?_))
    · exact exactly ▸ units_lt_of_fraction fraction
    · rw [exactly, Nat.mul_one]
      exact Nat.mul_le_mul_right _ large.le

/-- A decimal that reads as a number with a fraction has digits behind the point, so that what is put
behind a whole number plays no part. -/
lemma positional_of_fraction {d : Decimal} (fraction : isWhole d.pattern ≠ true) (behind : String) :
    d.positional behind = d.positional "" := by
  obtain ⟨digits, k | k⟩ := d
  · exact absurd (isWhole_nearest _) fraction
  · rfl

/-- The shortest digits of a number with a fraction are the same in all places. -/
lemma shortest_positional (bounded : pattern ≤ infinity) (fraction : isWhole pattern ≠ true)
    (behind : String) : (Decimal.shortest .up pattern).positional behind =
      (Decimal.shortest .up pattern).positional "" := by
  refine positional_of_fraction ?_ behind
  rwa [Decimal.pattern_shortest bounded]

/-! ## The digits of whole numbers -/

lemma wholePart_eq_zero (whole : isWhole pattern = true) : wholePart pattern = 0 ↔ pattern = 0 := by
  have zero : units 0 = 0 := rfl
  constructor
  · intro none
    have same : units pattern = units 0 := by rw [units_of_isWhole whole, none, Nat.zero_mul, zero]
    exact units_strictMono.injective same
  · rintro rfl
    rw [wholePart, zero, Nat.zero_div]

/-- One place behind the point is a zero behind all digits. -/
lemma pointed_ten_mul (n : Nat) : String.ofList (pointed (n * 10) 1) = n.repr ++ ".0" := by
  rcases Nat.eq_zero_or_pos n with rfl | positive
  · decide +kernel
  · have digits : Nat.toDigits 10 (n * 10) = Nat.toDigits 10 n ++ ['0'] := by
      rw [Nat.mul_comm, ← Nat.add_zero (10 * n),
        ← Nat.toDigits_append_toDigits (by norm_num) positive (by norm_num)]
      rfl
    have some : 0 < (Nat.toDigits 10 n).length := List.length_pos_of_ne_nil Nat.toDigits_ne_nil
    have none : 1 - (Nat.toDigits 10 n).length = 0 := by omega
    have split : pointed (n * 10) 1 = Nat.toDigits 10 n ++ ['.', '0'] := by
      simp [pointed, digits, none]
    rw [split, String.ofList_append, Nat.repr_eq_ofList_toDigits]

/-- **With a fixed count of places a whole number is all its digits.** -/
lemma quotientToEven_of_isWhole (whole : isWhole pattern = true) (places : Nat) :
    quotientToEven (units pattern * Nat.pow 10 places) unitsPerOne =
      wholePart pattern * 10 ^ places := by
  have multiple : units pattern * Nat.pow 10 places =
      wholePart pattern * 10 ^ places * unitsPerOne := by
    rw [units_of_isWhole whole, Nat.pow_eq]
    ring
  rw [multiple]
  have positive := unitsPerOne_pos
  generalize unitsPerOne = one at positive
  simp only [quotientToEven, Nat.mul_div_cancel _ positive, Nat.mul_mod_left, Nat.mul_zero, positive,
    if_true]

lemma fixed_zero (found : parts x = .finite negative pattern) (whole : isWhole pattern = true) :
    fixed 0 x = minusIf negative ++ (wholePart pattern).repr := by
  simp only [fixed, found, quotientToEven_of_isWhole whole, pow_zero, Nat.mul_one, if_true]

lemma fixed_one (found : parts x = .finite negative pattern) (whole : isWhole pattern = true) :
    fixed 1 x = minusIf negative ++ (wholePart pattern).repr ++ ".0" := by
  simp only [fixed, found, quotientToEven_of_isWhole whole, pow_one, one_ne_zero, if_false,
    pointed_ten_mul, String.append_assoc]

lemma isShort_iff : isShort pattern = true ↔ units pattern < 10 ^ 15 * unitsPerOne := by
  rw [isShort, decide_eq_true_iff, Nat.pow_eq]

/-- The text of an integer given by its sign and its size. -/
lemma toString_signed (negative : Bool) (size : Nat) :
    toString (if negative then -(size : Int) else size) =
      minusIf (negative && size != 0) ++ size.repr := by
  cases negative with
  | false => exact (String.empty_append).symm
  | true => cases size with
    | zero => rfl
    | succ size => rfl

/-- **What is short enough goes through a 64-bit integer unchanged.** -/
lemma toString_toWord (found : parts x = .finite negative pattern) (short : isShort pattern = true) :
    toString (toWord x) =
      minusIf (negative && wholePart pattern != 0) ++ (wholePart pattern).repr := by
  have size : wholePart pattern < 10 ^ 15 :=
    (Nat.div_lt_iff_lt_mul unitsPerOne_pos).mpr (isShort_iff.mp short)
  have low : Int64.minValue.toInt = -2 ^ 63 := rfl
  have high : Int64.maxValue.toInt = 2 ^ 63 - 1 := rfl
  rw [← toString_signed]
  change toString (toWord x).toInt = _
  simp only [toWord, found]
  refine congrArg _ (Int64.toInt_ofIntClamp ?_ ?_)
  · rw [low]
    split <;> omega
  · rw [high]
    split <;> omega

/-! ## The branches come to one text -/

/-- **What a program prints.** -/
theorem text_printed (x : Float) : text .printed x = printed x := by
  unfold text printed
  cases found : parts x with
  | nan => rfl
  | infinite negative => cases negative <;> rfl
  | finite negative pattern =>
    by_cases whole : isWhole pattern = true
    · simp only [whole, if_true, Style.printed, Bool.true_or, Bool.and_true, String.append_empty]
      split
      · next short =>
        simp only [Bool.and_eq_true, Bool.not_eq_true', Bool.and_eq_false_iff] at short
        obtain ⟨short, unsigned⟩ := short
        rw [toString_toWord found short]
        rcases unsigned with some | positive
        · have some : (wholePart pattern != 0) = true := by
            rw [bne_iff_ne, Ne, wholePart_eq_zero whole]
            exact beq_eq_false_iff_ne.mp some
          rw [some, Bool.and_true]
        · rw [positive, Bool.false_and]
      · exact (fixed_zero found whole).symm
    · simp only [whole, Bool.false_eq_true, if_false, shortest, found]
      rfl

/-- **What a token shows.** -/
theorem text_token (x : Float) : text .token x = inToken x := by
  unfold text inToken
  cases found : parts x with
  | nan => simp only [shortest, found]
  | infinite negative => simp only [shortest, found, Style.token]
  | finite negative pattern =>
    obtain ⟨bounded, -⟩ := eq_ofPattern found
    by_cases whole : isWhole pattern = true
    · simp only [whole, if_true, Style.token, Bool.false_or, Bool.true_and]
      split
      · next short =>
        have same : (wholePart pattern != 0) = (pattern != 0) := by
          rw [Bool.eq_iff_iff, bne_iff_ne, bne_iff_ne, Ne, wholePart_eq_zero whole]
        rw [toString_toWord found short, same]
      · next long =>
        have some : (pattern != 0) = true := by
          rw [bne_iff_ne]
          rintro rfl
          exact long (by decide +kernel)
        rw [fixed_one found whole, some, Bool.and_true]
    · simp only [whole, Bool.false_eq_true, if_false, Bool.false_and, shortest, found,
        shortest_positional bounded.le whole]

/-- **What a tree shows.** -/
theorem text_tree (x : Float) : text .tree x = inTree x := by
  unfold inTree
  rw [← text_printed]
  unfold text
  cases found : parts x with
  | nan => rfl
  | infinite negative => rfl
  | finite negative pattern =>
    obtain ⟨bounded, -⟩ := eq_ofPattern found
    by_cases whole : isWhole pattern = true
    · simp only [whole, if_true, Style.tree, Style.printed, String.append_empty]
    · simp only [whole, Bool.false_eq_true, if_false, shortest_positional bounded.le whole]

/-! ## Whole numbers are written exactly -/

lemma toRat?_of_isWhole (found : parts x = .finite negative pattern) (whole : isWhole pattern = true) :
    toRat? x =
      some ((if negative then -(wholePart pattern : Int) else wholePart pattern : Int) : ℚ) := by
  have worth : magnitude pattern = wholePart pattern := by
    rw [magnitude, units_of_isWhole whole, Nat.cast_mul,
      mul_div_cancel_right₀ _ (Nat.cast_ne_zero.mpr unitsPerOne_pos.ne')]
  simp only [toRat?, found, worth]
  cases negative <;> simp

/-- Only whole numbers are worth an integer. -/
lemma isWhole_of_toRat? (found : parts x = .finite negative pattern) {n : Int}
    (worth : toRat? x = some (n : ℚ)) : isWhole pattern = true := by
  have size : magnitude pattern = (n.natAbs : ℚ) := by
    simp only [toRat?, found, Option.some.injEq] at worth
    have positive : (0 : ℚ) ≤ magnitude pattern := by unfold magnitude; positivity
    rw [Nat.cast_natAbs, Int.cast_abs, ← worth]
    cases negative <;> simp [abs_of_nonneg positive]
  rw [magnitude, div_eq_iff (Nat.cast_ne_zero.mpr unitsPerOne_pos.ne')] at size
  exact isWhole_iff.mpr ⟨n.natAbs, by rw [Nat.mul_comm]; exact_mod_cast size⟩

/-- The three texts of a whole number other than minus zero. -/
structure WrittenAs (x : Float) (digits : String) : Prop where
  printed : text .printed x = digits
  token : text .token x = digits ++ ".0"
  tree : text .tree x = digits ++ ".0"

/-- **A whole number other than minus zero is written with its exact digits**, and the way through a
64-bit integer, where it is taken, and the way through a fixed count of places come to the same. -/
theorem writtenAs_of_toRat? {n : Int} (worth : toRat? x = some (n : ℚ))
    (signed : parts x ≠ .finite true 0) :
    WrittenAs x (toString n) ∧ (|n| < 10 ^ 15 → toString (toWord x) = toString n) ∧
      fixed 0 x = toString n ∧ fixed 1 x = toString n ++ ".0" := by
  cases found : parts x with
  | nan => simp only [toRat?, found, reduceCtorEq] at worth
  | infinite negative => simp only [toRat?, found, reduceCtorEq] at worth
  | finite negative pattern =>
    have whole := isWhole_of_toRat? found worth
    have exactly : n = if negative then -(wholePart pattern : Int) else wholePart pattern := by
      rw [toRat?_of_isWhole found whole, Option.some.injEq] at worth
      exact_mod_cast worth.symm
    have zero : wholePart pattern = 0 ↔ pattern = 0 := wholePart_eq_zero whole
    have sign : (negative && wholePart pattern != 0) = negative := by
      cases negative with
      | false => rfl
      | true =>
        rw [Bool.true_and, bne_iff_ne, Ne, zero]
        rintro rfl
        exact signed found
    have digits : toString n = minusIf negative ++ (wholePart pattern).repr := by
      rw [exactly, toString_signed, sign]
    refine ⟨⟨?_, ?_, ?_⟩, fun small => ?_, ?_, ?_⟩
    · simp only [text, found, whole, if_true, Style.printed, Bool.true_or, Bool.and_true,
        String.append_empty, digits]
    · have same : (pattern != 0) = (wholePart pattern != 0) := by
        rw [Bool.eq_iff_iff, bne_iff_ne, bne_iff_ne, Ne, Ne, zero]
      simp only [text, found, whole, if_true, Style.token, Bool.false_or, same, sign, digits]
    · simp only [text, found, whole, if_true, Style.tree, Bool.true_or, Bool.and_true, digits]
    · have short : isShort pattern = true := by
        rw [isShort_iff, units_of_isWhole whole]
        refine Nat.mul_lt_mul_of_pos_right ?_ unitsPerOne_pos
        have size : |n| = wholePart pattern := by rw [exactly]; cases negative <;> simp
        rw [size] at small
        exact_mod_cast small
      rw [toString_toWord found short, sign, digits]
    · rw [fixed_zero found whole, digits]
    · rw [fixed_one found whole, digits]

/-- **A number with a fraction is written the same in all places.** -/
theorem text_of_fraction (finite : x.isFinite) (fraction : ∀ n : Int, toRat? x ≠ some (n : ℚ)) :
    text .token x = text .printed x ∧ text .tree x = text .printed x := by
  obtain ⟨pattern, found⟩ := exists_parts finite
  obtain ⟨bounded, -⟩ := eq_ofPattern found
  have part : isWhole pattern ≠ true := fun whole => fraction _ (toRat?_of_isWhole found whole)
  have behind := shortest_positional bounded.le part
  constructor <;> simp only [text, found, part, Bool.false_eq_true, if_false, behind]

/-- Only one number has the bits of minus zero. -/
lemma toBits_of_minus_zero (found : parts x = .finite true 0) : x.toBits = 0x8000000000000000 := by
  obtain ⟨bounded, rfl⟩ := eq_ofPattern found
  rw [toBits_ofPattern true bounded]
  rfl

end Number

end LoxLang
