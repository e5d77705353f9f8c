import Mathlib
import LoxLang.Number.Text
import LoxLang.Proofs.Token.Lexeme

/-!
# Written numbers read back

The text of a finite number is a run of digits, or two runs with a point between them, behind a minus
sign if there is one.  Reading such a text gives the number nearest to what it says, and that is the
number that was written: a whole number is written with all its digits, and of the decimals that the
search for the shortest one goes through, none is taken that does not read back.

* `Number.nearest_eq_self` — a quotient that is a number is nearest to itself.
* `Decimal.pattern_shortest` — the decimal that the search ends with reads back.
* `Number.Numeral` — digits that stand for a number of the given pattern.
* **`Number.text_numeral`** — the text of a finite number is its sign and a numeral for its pattern.
-/

namespace LoxLang

/-! ## Quotients that are numbers -/

namespace Number

variable {pattern num den : Nat}

/-- A number is nearest to its own magnitude. -/
lemma isNearest_self (bounded : pattern ≤ infinity) : IsNearest (magnitude pattern) pattern where
  bounded := bounded
  closest other _ := by simp [distance]
  even_of_tie other _ different tie := by
    have none : distance (magnitude pattern) pattern = 0 := by simp [distance]
    rw [none, distance, abs_eq_zero, sub_eq_zero] at tie
    exact absurd (magnitude_strictMono.injective tie) different

/-- **A quotient that is a number is nearest to itself.** -/
lemma nearest_eq_self (bounded : pattern ≤ infinity) (positive : 0 < den)
    (exactly : num * unitsPerOne = units pattern * den) : nearest num den = pattern := by
  have same : (num / den : ℚ) = magnitude pattern := by
    have ones : (0 : ℚ) < unitsPerOne := Nat.cast_pos.mpr unitsPerOne_pos
    have step : (0 : ℚ) < den := Nat.cast_pos.mpr positive
    rw [magnitude, div_eq_div_iff step.ne' ones.ne']
    exact_mod_cast exactly
  exact (same ▸ isNearest_nearest num positive).unique (isNearest_self bounded)

end Number

/-! ## The search for the shortest decimal -/

namespace Decimal

variable {tie : Tie} {pattern : Nat}

/-- All digits of a number, on a grid on which a unit is a power of five. -/
lemma pattern_fives (bounded : pattern ≤ Number.infinity) {places : Nat} (some_ : places ≠ 0)
    (unit : Number.unitsPerOne = Nat.pow 2 places) :
    Decimal.pattern ⟨Number.units pattern * Nat.pow 5 places, -places⟩ = pattern := by
  obtain ⟨places, rfl⟩ := Nat.exists_eq_succ_of_ne_zero some_
  refine Number.nearest_eq_self bounded (Nat.pow_pos (by decide)) ?_
  rw [unit, Nat.mul_assoc]
  exact congrArg _ (Nat.mul_pow 5 2 (places + 1)).symm

/-- All digits of a number read back. -/
lemma pattern_exact (bounded : pattern ≤ Number.infinity) : (exact pattern).pattern = pattern := by
  have unit : Number.unitsPerOne = Nat.pow 2 1074 := by unfold Number.unitsPerOne; rfl
  have read := pattern_fives bounded (by decide) unit
  rw [Nat.cast_ofNat] at read
  rw [exact, read]

/-- What is taken from a grid reads back. -/
lemma pattern_onGrid? {exponent : Int} {d : Decimal} (taken : onGrid? tie pattern exponent = some d) :
    d.pattern = pattern := by
  simp only [onGrid?] at taken
  split at taken
  · next below above =>
    split_ifs at taken
    all_goals cases taken
    · exact of_decide_eq_true below
    · exact of_decide_eq_true above
    · exact of_decide_eq_true below
    · exact of_decide_eq_true above
  · next below _ =>
    cases taken
    exact of_decide_eq_true below
  · next _ above =>
    cases taken
    exact of_decide_eq_true above
  · cases taken

/-- Whatever grid the search ends on, what it ends with reads back. -/
lemma pattern_search (bounded : pattern ≤ Number.infinity) : ∀ (count : Nat) (exponent : Int),
    (search tie pattern count exponent).pattern = pattern
  | 0, _ => pattern_exact bounded
  | count + 1, exponent => by
      rw [search]
      split
      · next taken => exact pattern_onGrid? taken
      · exact pattern_search bounded count (exponent - 1)

/-- **The shortest decimal reads back.** -/
theorem pattern_shortest (bounded : pattern ≤ Number.infinity) :
    (shortest tie pattern).pattern = pattern := pattern_search bounded _ _

end Decimal

/-! ## Digits -/

namespace Number

/-- Digits, or two runs of digits with a point between them, that read as the number of a pattern. -/
inductive Numeral (pattern : Nat) : List Char → Prop
  | whole {digits : List Char} (run : IsDigits digits)
      (reads : ofDigits digits [] = ofPattern false pattern) : Numeral pattern digits
  | fractional {digits fraction : List Char} (run : IsDigits digits) (behind : IsDigits fraction)
      (reads : ofDigits digits fraction = ofPattern false pattern) :
      Numeral pattern (digits ++ '.' :: fraction)

lemma isDigits_toDigits (n : Nat) : IsDigits (Nat.toDigits 10 n) :=
  ⟨Nat.toDigits_ne_nil, fun _ mem => Nat.isDigit_of_mem_toDigits (by decide) (by decide) mem⟩

lemma isDigit_of_mem_zeros {count : Nat} {c : Char} (mem : c ∈ List.replicate count '0') :
    c.isDigit = true := by
  rw [List.eq_of_mem_replicate mem]
  rfl

end Number

open Number

/-- A decimal without a fraction is its digits and as many zeros as the exponent says. -/
lemma numeral_zeros (digits k : Nat) : Numeral (Decimal.pattern ⟨digits, .ofNat k⟩)
    (Nat.toDigits 10 digits ++ List.replicate k '0') := by
  obtain ⟨some, all⟩ := isDigits_toDigits digits
  refine .whole ⟨by simp [some], fun c mem => ?_⟩ ?_
  · exact (List.mem_append.mp mem).elim (all c) isDigit_of_mem_zeros
  · have value : Nat.ofDigitChars 10 (Nat.toDigits 10 digits ++ List.replicate k '0' ++ []) 0 =
        digits * 10 ^ k := by
      rw [List.append_nil, Nat.ofDigitChars_append, Nat.ofDigitChars_ten_toDigits,
        Nat.ofDigitChars_replicate_zero, Nat.mul_comm]
    rw [ofDigits, value]
    rfl

/-- A decimal with a fraction is its digits with a point among them, and zeros in front if it takes
some to have a digit before the point. -/
lemma numeral_pointed (digits k : Nat) :
    Numeral (Decimal.pattern ⟨digits, .negSucc k⟩) (pointed digits (k + 1)) := by
  obtain ⟨some, all⟩ := isDigits_toDigits digits
  unfold pointed
  dsimp only
  generalize shape : List.replicate (k + 1 + 1 - (Nat.toDigits 10 digits).length) '0' ++
    Nat.toDigits 10 digits = padded
  have inside : ∀ c ∈ padded, c.isDigit = true := fun c mem => by
    rw [← shape] at mem
    exact (List.mem_append.mp mem).elim isDigit_of_mem_zeros (all c)
  have long : k + 2 ≤ padded.length := by
    rw [← shape, List.length_append, List.length_replicate]
    omega
  have value : Nat.ofDigitChars 10 padded 0 = digits := by
    rw [← shape, Nat.ofDigitChars_append, Nat.ofDigitChars_replicate_zero, Nat.mul_zero,
      Nat.ofDigitChars_ten_toDigits]
  have places : (padded.drop (padded.length - (k + 1))).length = k + 1 := by
    rw [List.length_drop]
    omega
  refine .fractional ⟨?_, fun c mem => inside c (List.mem_of_mem_take mem)⟩
    ⟨?_, fun c mem => inside c (List.mem_of_mem_drop mem)⟩ ?_
  · rw [ne_eq, List.take_eq_nil_iff]
    rintro (none | none)
    · omega
    · rw [none] at long
      simp at long
  · exact List.ne_nil_of_length_pos (by omega)
  · rw [ofDigits, List.take_append_drop, value, places]
    rfl

namespace Number

variable {pattern : Nat}

/-- A whole number is all its digits. -/
lemma numeral_wholePart (bounded : pattern ≤ infinity) (whole : isWhole pattern = true) :
    Numeral pattern (wholePart pattern).repr.toList := by
  rw [Nat.toList_repr]
  refine .whole (isDigits_toDigits _) ?_
  have exactly : wholePart pattern * unitsPerOne = units pattern * 1 := by
    rw [Nat.mul_one]
    exact Nat.div_mul_cancel (Nat.dvd_of_mod_eq_zero (beq_iff_eq.mp whole))
  rw [ofDigits, List.append_nil, Nat.ofDigitChars_ten_toDigits, List.length_nil, Nat.pow_eq, pow_zero,
    nearest_eq_self bounded Nat.one_pos exactly]

/-- **The text of a finite number is its sign and a numeral for its pattern.** -/
theorem text_numeral {x : Float} {negative : Bool} (found : parts x = .finite negative pattern)
    (bounded : pattern ≤ infinity) : ∃ numeral : String,
      text .printed x = minusIf negative ++ numeral ∧ Numeral pattern numeral.toList := by
  unfold text
  simp only [found]
  split
  · next whole =>
    refine ⟨(wholePart pattern).repr, ?_, numeral_wholePart bounded whole⟩
    simp [Style.printed]
  · refine ⟨(Decimal.shortest .up pattern).positional "", rfl, ?_⟩
    have reads : (Decimal.shortest .up pattern).pattern = pattern := Decimal.pattern_shortest bounded
    generalize Decimal.shortest .up pattern = d at reads
    subst reads
    obtain ⟨digits, k | k⟩ := d
    · simpa [Decimal.positional] using numeral_zeros digits k
    · simpa [Decimal.positional] using numeral_pointed digits k

end Number

end LoxLang
