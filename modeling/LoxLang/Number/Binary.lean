/-!
# Numbers as bit patterns and as counts of the smallest one

A number of the language is a 64-bit binary floating-point number.  Printing and reading are exact
rules about its value, so this module gives that value without rounding: every finite number is a
whole count of the smallest positive one, `2 ^ -1074`.

* `Number.parts` — what a number is: not a number, an infinity, or a sign with a magnitude.
* `Number.units` — the magnitude of a finite number, counted in `2 ^ -1074`.
* **`Number.nearest`** — the magnitude nearest to a quotient of two naturals.

Magnitudes are numbered by their *pattern*, the bits below the sign.  Patterns are in the order of
the values they stand for, so the largest one below `infinity` is the largest finite number and the
pattern after it is the infinity itself; a carry out of the significand needs no case of its own.
-/

namespace LoxLang.Number

/-- How many of the smallest positive number make one. -/
def unitsPerOne : Nat := Nat.pow 2 1074

/-- The pattern of the infinity: all exponent bits set, no fraction bit. -/
def infinity : Nat := 2047 * Nat.pow 2 52

/-- What a number is.  The pattern of a finite number is below `infinity`. -/
inductive Parts where
  | nan
  | infinite (negative : Bool)
  | finite (negative : Bool) (pattern : Nat)
  deriving DecidableEq, Repr

/-- Takes a number apart. -/
def parts (x : Float) : Parts :=
  let word := x.toBits.toNat
  let negative := decide (Nat.pow 2 63 ≤ word)
  let pattern := word % Nat.pow 2 63
  if pattern < infinity then .finite negative pattern
  else if pattern = infinity then .infinite negative
  else .nan

/-- The number with a given sign and pattern. -/
def ofPattern (negative : Bool) (pattern : Nat) : Float :=
  Float.ofBits (UInt64.ofNat (if negative then Nat.pow 2 63 + pattern else pattern))

/-- The magnitude of a finite pattern in units.  Without exponent bits the fraction counts units;
otherwise a leading one joins the fraction, and each further exponent doubles the step. -/
def units (pattern : Nat) : Nat :=
  let exponent := pattern / Nat.pow 2 52
  let fraction := pattern % Nat.pow 2 52
  if exponent = 0 then fraction else (Nat.pow 2 52 + fraction) * Nat.pow 2 (exponent - 1)

/-! ## Rounding

The number nearest to `num / den` keeps 53 significant bits of the quotient in units.  `shift` is
how many low bits are lost: none while the quotient has at most 53.  Adding `2 ^ 52` for each lost
bit turns the kept significand into a pattern, with and without a carry.
-/

/-- The integer nearest to `num / den`; of two equally near the even one. -/
def quotientToEven (num den : Nat) : Nat :=
  let quotient := num / den
  let twice := 2 * (num % den)
  if twice < den then quotient
  else if den < twice then quotient + 1
  else if quotient % 2 = 0 then quotient
  else quotient + 1

/-- The pattern of the number nearest to `num / den`; of two equally near the even one, and the
infinity for all that is too large. -/
def nearest (num den : Nat) : Nat :=
  let scaled := num * unitsPerOne
  let shift := (scaled / den).log2 - 52
  min (quotientToEven scaled (den * Nat.pow 2 shift) + shift * Nat.pow 2 52) infinity

/-- The number written `whole.fraction` in decimal digits. -/
def ofDigits (whole fraction : List Char) : Float :=
  ofPattern false (nearest (Nat.ofDigitChars 10 (whole ++ fraction) 0) (Nat.pow 10 fraction.length))

end LoxLang.Number
