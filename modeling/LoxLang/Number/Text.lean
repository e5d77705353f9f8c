import LoxLang.Number.Decimal

/-!
# How numbers are written

Three places show numbers to people and differ in three details only, so one `Number.text` serves
them all and `Number.Style` holds the details.  Machine-readable output has a rule of its own,
`Number.json`, which switches to an exponent for very large and very small numbers.

* `Number.Style.printed`, `Number.Style.tree`, `Number.Style.token` — the three places.
* **`Number.text`** — all digits of a whole number, the shortest digits of any other.
* **`Number.json`** — the shortest digits, always with a fraction or an exponent.
-/

namespace LoxLang

/-- A minus sign, or nothing. -/
def minusIf (negative : Bool) : String := if negative then "-" else ""

/-- The digits of a decimal without an exponent: a point stands before the last `places` of them,
with zeros put in front when there are too few. -/
def pointed (digits places : Nat) : List Char :=
  let shown := Nat.toDigits 10 digits
  let padded := List.replicate (places + 1 - shown.length) '0' ++ shown
  padded.take (padded.length - places) ++ '.' :: padded.drop (padded.length - places)

/-- A decimal without an exponent; `fraction` follows one that has none. -/
def Decimal.positional (d : Decimal) (fraction : String) : String :=
  match d.exponent with
  | .ofNat k => String.ofList (Nat.toDigits 10 d.digits ++ List.replicate k '0') ++ fraction
  | .negSucc k => String.ofList (pointed d.digits (k + 1))

/-- A decimal as its first digit, the others behind a point, and a signed exponent. -/
def Decimal.scientific (d : Decimal) (leading : Int) : String :=
  let significand := match Nat.toDigits 10 d.digits with
    | [] => ""
    | [first] => first.toString
    | first :: others => String.ofList (first :: '.' :: others)
  significand ++ "e" ++ (if leading < 0 then "-" else "+") ++ leading.natAbs.repr

/-- The power of ten of a decimal's first digit. -/
def Decimal.leading (d : Decimal) : Int :=
  d.exponent + ((Nat.toDigits 10 d.digits).length - 1 : Nat)

namespace Number

/-- Where the places that show numbers differ. -/
structure Style where
  /-- The name of the infinity. -/
  infinity : String
  /-- Whether minus zero keeps its sign. -/
  signedZero : Bool
  /-- What follows the digits of a whole number. -/
  fraction : String

/-- Numbers as a program prints them. -/
def Style.printed : Style := ⟨"Infinity", true, ""⟩

/-- Numbers in a written tree, where a whole one keeps a visible fraction. -/
def Style.tree : Style := ⟨"Infinity", true, ".0"⟩

/-- Numbers in a written token. -/
def Style.token : Style := ⟨"inf", false, ".0"⟩

/-- Whether a finite pattern stands for a whole number. -/
def isWhole (pattern : Nat) : Bool := units pattern % unitsPerOne == 0

/-- The magnitude of a finite pattern without its fraction. -/
def wholePart (pattern : Nat) : Nat := units pattern / unitsPerOne

/-- The text of a number, never with an exponent. -/
def text (style : Style) (x : Float) : String :=
  match parts x with
  | .nan => "NaN"
  | .infinite negative => minusIf negative ++ style.infinity
  | .finite negative pattern =>
    if isWhole pattern then
      minusIf (negative && (style.signedZero || pattern != 0)) ++ (wholePart pattern).repr
        ++ style.fraction
    else
      minusIf negative ++ (Decimal.shortest .up pattern).positional style.fraction

/-- The text of a number in JSON, which has none for the infinities and for what is not a number.
The first digit's power of ten is positional from `-5` to `15`. -/
def json (x : Float) : String :=
  match parts x with
  | .nan => "null"
  | .infinite _ => "null"
  | .finite negative pattern =>
    let d := if pattern = 0 then ⟨0, 0⟩ else Decimal.shortest .even pattern
    minusIf negative ++
      if -5 ≤ d.leading ∧ d.leading < 16 then d.positional ".0" else d.scientific d.leading

end Number

end LoxLang
