import LoxLang.Number.Binary

/-!
# The shortest decimal that reads back

A number is shown with as few digits as still name it.  The rule needs no analysis of the rounding
interval: a decimal *reads back* when the number nearest to it is the one it stands for, and that is
what the search tests.

* `Decimal` — `digits · 10 ^ exponent`, and the pattern it reads as.
* **`Decimal.shortest`** — the first grid of powers of ten, from coarse to fine, on which a neighbour
  of the number reads back; of two such neighbours the nearer, and `Tie` decides the rest.
-/

namespace LoxLang

/-- The magnitude `digits · 10 ^ exponent`. -/
structure Decimal where
  digits : Nat
  exponent : Int
  deriving DecidableEq, Repr

/-- Which of two equally near decimals is shown. -/
inductive Tie where
  | up
  | even
  deriving DecidableEq, Repr

namespace Decimal

/-- The pattern of the number nearest to a decimal. -/
def pattern (d : Decimal) : Nat :=
  match d.exponent with
  | .ofNat k => Number.nearest (d.digits * Nat.pow 10 k) 1
  | .negSucc k => Number.nearest d.digits (Nat.pow 10 (k + 1))

/-- Numerator and denominator of `pattern`'s magnitude in multiples of `10 ^ exponent`. -/
def ratio (pattern : Nat) : Int → Nat × Nat
  | .ofNat k => (Number.units pattern, Number.unitsPerOne * Nat.pow 10 k)
  | .negSucc k => (Number.units pattern * Nat.pow 10 (k + 1), Number.unitsPerOne)

/-- The multiple of `10 ^ exponent` that reads back as `pattern`, if one of the two next to it
does. -/
def onGrid? (tie : Tie) (pattern : Nat) (exponent : Int) : Option Decimal :=
  let (num, den) := ratio pattern exponent
  let below : Decimal := ⟨num / den, exponent⟩
  let above : Decimal := ⟨num / den + 1, exponent⟩
  let twice := 2 * (num % den)
  match decide (below.pattern = pattern), decide (above.pattern = pattern) with
  | true, true =>
    if twice < den then below
    else if den < twice then above
    else if tie = .even ∧ below.digits % 2 = 0 then below
    else above
  | true, false => below
  | false, true => above
  | false, false => none

/-- Every digit of a magnitude: a unit is `5 ^ 1074` on the grid of `10 ^ -1074`. -/
def exact (pattern : Nat) : Decimal := ⟨Number.units pattern * Nat.pow 5 1074, -1074⟩

/-- The first hit on `count` grids, each ten times as fine as the one before. -/
def search (tie : Tie) (pattern : Nat) : (count : Nat) → (exponent : Int) → Decimal
  | 0, _ => exact pattern
  | count + 1, exponent =>
    match onGrid? tie pattern exponent with
    | some d => d
    | none => search tie pattern count (exponent - 1)

/-- A power of ten above the magnitude, at most a thousandfold: `0.30103` is the logarithm of two. -/
def ceiling (pattern : Nat) : Int :=
  (((Number.units pattern).log2 : Int) - 1073) * 30103 / 100000 + 2

/-- The shortest decimal that reads back as `pattern`.  Seventeen digits always do, so twenty-two
grids from `ceiling` on are enough. -/
def shortest (tie : Tie) (pattern : Nat) : Decimal :=
  search tie pattern 22 (ceiling pattern)

end Decimal

end LoxLang
