import TriggerFlow.Number.Digits
import TriggerFlow.Number.Double
/-!
# Shortest decimals

`Double.shortest rank` is the decimal with the fewest digits that `Decimal.rank` reads back as
`rank`.  For one digit, two digits and so on up to seventeen, `neighbour?` looks at the two decimals
of that many digits around the number: if any decimal of the grid reads back, one of these two does.
Of two that do the nearer is taken, and at equal distance the even one.
-/

namespace TriggerFlow.Double

open Number

/-- The decimal `significand * 10 ^ exponent`. -/
structure Decimal where
  significand : Nat
  exponent : Int
deriving DecidableEq

/-- The rank of the double nearest to a decimal. -/
def Decimal.rank (d : Decimal) : Nat :=
  if 0 ≤ d.exponent then nearest (d.significand * Nat.pow 10 d.exponent.toNat) 1
  else nearest d.significand (Nat.pow 10 (-d.exponent).toNat)

/-- Moves the zeros at the end of the significand into the exponent: `120 * 10 ^ e` becomes `12 * 10
^ (e + 1)`. -/
def Decimal.normalize (d : Decimal) : Decimal :=
  if _h : d.significand ≠ 0 ∧ d.significand % 10 = 0 then
    Decimal.normalize ⟨d.significand / 10, d.exponent + 1⟩
  else d
termination_by d.significand
decreasing_by exact Nat.div_lt_self (by omega) (by decide)

/-- The exponent of the leading digit: the `e` with `10 ^ e ≤ num / den < 10 ^ (e + 1)`. -/
def decimalExponent (num den : Nat) : Int :=
  if den ≤ num then ((digits 10 (num / den)).length : Int) - 1
  else -((digits 10 ((den - 1) / num)).length : Int)

/-- The better of the two neighbours of `num / den` among the multiples of `10 ^ unit`, if one of
them has the `Decimal.rank` asked for. -/
def neighbour? (rank num den : Nat) (unit : Int) : Option Decimal :=
  let n := if 0 ≤ unit then num else num * Nat.pow 10 (-unit).toNat
  let d := if 0 ≤ unit then den * Nat.pow 10 unit.toNat else den
  let low : Decimal := ⟨n / d, unit⟩
  let high : Decimal := ⟨n / d + 1, unit⟩
  let highFirst := d < 2 * (n % d) ∨ (2 * (n % d) = d ∧ n / d % 2 = 1)
  let (first, second) := if highFirst then (high, low) else (low, high)
  if first.rank = rank then some first
  else if second.rank = rank then some second
  else none

/-- The first answer of `neighbour?` among the grids of one to seventeen digits, normalized; `0` has
the decimal `0 * 10 ^ 0`. -/
def shortest (rank : Nat) : Decimal :=
  let (num, den) := fraction rank
  if num = 0 then ⟨0, 0⟩
  else
    let lead := decimalExponent num den
    let found := (List.range 17).findSome? fun (n : Nat) => neighbour? rank num den (lead - n)
    (found.getD ⟨0, 0⟩).normalize

end TriggerFlow.Double
