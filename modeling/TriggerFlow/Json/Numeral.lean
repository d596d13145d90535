import TriggerFlow.Json.Value
import TriggerFlow.Number.Digits
/-!
# Number literals

`Numeral.ofChars?` takes a JSON number `[-] whole [. decimals] [e exponent]` apart, and
`Numeral.number?` gives its value.  A literal with `decimals = none` and `exponent = none` whose
digits fit 64 bits is a `JsonNumber.int`.  Every other literal is a `JsonNumber.double`, found with
one rounding per step: the leading digits that fit 64 bits (`Significand`) are rounded to a double,
which `scale` multiplies or divides by a power of ten.  `number?` is `none` where that leaves the
range of a double.
-/

namespace TriggerFlow

open Number

/-- The literal `[-] whole [. decimals] [e exponent]`, with its digits as characters. -/
structure Numeral where
  negative : Bool
  whole : List Char
  /-- Holds `none` where the literal has no point, and `some ds` with `ds ≠ []` otherwise. -/
  decimals : Option (List Char)
  /-- Holds `some (minus, ds)` for the exponent part `e ± ds`. -/
  exponent : Option (Bool × List Char)
deriving DecidableEq

namespace Numeral

/-! ### Grammar -/

/-- One of `0` to `9`, `+`, `-`, `.`, `e` and `E`: `Tree.tokens?` cuts the longest run of these. -/
def isNumeralChar (c : Char) : Bool :=
  isDigit c || c == '-' || c == '+' || c == '.' || c == 'e' || c == 'E'

/-- Reads `e ± ds` with an optional sign and `ds ≠ []`; the inner `none` stands for the empty text.
-/
def exponentOfChars? : List Char → Option (Option (Bool × List Char))
  | [] => some none
  | mark :: rest =>
    let (negative, ds) := match rest with
      | '-' :: r => (true, r)
      | '+' :: r => (false, r)
      | r => (false, r)
    if (mark = 'e' ∨ mark = 'E') ∧ ds ≠ [] ∧ ds.all isDigit then some (some (negative, ds))
    else none

/-- A text as a literal, if the JSON grammar accepts it: no `+` in front, no leading zero before
another digit, and a digit on either side of the point. -/
def ofChars? (cs : List Char) : Option Numeral :=
  let (negative, body) := match cs with
    | '-' :: rest => (true, rest)
    | _ => (false, cs)
  let whole := body.takeWhile isDigit
  let tail := body.dropWhile isDigit
  if whole = [] ∨ (whole.head? = some '0' ∧ 1 < whole.length) then none
  else
    match tail with
    | '.' :: rest =>
      let ds := rest.takeWhile isDigit
      if ds = [] then none
      else (exponentOfChars? (rest.dropWhile isDigit)).map fun e => ⟨negative, whole, some ds, e⟩
    | _ => (exponentOfChars? tail).map fun e => ⟨negative, whole, none, e⟩

/-! ### Value -/

/-- The value `number * 10 ^ exponent` of the digits read so far, where `number < 2 ^ 64`. -/
structure Significand where
  number : Nat
  exponent : Int
deriving DecidableEq

/-- Takes in the digits before the point: `number * 10 + digit` as long as that fits 64 bits, and
from the first digit that does not fit on, `exponent + 1` for each.  The `Bool` is whether all did
fit. -/
def takeWhole (s : Significand) : List Char → Significand × Bool
  | [] => (s, true)
  | c :: cs =>
    let next := s.number * 10 + (c.toNat - 48)
    if next < 0x10000000000000000 then takeWhole ⟨next, s.exponent⟩ cs
    else (⟨s.number, s.exponent + (cs.length + 1)⟩, false)

/-- Takes in the digits behind the point with `exponent - 1` for each, up to the first that does not
fit 64 bits. -/
def takeDecimals (s : Significand) : List Char → Significand
  | [] => s
  | c :: cs =>
    let next := s.number * 10 + (c.toNat - 48)
    if next < 0x10000000000000000 then takeDecimals ⟨next, s.exponent - 1⟩ cs else s

/-- The rank of the double nearest to `10 ^ n`. -/
def powerOfTen (n : Nat) : Nat := Double.nearest (Nat.pow 10 n) 1

/-- The rank of `rank * 10 ^ exponent` in steps of at most `10 ^ 308`, each of them a
`Double.product` or `Double.quotient` and so rounded; `none` as soon as one is infinite. -/
def scale (rank : Nat) (exponent : Int) : Option Nat :=
  if exponent.natAbs ≤ 308 then
    if 0 ≤ exponent then
      let r := Double.product rank (powerOfTen exponent.natAbs)
      if r < Double.infinityRank then some r else none
    else some (Double.quotient rank (powerOfTen exponent.natAbs))
  else if rank = 0 then some 0
  else if 0 ≤ exponent then none
  else scale (Double.quotient rank (powerOfTen 308)) (exponent + 308)
termination_by exponent.natAbs
decreasing_by omega

/-- The number `± rank`, or `none` for the rank of infinity. -/
def doubleOfRank? (negative : Bool) (rank : Nat) : Option JsonNumber :=
  if h : rank < Double.infinityRank then
    some (.double
      ⟨⟨negative, rank, Nat.lt_trans h (by decide)⟩, by simpa [Double.isFinite] using h⟩)
  else none

/-- The number `± ds`, and `0` where the literal has no exponent part. -/
def exponentValue (n : Numeral) : Int :=
  match n.exponent with
  | none => 0
  | some (negative, ds) =>
    let e : Int := (value 10 ds).getD 0
    if negative then -e else e

/-- The value of a literal: `.int` when it has neither point nor exponent and fits the 64 bits of
its sign, and `.double` otherwise; `none` where `scale` is. -/
def number? (n : Numeral) : Option JsonNumber :=
  let (whole, fits) := takeWhole ⟨0, 0⟩ n.whole
  if n.decimals.isNone ∧ n.exponent.isNone ∧ fits then
    if n.negative then
      if whole.number = 0 ∨ 0x8000000000000000 < whole.number then
        doubleOfRank? true (Double.nearest whole.number 1)
      else some (.int (-whole.number))
    else some (.int whole.number)
  else do
    let s := takeDecimals whole (n.decimals.getD [])
    let rank ← scale (Double.nearest s.number 1) (s.exponent + n.exponentValue)
    doubleOfRank? n.negative rank

end Numeral

end TriggerFlow
