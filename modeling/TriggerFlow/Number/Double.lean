/-!
# Double-precision numbers

A `Double` is a binary floating-point number with 64 bits, held as a sign and a rank: the 63 bits
below the sign, read as one number.  Ranks grow with the magnitude, so that two doubles compare as
their signed ranks do, and the step to the next double is the step to the next rank.  `nearest` is
the rounding that every other operation here goes through: the rank of the double closest to a
quotient of two natural numbers, a half going to the even neighbour.

Comparison obeys the laws that the rest of the library relies on: `compare?_swap`,
`compare?_eq_some_eq_iff` and `compare?_isSome_iff`.
-/

namespace TriggerFlow

/-- A number of the format binary64: the sign bit, and `rank`, the exponent and fraction bits read
as one number below `2 ^ 63`. -/
structure Double where
  negative : Bool
  rank : Nat
  rank_lt : rank < 0x8000000000000000
deriving DecidableEq

namespace Double

/-- The `2 ^ 52` doubles from one power of two to the next. -/
def fractionSize : Nat := 0x10000000000000

/-- The rank of infinity: finite magnitudes have smaller ranks, and the not-a-number values greater
ones. -/
def infinityRank : Nat := 0x7ff0000000000000

def isFinite (d : Double) : Bool := d.rank < infinityRank

def isNaN (d : Double) : Bool := infinityRank < d.rank

/-- The integer `± rank`; both zeros have signed rank `0`. -/
def signedRank (d : Double) : Int :=
  if d.negative then -(d.rank : Int) else d.rank

/-- The 64 bits as one number, `sign * 2 ^ 63 + rank`. -/
def bits (d : Double) : Nat :=
  (if d.negative then 0x8000000000000000 else 0) + d.rank

def zero : Double := ⟨false, 0, by decide⟩

instance : Inhabited Double := ⟨zero⟩

/-! ### Comparison -/

/-- Numeric equality: equal signed ranks, so that both zeros are equal, and false as soon as one
side is not a number. -/
def equal (a b : Double) : Bool :=
  !a.isNaN && !b.isNaN && a.signedRank == b.signedRank

/-- Numeric order by `signedRank`, and `none` as soon as one side is not a number. -/
def compare? (a b : Double) : Option Ordering :=
  if a.isNaN || b.isNaN then none else some (compare a.signedRank b.signedRank)

theorem compare?_isSome_iff (a b : Double) :
    (compare? a b).isSome = true ↔ a.isNaN = false ∧ b.isNaN = false := by
  cases ha : a.isNaN <;> cases hb : b.isNaN <;> simp [compare?, ha, hb]

theorem compare?_swap (a b : Double) : compare? b a = (compare? a b).map Ordering.swap := by
  simp only [compare?, Bool.or_comm b.isNaN]
  split
  · rfl
  · simp [Int.compare_swap]

theorem compare?_eq_some_eq_iff (a b : Double) :
    compare? a b = some .eq ↔ equal a b = true := by
  simp only [compare?, equal]
  cases a.isNaN <;> cases b.isNaN <;> simp

theorem equal_comm (a b : Double) : equal a b = equal b a := by
  simp only [equal, Bool.and_comm (!a.isNaN), Bool.beq_comm (a := a.signedRank)]

theorem equal_self (a : Double) : equal a a = !a.isNaN := by
  simp [equal]

/-! ### Magnitudes as fractions -/

/-- The finite magnitude of a rank, as numerator and denominator: `mantissa / 2 ^ 1074` for the
subnormal ones, and else `(2 ^ 52 + mantissa) * 2 ^ (exponent - 1075)`. -/
def fraction (rank : Nat) : Nat × Nat :=
  let exponent := rank / fractionSize
  let mantissa := rank % fractionSize
  if exponent = 0 then (mantissa, Nat.pow 2 1074)
  else if exponent < 1075 then (fractionSize + mantissa, Nat.pow 2 (1075 - exponent))
  else ((fractionSize + mantissa) * Nat.pow 2 (exponent - 1075), 1)

/-- The integer nearest to `num / den`; of two at the same distance, the even one. -/
def roundQuotient (num den : Nat) : Nat :=
  let q := num / den
  let r := num % den
  if den < 2 * r ∨ (2 * r = den ∧ q % 2 = 1) then q + 1 else q

/-- The `roundQuotient` of `num / (den * 2 ^ shift)`, where the sign of `shift` decides which side
takes the power. -/
def roundShifted (num den : Nat) (shift : Int) : Nat :=
  if 0 ≤ shift then roundQuotient num (den * Nat.pow 2 shift.toNat)
  else roundQuotient (num * Nat.pow 2 (-shift).toNat) den

/-- The `k` with `2 ^ k ≤ num / den < 2 ^ (k + 1)`, for positive `num` and `den`: the difference of
the logarithms is `k` or `k + 1`. -/
def binaryExponent (num den : Nat) : Int :=
  let guess : Int := (num.log2 : Int) - den.log2
  let below :=
    if 0 ≤ guess then num < den * Nat.pow 2 guess.toNat else num * Nat.pow 2 (-guess).toNat < den
  if below then guess - 1 else guess

/-- The rank of the double nearest to `num / den`.  The grid around the quotient has step `2 ^
shift`, where `shift = max (k - 52) (-1074)` for the `binaryExponent` `k`, and counting grid points
is counting ranks; what is too large has the rank of infinity. -/
def nearest (num den : Nat) : Nat :=
  if num = 0 ∨ den = 0 then 0
  else
    let shift := max (binaryExponent num den - 52) (-1074)
    min ((shift + 1074).toNat * fractionSize + roundShifted num den shift) infinityRank

theorem nearest_le (num den : Nat) : nearest num den ≤ infinityRank := by
  unfold nearest
  split
  · exact Nat.zero_le _
  · exact Nat.min_le_right _ _

theorem nearest_lt (num den : Nat) : nearest num den < 0x8000000000000000 :=
  Nat.lt_of_le_of_lt (nearest_le num den) (by decide)

/-- The double nearest to `± num / den`. -/
def ofFraction (negative : Bool) (num den : Nat) : Double :=
  ⟨negative, nearest num den, nearest_lt num den⟩

def ofInt (i : Int) : Double :=
  ofFraction (i < 0) i.natAbs 1

/-- The rank of the rounded product of two finite magnitudes: `nearest` of the product of their
fractions. -/
def product (a b : Nat) : Nat :=
  nearest ((fraction a).1 * (fraction b).1) ((fraction a).2 * (fraction b).2)

/-- The rank of the rounded quotient of two finite magnitudes. -/
def quotient (a b : Nat) : Nat :=
  nearest ((fraction a).1 * (fraction b).2) ((fraction a).2 * (fraction b).1)

/-- The double nearest to `± significand * 10 ^ exponent`.  Exponents far outside the range of the
format are answered at once: above `10 ^ 400` all is infinite, and as `10 ^ e ≤ 2 ^ (3 * e)` for a
negative `e`, what lies below `2 ^ (-1099)` is nearest to zero. -/
def ofDecimal (negative : Bool) (significand : Nat) (exponent : Int) : Double :=
  if significand = 0 then ⟨negative, 0, by decide⟩
  else if 400 < exponent then ⟨negative, infinityRank, by decide⟩
  else if significand.log2 + 3 * exponent < -1100 then ⟨negative, 0, by decide⟩
  else if 0 ≤ exponent then ofFraction negative (significand * Nat.pow 10 exponent.toNat) 1
  else ofFraction negative significand (Nat.pow 10 (-exponent).toNat)

def infinity (negative : Bool) : Double := ⟨negative, infinityRank, by decide⟩

/-- The not-a-number value that the word `nan` stands for: the first fraction bit is set, and no
other. -/
def quietNaN (negative : Bool) : Double := ⟨negative, infinityRank + 0x8000000000000, by decide⟩

end Double

/-- A double that is neither infinite nor a not-a-number value. -/
structure FiniteDouble where
  val : Double
  finite : val.isFinite = true
deriving DecidableEq

namespace FiniteDouble

theorem isNaN_eq_false (d : FiniteDouble) : d.val.isNaN = false := by
  have h := d.finite
  simp only [Double.isFinite, Double.isNaN, decide_eq_true_eq, decide_eq_false_iff_not] at *
  omega

end FiniteDouble

namespace Double

def finite? (d : Double) : Option FiniteDouble :=
  if h : d.isFinite = true then some ⟨d, h⟩ else none

end Double

end TriggerFlow
