import TriggerFlow.Number.Digits
import TriggerFlow.Number.Double
/-!
# Reading a decimal text

`Double.ofText? s` reads a number as people write it: an optional sign, then digits with an optional
point and exponent, or one of the words `inf`, `infinity` and `nan` in any case.  The point may
stand first or last, as long as there is a digit.  The result is the double nearest to the decimal.

The digits of an exponent count only until the number they make reaches `exponentCap`.  A decimal of
few digits is zero or infinite long before that; one that spells out tens of thousands of zeros is
not, and for it the exponent that counts is the one of `exponentOfDigits?`.
-/

namespace TriggerFlow.Double

open Number

/-- The sign in front of a text, `true` for minus, and the rest. -/
def takeSign : List Char → Bool × List Char
  | '-' :: rest => (true, rest)
  | '+' :: rest => (false, rest)
  | cs => (false, cs)

/-- The number from which on `pushExponent` takes in no further digits. -/
def exponentCap : Nat := 0x10000

/-- The number `10 * n + digit`, unless `n` has reached `exponentCap`. -/
def pushExponent (n : Nat) (c : Char) : Nat :=
  if n < exponentCap then 10 * n + (c.toNat - 48) else n

/-- The exponent that digits spell.  Leading zeros do not matter, and all characters have to be
digits, also those beyond `exponentCap` that no longer count. -/
def exponentOfDigits? (ds : List Char) : Option Nat :=
  if ds.isEmpty || !ds.all isDigit then none else some (ds.foldl pushExponent 0)

/-- The exponent after the mark `e` or `E`; the empty text has exponent zero, and a mark without
digits none. -/
def exponent? : List Char → Option Int
  | [] => some 0
  | mark :: rest =>
    if mark = 'e' ∨ mark = 'E' then
      let (negative, ds) := takeSign rest
      (exponentOfDigits? ds).map fun n => if negative then -(n : Int) else n
    else none

/-- The double nearest to `whole.decimals e exponent`, by `ofDecimal`: the digits of both parts make
the significand, and `exponent - decimals.length` is the exponent. -/
def ofDigits? (negative : Bool) (cs : List Char) : Option Double :=
  let whole := cs.takeWhile isDigit
  let afterWhole := cs.dropWhile isDigit
  let (decimals, tail) := match afterWhole with
    | '.' :: r => (r.takeWhile isDigit, r.dropWhile isDigit)
    | r => ([], r)
  if whole.isEmpty && decimals.isEmpty then none
  else do
    let significand ← value 10 (whole ++ decimals)
    let e ← exponent? tail
    return ofDecimal negative significand (e - decimals.length)

/-- The number that a text spells, if it spells one: a word after its sign, or what `ofDigits?`
reads. -/
def ofText? (cs : List Char) : Option Double :=
  let (negative, body) := takeSign cs
  let word := body.map Char.toLower
  if word = "inf".toList ∨ word = "infinity".toList then some (infinity negative)
  else if word = "nan".toList then some (quietNaN negative)
  else ofDigits? negative body

end TriggerFlow.Double
