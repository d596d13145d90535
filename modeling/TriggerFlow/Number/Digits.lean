/-!
# Numerals

`digits base n` writes a number with the fewest digits of a base up to 36, most significant first,
and `value base` reads digits back: `value base (digits base n) = some n` (`value_digits`).
-/

namespace TriggerFlow.Number

/-- The characters `0` to `9` and then `a` to `z`, for `d < 36`. -/
def digitChar (d : Nat) : Char :=
  if d < 10 then Char.ofNat (48 + d) else Char.ofNat (87 + d)

/-- The inverse of `digitChar`, with letters of either case. -/
def digitOf? (c : Char) : Option Nat :=
  if '0' ≤ c ∧ c ≤ '9' then some (c.toNat - 48)
  else if 'a' ≤ c ∧ c ≤ 'z' then some (c.toNat - 87)
  else if 'A' ≤ c ∧ c ≤ 'Z' then some (c.toNat - 55)
  else none

/-- The list `digits base n ++ done`, built from the last digit on. -/
def digitsOnto (base : Nat) (n : Nat) (done : List Char) : List Char :=
  if _h : n < base ∨ base < 2 then digitChar n :: done
  else digitsOnto base (n / base) (digitChar (n % base) :: done)
termination_by n
decreasing_by exact Nat.div_lt_self (by omega) (by omega)

/-- The digits of `n`, most significant first; `digits base 0 = ['0']`. -/
def digits (base n : Nat) : List Char :=
  digitsOnto base n []

def decimal (n : Nat) : String :=
  String.ofList (digits 10 n)

/-- The number in decimal, with a minus sign when it is negative. -/
def signedDecimal (i : Int) : String :=
  if i < 0 then "-" ++ decimal i.natAbs else decimal i.natAbs

/-- The `digits` of `n` filled up with zeros on the left to `width` characters; a longer number
keeps all its digits. -/
def padded (base width n : Nat) : List Char :=
  let ds := digits base n
  List.replicate (width - ds.length) '0' ++ ds

/-- The value `start * base ^ cs.length + …` of a list of digits that continues a number `start`;
`none` at the first character that is no digit of the base. -/
def valueFrom (base start : Nat) : List Char → Option Nat
  | [] => some start
  | c :: cs =>
    match digitOf? c with
    | some d => if d < base then valueFrom base (start * base + d) cs else none
    | none => none

/-- The value of a list of digits; the empty list has the value 0. -/
def value (base : Nat) (cs : List Char) : Option Nat :=
  valueFrom base 0 cs

def isDigit (c : Char) : Bool :=
  '0' ≤ c && c ≤ '9'

/-- A number `n < 2 ^ 64` as configuration texts write it: digits, possibly after a plus sign, with
leading zeros allowed. -/
def word64? (cs : List Char) : Option Nat :=
  let body := match cs with
    | '+' :: rest => rest
    | _ => cs
  if body.isEmpty then none
  else (value 10 body).filter (· < 0x10000000000000000)

/-! ### Writing and reading -/

theorem valueFrom_append (base start : Nat) (xs ys : List Char) :
    valueFrom base start (xs ++ ys) = (valueFrom base start xs).bind (valueFrom base · ys) := by
  induction xs generalizing start with
  | nil => rfl
  | cons c cs ih =>
    simp only [List.cons_append, valueFrom]
    cases digitOf? c with
    | none => rfl
    | some d => by_cases h : d < base <;> simp [h, ih]

theorem digitOf?_digitChar (d : Nat) (h : d < 36) : digitOf? (digitChar d) = some d := by
  have : ∀ d : Fin 36, digitOf? (digitChar d.1) = some d.1 := by decide
  exact this ⟨d, h⟩

theorem digitsOnto_append (base n : Nat) (xs ys : List Char) :
    digitsOnto base n (xs ++ ys) = digitsOnto base n xs ++ ys := by
  induction n using Nat.strongRecOn generalizing xs with
  | _ n ih =>
    by_cases hb : n < base ∨ base < 2
    · rw [digitsOnto.eq_def base n, digitsOnto.eq_def base n xs, dif_pos hb, dif_pos hb]
      rfl
    · rw [digitsOnto.eq_def base n, digitsOnto.eq_def base n xs, dif_neg hb, dif_neg hb]
      rw [← ih _ (Nat.div_lt_self (by omega) (by omega))]
      rfl

/-- Reading a numeral gives the number that was written: `value base` undoes `digits base`. -/
theorem value_digits (base n : Nat) (h2 : 2 ≤ base) (h36 : base ≤ 36) :
    value base (digits base n) = some n := by
  unfold value digits
  induction n using Nat.strongRecOn with
  | _ n ih =>
    by_cases hb : n < base
    · rw [digitsOnto]
      simp [hb, valueFrom, digitOf?_digitChar n (by omega)]
    · rw [digitsOnto]
      simp only [hb, show ¬ base < 2 by omega, or_self, ↓reduceDIte]
      rw [show [digitChar (n % base)] = [] ++ [digitChar (n % base)] from rfl, digitsOnto_append,
        valueFrom_append, ih (n / base) (Nat.div_lt_self (by omega) (by omega))]
      have hm : n % base < base := Nat.mod_lt _ (by omega)
      simp [valueFrom, digitOf?_digitChar (n % base) (by omega), hm, Nat.div_add_mod']

end TriggerFlow.Number
