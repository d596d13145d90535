import TriggerFlow.Json.Value
import TriggerFlow.Number.Digits
/-!
# Identifiers

A `Uuid` is a number of 128 bits.  It is written as 32 lower-case hexadecimal digits in groups of
8, 4, 4, 4 and 12 with hyphens between them (`Uuid.text`), and read in that form, without hyphens,
in braces or as a URN, the letters in either case (`Uuid.ofText?`).
-/

namespace TriggerFlow

/-- An identifier: a number below `2 ^ 128`. -/
structure Uuid where
  toNat : Nat
  toNat_lt : toNat < 0x100000000000000000000000000000000
deriving DecidableEq

namespace Uuid

open Number

def nil : Uuid := ⟨0, by decide⟩

instance : Inhabited Uuid := ⟨nil⟩

/-- The identifier whose upper and lower 64 bits are given, each modulo `2 ^ 64`. -/
def ofHalves (upper lower : Nat) : Uuid :=
  ⟨upper % 0x10000000000000000 * 0x10000000000000000 + lower % 0x10000000000000000, by omega⟩

/-- The lengths of the groups of digits; their sum is 32. -/
def groups : List Nat := [8, 4, 4, 4, 12]

/-- Cuts digits into groups of the given lengths with hyphens between them. -/
def hyphenate : List Nat → List Char → List Char
  | [], _ => []
  | [n], ds => ds.take n
  | n :: ns, ds => ds.take n ++ '-' :: hyphenate ns (ds.drop n)

/-- Takes the hyphens between the groups out again, and is `none` if they do not stand there
(`unhyphenate?_hyphenate`). -/
def unhyphenate? : List Nat → List Char → Option (List Char)
  | [], _ => none
  | [n], cs => if cs.length = n then some cs else none
  | n :: ns, cs =>
    match cs.drop n with
    | '-' :: rest => (unhyphenate? ns rest).map (cs.take n ++ ·)
    | _ => none

/-- The identifier as characters: 32 digits to the base 16, cut into `groups`. -/
def chars (u : Uuid) : List Char := hyphenate groups (padded 16 32 u.toNat)

/-- The identifier as a text, which `ofText?` reads back. -/
def text (u : Uuid) : String := String.ofList u.chars

/-- The identifier that 32 hexadecimal digits spell; `none` for any other number of digits. -/
def ofDigits? (ds : List Char) : Option Uuid :=
  if ds.length = 32 then
    (value 16 ds).bind fun n =>
      if h : n < 0x100000000000000000000000000000000 then some ⟨n, h⟩ else none
  else none

/-- The identifier that digits with hyphens between `groups` spell. -/
def ofHyphenated? (cs : List Char) : Option Uuid := (unhyphenate? groups cs).bind ofDigits?

/-- What a URN of an identifier starts with; `ofChars?` takes it in either case. -/
def urnScheme : List Char := ['u', 'r', 'n', ':', 'u', 'u', 'i', 'd', ':']

/-- The identifier that characters spell: plain digits, or hyphenated ones that stand alone, in
braces or after `urnScheme`. -/
def ofChars? (cs : List Char) : Option Uuid :=
  if cs.length = 32 then ofDigits? cs
  else if (cs.take urnScheme.length).map Char.toLower = urnScheme then
    ofHyphenated? (cs.drop urnScheme.length)
  else
    match cs with
    | '\x7b' :: rest =>
      if rest.getLast? = some '\x7d' then ofHyphenated? rest.dropLast else none
    | _ => ofHyphenated? cs

/-- The identifier that a text spells, in one of the forms of `ofChars?`. -/
def ofText? (s : String) : Option Uuid := ofChars? s.toList

/-- Reads an identifier from a string, by `ofText?`. -/
def ofJson? : Json → Option Uuid
  | .string s => ofText? s
  | _ => none

def toJson (u : Uuid) : Json := .string u.text

/-- The order of the numbers: `a.toNat ≤ b.toNat`. -/
def le (a b : Uuid) : Bool := a.toNat ≤ b.toNat

theorem eq_of_toNat_eq {a b : Uuid} (h : a.toNat = b.toNat) : a = b := by
  obtain ⟨n, hn⟩ := a
  obtain ⟨m, hm⟩ := b
  obtain rfl : n = m := h
  rfl

end Uuid

end TriggerFlow
