import TriggerFlow.Json.Value
import TriggerFlow.Number.Digits
import TriggerFlow.Text.Blank
/-!
# Instants

A `Timestamp` counts seconds since the start of 1970 in universal time, and the nanoseconds within
the second; a leap second carries a second thousand million of them.  It is written in the format of
RFC 3339 in universal time, with the fewest of 0, 3, 6 or 9 decimals that lose nothing
(`Timestamp.text`), and read with any offset and in the looser forms that are in use
(`Timestamp.ofText?`).

Dates are those of the Gregorian calendar, extended to all years (`Date.toDays`, `Date.ofDays`); an
instant is only read if it falls within the years that dates may have (`Timestamp.isInRange`).
-/

namespace TriggerFlow

/-- A day of the calendar; `Date.isValid` says whether there is such a day. -/
structure Date where
  year : Int
  month : Nat
  day : Nat
deriving DecidableEq

namespace Date

def isLeapYear (year : Int) : Bool :=
  year % 4 == 0 && (year % 100 != 0 || year % 400 == 0)

def daysInMonth (year : Int) (month : Nat) : Nat :=
  if month = 2 then (if isLeapYear year then 29 else 28)
  else if month = 4 ∨ month = 6 ∨ month = 9 ∨ month = 11 then 30
  else 31

/-- The first year that a date may have; `maxYear` is the last. -/
def minYear : Int := -262143

def maxYear : Int := 262142

/-- Whether there is such a day: its `day` is at most `daysInMonth`, and its year is one that dates
may have. -/
def isValid (d : Date) : Bool :=
  minYear ≤ d.year && d.year ≤ maxYear && 1 ≤ d.month && d.month ≤ 12 && 1 ≤ d.day
    && d.day ≤ daysInMonth d.year d.month

/-- Days from 1 March of year zero to 1 March of the year `y`, a leap day in every fourth year but
the hundredth, and yet in the four hundredth. -/
def daysBeforeYear (y : Int) : Int := 365 * y + y / 4 - y / 100 + y / 400

/-- Days since 1 January 1970.  Years are counted from March, so that the leap day comes last;
`toDays_ofDays` says that this is the inverse of `ofDays`. -/
def toDays (d : Date) : Int :=
  let y := if d.month ≤ 2 then d.year - 1 else d.year
  let m := if d.month ≤ 2 then d.month + 9 else d.month - 3
  daysBeforeYear y + (153 * m + 2) / 5 + d.day - 1 - 719468

/-- The day that comes `n` days after 1 January 1970, by cycles of 400 years, which have 146097
days. -/
def ofDays (n : Int) : Date :=
  let z := n + 719468
  let era := z / 146097
  let dayOfEra := (z % 146097).toNat
  let yearOfEra := (dayOfEra - dayOfEra / 1460 + dayOfEra / 36524 - dayOfEra / 146096) / 365
  let dayOfYear := dayOfEra - (365 * yearOfEra + yearOfEra / 4 - yearOfEra / 100)
  let m := (5 * dayOfYear + 2) / 153
  let month := if m < 10 then m + 3 else m - 9
  { year := era * 400 + yearOfEra + (if month ≤ 2 then 1 else 0)
    month := month
    day := dayOfYear - (153 * m + 2) / 5 + 1 }

end Date

/-- An instant of universal time: `seconds` since the start of 1970, and `nanos`, which are a
thousand million and more in a leap second. -/
structure Timestamp where
  seconds : Int
  nanos : Nat
  nanos_lt : nanos < 2000000000
deriving DecidableEq

namespace Timestamp

open Number

instance : Inhabited Timestamp := ⟨⟨0, 0, by decide⟩⟩

/-- Whether `a` comes before `b`, or is the same: seconds first, then `nanos`. -/
def le (a b : Timestamp) : Bool :=
  a.seconds < b.seconds || (a.seconds == b.seconds && a.nanos ≤ b.nanos)

/-- Whether `a` comes before `b`: not `le b a`. -/
def lt (a b : Timestamp) : Bool := !le b a

/-- The start of 1970, where `seconds` are counted from. -/
def epoch : Timestamp := ⟨0, 0, by decide⟩

/-- The first second of the year `Date.minYear`. -/
def minSeconds : Int := Date.toDays ⟨Date.minYear, 1, 1⟩ * 86400

/-- The last second of the year `Date.maxYear`. -/
def maxSeconds : Int := Date.toDays ⟨Date.maxYear, 12, 31⟩ * 86400 + 86399

/-- Whether an instant falls on a day that dates may have: from `minSeconds` to `maxSeconds`. -/
def isInRange (t : Timestamp) : Bool := minSeconds ≤ t.seconds && t.seconds ≤ maxSeconds

/-- The instant `s` seconds later, or earlier if `s` is negative. -/
def addSeconds (t : Timestamp) (s : Int) : Timestamp := { t with seconds := t.seconds + s }

/-- The instant `ms` milliseconds later.  What `nanos` then has beyond a second, also that of a leap
second, goes into `seconds`. -/
def addMillis (t : Timestamp) (ms : Nat) : Timestamp :=
  let total := t.nanos + ms % 1000 * 1000000
  ⟨t.seconds + ms / 1000 + (if total < 1000000000 then 0 else (total / 1000000000 : Nat)),
    total % 1000000000,
    by omega⟩

/-- The whole milliseconds from `start` to `finish`, zero if `finish` comes first. -/
def millisSince (start finish : Timestamp) : Nat :=
  let nanos := (finish.seconds - start.seconds) * 1000000000 + finish.nanos - start.nanos
  nanos.toNat / 1000000

/-! ### Writing -/

/-- A year with four digits; outside the years 0 to 9999 it carries a sign, and may have more digits
(`year?` reads it back). -/
def yearChars (y : Int) : List Char :=
  if 0 ≤ y ∧ y ≤ 9999 then padded 10 4 y.toNat
  else (if y < 0 then '-' else '+') :: padded 10 4 y.natAbs

/-- The decimals of a second that lose nothing of `nanos`: none, or a point and 3, 6 or 9 digits. -/
def decimalChars (nanos : Nat) : List Char :=
  if nanos = 0 then []
  else if nanos % 1000000 = 0 then '.' :: padded 10 3 (nanos / 1000000)
  else if nanos % 1000 = 0 then '.' :: padded 10 6 (nanos / 1000)
  else '.' :: padded 10 9 nanos

/-- The instant as characters: the date of `Date.ofDays`, `T`, the time of day, decimals and `Z`.
In a leap second the seconds are counted one further. -/
def chars (t : Timestamp) : List Char :=
  let date := Date.ofDays (t.seconds / 86400)
  let ofDay := (t.seconds % 86400).toNat
  let leap := if t.nanos < 1000000000 then 0 else 1
  yearChars date.year ++ '-' :: padded 10 2 date.month ++ '-' :: padded 10 2 date.day
    ++ 'T' :: padded 10 2 (ofDay / 3600) ++ ':' :: padded 10 2 (ofDay / 60 % 60)
    ++ ':' :: padded 10 2 (ofDay % 60 + leap) ++ decimalChars (t.nanos % 1000000000) ++ ['Z']

/-- The instant in the format of RFC 3339, which `ofText?` reads back. -/
def text (t : Timestamp) : String := String.ofList t.chars

/-! ### Reading -/

/-- Leading white space (`Text.isBlank`) is passed over. -/
def skipBlank (cs : List Char) : List Char := cs.dropWhile Text.isBlank

/-- A number of one to `width` digits after optional white space, and what follows it. -/
def number? (width : Nat) (cs : List Char) : Option (Nat × List Char) :=
  let body := skipBlank cs
  let ds := (body.take width).takeWhile isDigit
  if ds = [] then none
  else (value 10 ds).map fun n => (n, body.drop ds.length)

/-- A year, and what follows it: four digits at most, or any number of digits after a sign. -/
def year? (cs : List Char) : Option (Int × List Char) :=
  let body := skipBlank cs
  let signed (rest : List Char) : Option (Nat × List Char) :=
    let ds := rest.takeWhile isDigit
    if ds = [] then none
    else (value 10 ds).map fun n => (n, rest.drop ds.length)
  match body with
  | '-' :: rest => (signed rest).map fun (n, r) => (-(n : Int), r)
  | '+' :: rest => (signed rest).map fun (n, r) => ((n : Int), r)
  | _ => (number? 4 body).map fun (n, r) => ((n : Int), r)

/-- What follows the character `mark` after optional white space; `none` if something else comes. -/
def mark? (mark : Char) (cs : List Char) : Option (List Char) :=
  match skipBlank cs with
  | c :: rest => if c = mark then some rest else none
  | [] => none

/-- The decimals of a second as nanoseconds, and what follows them; what goes beyond nine digits is
dropped.  Without a point there are none. -/
def decimals? : List Char → Option (Nat × List Char)
  | '.' :: rest =>
    let ds := rest.takeWhile isDigit
    if ds = [] then none
    else
      let kept := ds.take 9
      (value 10 kept).map fun n => (n * Nat.pow 10 (9 - kept.length), rest.drop ds.length)
  | cs => some (0, cs)

/-- An offset from universal time in seconds: `Z`, `UTC` in any case, or a sign, two digits of
hours, colons or white space, and two digits of minutes. -/
def offset? (cs : List Char) : Option (Int × List Char) :=
  if (cs.take 3).map Char.toUpper = ['U', 'T', 'C'] then some (0, cs.drop 3)
  else
    match cs with
    | [] => none
    | sign :: rest =>
      if sign = 'Z' ∨ sign = 'z' then some (0, rest)
      else if sign = '+' ∨ sign = '-' ∨ sign = '\u2212' then
        match rest with
        | h1 :: h2 :: tail =>
          match tail.dropWhile fun c => c == ':' || Text.isBlank c with
          | m1 :: m2 :: after => do
            let hours ← if isDigit h1 && isDigit h2 then value 10 [h1, h2] else none
            let minutes ← if isDigit m1 && isDigit m2 then value 10 [m1, m2] else none
            if 60 ≤ minutes ∨ 24 ≤ hours then none
            else
              let seconds : Int := hours * 3600 + minutes * 60
              some (if sign = '+' then seconds else -seconds, after)
          | _ => none
        | _ => none
      else none

/-- What follows the separator between the date and the time of day: `T` in either case, or a space.
-/
def separator? : List Char → Option (List Char)
  | 'T' :: rest => some rest
  | 't' :: rest => some rest
  | ' ' :: rest => some rest
  | _ => none

/-- The instant of a date, a time of day and an offset, if both the date and the day that it is in
universal time may be (`Date.isValid`, `isInRange`).  The second 60 is a leap second. -/
def ofParts? (date : Date) (hour minute second nanos : Nat) (offset : Int) : Option Timestamp :=
  if date.isValid && hour < 24 && minute < 60 && second ≤ 60 then
    let whole := min second 59
    let total := nanos + (if second = 60 then 1000000000 else 0)
    if h : total < 2000000000 then
      let t : Timestamp :=
        ⟨date.toDays * 86400 + hour * 3600 + minute * 60 + whole - offset, total, h⟩
      if t.isInRange then some t else none
    else none
  else none

/-- The instant that characters spell: date, separator, time of day, decimals and offset, and
nothing after that. -/
def ofChars? (cs : List Char) : Option Timestamp := do
  let (year, cs) ← year? cs
  let cs ← mark? '-' cs
  let (month, cs) ← number? 2 cs
  let cs ← mark? '-' cs
  let (day, cs) ← number? 2 cs
  let cs ← separator? cs
  let (hour, cs) ← number? 2 cs
  let cs ← mark? ':' cs
  let (minute, cs) ← number? 2 cs
  let cs ← mark? ':' cs
  let (second, cs) ← number? 2 cs
  let (nanos, cs) ← decimals? cs
  let (offset, cs) ← offset? (skipBlank cs)
  if skipBlank cs = [] then ofParts? ⟨year, month, day⟩ hour minute second nanos offset else none

/-- The instant that a text spells, by `ofChars?`. -/
def ofText? (s : String) : Option Timestamp := ofChars? s.toList

/-- Reads an instant from a string, by `ofText?`. -/
def ofJson? : Json → Option Timestamp
  | .string s => ofText? s
  | _ => none

def toJson (t : Timestamp) : Json := .string t.text

end Timestamp

end TriggerFlow
