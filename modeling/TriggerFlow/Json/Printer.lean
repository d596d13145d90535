import TriggerFlow.Json.Value
import TriggerFlow.Number.Shortest
/-!
# Writing JSON texts

`Json.compact` writes a value without white space, `Json.indented` with two blanks per level.
Fields keep their order.  `escaped` changes the quote, the backslash and control characters only,
and `doubleText` writes the decimal of `Double.shortest`.
-/

namespace TriggerFlow.Json

open Number

/-! ### Numbers -/

/-- The range of the count `point` of digits before the point in which `doubleText` writes no
exponent: from `1e-5`, where `point = -4`, to below `1e16`.  A negative count stands for zeros
behind the point. -/
def positionalRange : Int × Int := (-4, 16)

/-- The exponent `e` with its sign, `+` included. -/
def exponentChars (e : Int) : List Char :=
  (if e < 0 then '-' else '+') :: digits 10 e.natAbs

/-- The decimal of `Double.shortest`, in one of two forms: with a point for `1e-5 ≤ x < 1e16`
(`5.0`, `0.001`), and else as `d.ddde±x`, where a significand of one digit has no point (`1e+16`).
-/
def doubleText (d : Double) : String :=
  let decimal := Double.shortest d.rank
  let ds := digits 10 decimal.significand
  let point : Int := ds.length + decimal.exponent
  let zeros (n : Int) : List Char := List.replicate n.toNat '0'
  let body : List Char :=
    if decimal.significand = 0 then ['0', '.', '0']
    else if 0 ≤ decimal.exponent ∧ point ≤ positionalRange.2 then
      ds ++ zeros decimal.exponent ++ ['.', '0']
    else if 0 < point ∧ point ≤ positionalRange.2 then
      ds.take point.toNat ++ '.' :: ds.drop point.toNat
    else if positionalRange.1 ≤ point ∧ point ≤ 0 then
      '0' :: '.' :: zeros (-point) ++ ds
    else
      ds.take 1 ++ (if ds.length = 1 then [] else '.' :: ds.drop 1)
        ++ 'e' :: exponentChars (point - 1)
  String.ofList (if d.negative then '-' :: body else body)

def numberText : JsonNumber → String
  | .int i => signedDecimal i
  | .double d => doubleText d.val

/-! ### Strings -/

/-- The quote and the backslash become `\"` and `\\`, and there are five short escapes; other
control characters become `\u00xx`, and every other character is itself. -/
def escaped (c : Char) : List Char :=
  if c = '"' then ['\\', '"']
  else if c = '\\' then ['\\', '\\']
  else if c = '\x08' then ['\\', 'b']
  else if c = '\x0c' then ['\\', 'f']
  else if c = '\n' then ['\\', 'n']
  else if c = '\r' then ['\\', 'r']
  else if c = '\t' then ['\\', 't']
  else if c.toNat < 0x20 then '\\' :: 'u' :: padded 16 4 c.toNat
  else [c]

/-- The `escaped` characters of a string between quotes. -/
def quoted (s : String) : String :=
  String.ofList ('"' :: s.toList.flatMap escaped ++ ['"'])

/-! ### Values -/

mutual

/-- A value without white space: `{"a":[1,2]}`. -/
def compact : Json → String
  | null => "null"
  | bool b => if b then "true" else "false"
  | number n => numberText n
  | string s => quoted s
  | array items => "[" ++ ",".intercalate (compactItems items) ++ "]"
  | object fields => "\x7b" ++ ",".intercalate (compactFields fields) ++ "\x7d"

def compactItems : List Json → List String
  | [] => []
  | v :: vs => compact v :: compactItems vs

/-- The texts `"k":v` of the fields, joined by `compact` with commas. -/
def compactFields : List (String × Json) → List String
  | [] => []
  | (k, v) :: rest => (quoted k ++ ":" ++ compact v) :: compactFields rest

end

/-- A line break and `2 * level` blanks. -/
def lineStart (level : Nat) : String :=
  String.ofList ('\n' :: List.replicate (2 * level) ' ')

mutual

/-- A value whose surrounding line is at `level`: items and fields stand on lines of their own at
`level + 1`, and empty arrays and objects are written `[]` and `{}`. -/
def indentedAt (level : Nat) : Json → String
  | array [] => "[]"
  | array items =>
    "[" ++ ",".intercalate (indentedItems (level + 1) items) ++ lineStart level ++ "]"
  | object [] => "\x7b\x7d"
  | object fields =>
    "\x7b" ++ ",".intercalate (indentedFields (level + 1) fields) ++ lineStart level ++ "\x7d"
  | v => compact v

def indentedItems (level : Nat) : List Json → List String
  | [] => []
  | v :: vs => (lineStart level ++ indentedAt level v) :: indentedItems level vs

def indentedFields (level : Nat) : List (String × Json) → List String
  | [] => []
  | (k, v) :: rest =>
    (lineStart level ++ quoted k ++ ": " ++ indentedAt level v) :: indentedFields level rest

end

def indented (v : Json) : String := indentedAt 0 v

end TriggerFlow.Json
