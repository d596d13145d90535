import TriggerFlow.Json.Numeral
/-!
# Reading JSON texts

A text is cut into tokens (`Tree.tokens?`), the tokens are put together to a tree
(`Tree.ofTokens?`), and the tree is read as a value (`Tree.value?`).  The tree holds what the
grammar accepts and no more: an object's entries as they stand, repeated keys included, and a number
or a string that the grammar allows but that has no value as `none`.  Such a part makes `value?`
fail, and so does nesting of more than 127 arrays and objects.

`Tree.select?` reads a text against a `Shape`: of a record only the fields that the shape names are
looked at, and none of these may come twice.
-/

namespace TriggerFlow

open Number

inductive Token where
  | openObject
  | closeObject
  | openArray
  | closeArray
  | colon
  | comma
  | null
  | bool (value : Bool)
  | number (value : Option JsonNumber)
  | text (value : Option String)

/-- A JSON text as the grammar takes it apart.  Where the grammar accepts a number or a string that
has no value, its place holds `none`; the entries of an object stand as they were written. -/
inductive Tree where
  | null
  | bool (value : Bool)
  | number (value : Option JsonNumber)
  | text (value : Option String)
  | array (items : List Tree)
  | object (entries : List (Option String × Tree))

instance : Inhabited Tree := ⟨.null⟩

namespace Tree

/-! ### Strings -/

/-- The character that `\c` stands for; `\u` is read by `pieces?`. -/
def escape? : Char → Option Char
  | '"' => some '"'
  | '\\' => some '\\'
  | '/' => some '/'
  | 'b' => some '\x08'
  | 'f' => some '\x0c'
  | 'n' => some '\n'
  | 'r' => some '\r'
  | 't' => some '\t'
  | _ => none

/-- The number below `2 ^ 16` that four hexadecimal digits spell. -/
def unit? (a b c d : Char) : Option Nat := value 16 [a, b, c, d]

/-- A character of a string, or a unit `\uXXXX` that is the `high` or the `low` half of a pair. -/
inductive Piece where
  | char (c : Char)
  | high (unit : Nat)
  | low (unit : Nat)

/-- Surrogates are halves: `0xd800 ≤ u < 0xdc00` is a `high` half, `0xdc00 ≤ u < 0xe000` a `low`
one, and every other unit a character. -/
def Piece.ofUnit (u : Nat) : Piece :=
  if 0xd800 ≤ u ∧ u < 0xdc00 then .high u
  else if 0xdc00 ≤ u ∧ u < 0xe000 then .low u
  else .char (Char.ofNat u)

/-- The pieces up to the closing quote, and what follows it; `none` at a control character, at an
escape that does not exist and at the end of the text. -/
def pieces? : List Char → Option (List Piece × List Char)
  | [] => none
  | '"' :: rest => some ([], rest)
  | '\\' :: 'u' :: a :: b :: c :: d :: rest => do
    let u ← unit? a b c d
    let (ps, tail) ← pieces? rest
    return (Piece.ofUnit u :: ps, tail)
  | '\\' :: e :: rest => do
    let c ← escape? e
    let (ps, tail) ← pieces? rest
    return (.char c :: ps, tail)
  | c :: rest =>
    if c.toNat < 0x20 then none
    else do
      let (ps, tail) ← pieces? rest
      return (.char c :: ps, tail)

/-- Each `high` half joined with the `low` half behind it; `none` where a half stands alone. -/
def joinPieces? : List Piece → Option (List Char)
  | [] => some []
  | .char c :: ps => (joinPieces? ps).map (c :: ·)
  | .high u :: .low v :: ps =>
    (joinPieces? ps).map (Char.ofNat (0x10000 + (u - 0xd800) * 0x400 + (v - 0xdc00)) :: ·)
  | .high _ :: _ => none
  | .low _ :: _ => none

/-! ### Tokens -/

def isSpace (c : Char) : Bool := c == ' ' || c == '\n' || c == '\r' || c == '\t'

theorem length_of_pieces? {cs : List Char} {ps : List Piece} {rest : List Char}
    (h : pieces? cs = some (ps, rest)) : rest.length < cs.length := by
  fun_induction pieces? cs generalizing ps with
  | case1 => simp at h
  | case2 => simp_all
  | case3 a b c d cs ih =>
    simp only [Option.bind_eq_bind, Option.bind_eq_some_iff, Option.pure_def, Option.some.injEq,
      Prod.mk.injEq] at h
    obtain ⟨_, _, ⟨_, _⟩, h, _, rfl⟩ := h
    have := ih h
    simp at this ⊢
    omega
  | case4 e cs _ ih =>
    simp only [Option.bind_eq_bind, Option.bind_eq_some_iff, Option.pure_def, Option.some.injEq,
      Prod.mk.injEq] at h
    obtain ⟨_, _, ⟨_, _⟩, h, _, rfl⟩ := h
    have := ih h
    simp at this ⊢
    omega
  | case5 => simp at h
  | case6 c cs _ _ _ _ ih =>
    simp only [Option.bind_eq_bind, Option.bind_eq_some_iff, Option.pure_def, Option.some.injEq,
      Prod.mk.injEq] at h
    obtain ⟨⟨_, _⟩, h, _, rfl⟩ := h
    have := ih h
    simp at this ⊢
    omega

/-- The tokens of a text, white space dropped; `none` where no token begins. -/
def tokens? : List Char → Option (List Token)
  | [] => some []
  | '{' :: cs => (tokens? cs).map (.openObject :: ·)
  | '}' :: cs => (tokens? cs).map (.closeObject :: ·)
  | '[' :: cs => (tokens? cs).map (.openArray :: ·)
  | ']' :: cs => (tokens? cs).map (.closeArray :: ·)
  | ':' :: cs => (tokens? cs).map (.colon :: ·)
  | ',' :: cs => (tokens? cs).map (.comma :: ·)
  | 'n' :: 'u' :: 'l' :: 'l' :: cs => (tokens? cs).map (.null :: ·)
  | 't' :: 'r' :: 'u' :: 'e' :: cs => (tokens? cs).map (.bool true :: ·)
  | 'f' :: 'a' :: 'l' :: 's' :: 'e' :: cs => (tokens? cs).map (.bool false :: ·)
  | '"' :: cs =>
    match _h : pieces? cs with
    | none => none
    | some (ps, rest) =>
      (tokens? rest).map (.text ((joinPieces? ps).map String.ofList) :: ·)
  | c :: cs =>
    if isSpace c then tokens? cs
    else if Numeral.isNumeralChar c then
      match Numeral.ofChars? (c :: cs.takeWhile Numeral.isNumeralChar) with
      | none => none
      | some numeral =>
        (tokens? (cs.dropWhile Numeral.isNumeralChar)).map (.number numeral.number? :: ·)
    else none
termination_by cs => cs.length
decreasing_by
  all_goals simp only [List.length_cons]
  all_goals first
    | omega
    | exact Nat.lt_succ_of_lt (length_of_pieces? _h)
    | exact Nat.lt_succ_of_le (List.dropWhile_sublist _).length_le

/-! ### Trees -/

/-- An array or object that has been opened and not closed yet, with its parts in reverse order.
`field` is an object whose last key still lacks its value. -/
inductive Frame where
  | array (items : List Tree)
  | object (entries : List (Option String × Tree))
  | field (entries : List (Option String × Tree)) (key : Option String)

/-- What the grammar admits next, given the innermost frame. -/
inductive Expected where
  /-- a value -/
  | value
  /-- a value, or the end of the array just opened -/
  | firstItem
  /-- a key, or the end of the object just opened -/
  | firstKey
  /-- a key -/
  | key
  /-- the colon after a key -/
  | colon
  /-- a comma, or the end of the innermost frame -/
  | more
  /-- nothing: the value is complete -/
  | done (tree : Tree)

/-- The open frames, innermost first, and what is expected next. -/
structure Reading where
  frames : List Frame
  expected : Expected

/-- A complete value takes its place in the innermost frame; without one it is the whole text, and
`.done` is expected. -/
def place (t : Tree) : List Frame → Option Reading
  | [] => some ⟨[], .done t⟩
  | .array items :: fs => some ⟨.array (t :: items) :: fs, .more⟩
  | .field entries key :: fs => some ⟨.object ((key, t) :: entries) :: fs, .more⟩
  | .object _ :: _ => none

/-- A token where a value has to stand: a simple value is put into its `place`, and an opening
bracket opens a frame. -/
def startValue (fs : List Frame) : Token → Option Reading
  | .null => place .null fs
  | .bool b => place (.bool b) fs
  | .number n => place (.number n) fs
  | .text s => place (.text s) fs
  | .openArray => some ⟨.array [] :: fs, .firstItem⟩
  | .openObject => some ⟨.object [] :: fs, .firstKey⟩
  | _ => none

/-- Reads one token; `none` where the grammar does not admit it. -/
def Reading.step (r : Reading) (t : Token) : Option Reading :=
  match r.expected, t, r.frames with
  | .value, t, fs => startValue fs t
  | .firstItem, .closeArray, .array items :: fs => place (.array items.reverse) fs
  | .firstItem, t, fs => startValue fs t
  | .firstKey, .closeObject, .object entries :: fs => place (.object entries.reverse) fs
  | .firstKey, .text key, .object entries :: fs => some ⟨.field entries key :: fs, .colon⟩
  | .key, .text key, .object entries :: fs => some ⟨.field entries key :: fs, .colon⟩
  | .colon, .colon, fs => some ⟨fs, .value⟩
  | .more, .comma, .array items :: fs => some ⟨.array items :: fs, .value⟩
  | .more, .comma, .object entries :: fs => some ⟨.object entries :: fs, .key⟩
  | .more, .closeArray, .array items :: fs => place (.array items.reverse) fs
  | .more, .closeObject, .object entries :: fs => place (.object entries.reverse) fs
  | _, _, _ => none

/-- Runs `step` over the tokens from left to right. -/
def Reading.run (r : Reading) : List Token → Option Reading
  | [] => some r
  | t :: ts => (r.step t).bind fun next => next.run ts

/-- The tree of the tokens, if they spell exactly one value: reading ends with no open frame and
`.done`. -/
def ofTokens? (ts : List Token) : Option Tree :=
  match Reading.run ⟨[], .value⟩ ts with
  | some ⟨[], .done t⟩ => some t
  | _ => none

def ofText? (text : String) : Option Tree := (tokens? text.toList).bind ofTokens?

/-! ### Values -/

/-- The greatest nesting of arrays and objects that has a value. -/
def maxNesting : Nat := 127

mutual

/-- The value of a tree that nests at most `room` levels deep, or `none` if it nests deeper or some
part of it has none.  `Fields.ofEntries` makes an object of its entries: the last of those under one
key counts, in the place of the first. -/
def value? (room : Nat) : Tree → Option Json
  | null => some .null
  | bool b => some (.bool b)
  | number n => n.map .number
  | text s => s.map .string
  | array items => if room = 0 then none else (items? (room - 1) items).map .array
  | object entries =>
    if room = 0 then none
    else (entries? (room - 1) entries).map fun es => .object (Fields.ofEntries es)

def items? (room : Nat) : List Tree → Option (List Json)
  | [] => some []
  | t :: ts => do
    let v ← value? room t
    let vs ← items? room ts
    return v :: vs

def entries? (room : Nat) : List (Option String × Tree) → Option (List (String × Json))
  | [] => some []
  | (key, t) :: es => do
    let k ← key
    let v ← value? room t
    let vs ← entries? room es
    return (k, v) :: vs

end

/-! ### Selection -/

/-- Which parts of a text are of interest: the `whole` value, the items of a `list` by one shape, or
the named fields of a `record`. -/
inductive Shape where
  | whole
  | list (item : Shape)
  | record (fields : List (String × Shape))

/-- Whether every key has a value and no name of `names` occurs twice. -/
def distinctKeys (names : List String) : List (Option String × Tree) → Bool
  | [] => true
  | (key, _) :: es =>
    (match key with
      | none => false
      | some k => !(names.contains k && es.any fun e => e.1 == some k)) && distinctKeys names es

mutual

/-- The parts of a tree that a shape asks for, as a value.  A field that the shape of a record does
not name is passed over unread, so that it may even lack a value; a record may also be given as the
list of its fields in the shape's order. -/
def select? : Shape → Nat → Tree → Option Json
  | .list item, room + 1, .array items => (items.mapM (select? item room)).map .array
  | .record fields, room + 1, .object entries =>
    if distinctKeys (fields.map Prod.fst) entries then
      (selectFields? fields room entries).map .object
    else none
  | .record fields, room + 1, .array items => (selectListed? fields room items).map .array
  | _, room, tree => value? room tree

/-- The fields among `entries` that the shape names, in the order of the shape; those missing are
left out. -/
def selectFields? : List (String × Shape) → Nat → List (Option String × Tree) →
    Option (List (String × Json))
  | [], _, _ => some []
  | (name, shape) :: rest, room, entries => do
    let vs ← selectFields? rest room entries
    match entries.find? fun e => e.1 == some name with
    | none => return vs
    | some (_, t) =>
      let v ← select? shape room t
      return (name, v) :: vs

/-- The items of a list, read in the order of the shape. -/
def selectListed? : List (String × Shape) → Nat → List Tree → Option (List Json)
  | (_, shape) :: rest, room, t :: ts => do
    let v ← select? shape room t
    let vs ← selectListed? rest room ts
    return v :: vs
  | _, room, ts => items? room ts

end

end Tree

namespace Json

/-- The value that a text spells: `Tree.value?` of its tree, with room for `maxNesting` levels. -/
def ofText? (text : String) : Option Json :=
  (Tree.ofText? text).bind (Tree.value? Tree.maxNesting)

/-- What `shape` selects of the value that a text spells. -/
def selectText? (shape : Tree.Shape) (text : String) : Option Json :=
  (Tree.ofText? text).bind (Tree.select? shape Tree.maxNesting)

end Json

end TriggerFlow
