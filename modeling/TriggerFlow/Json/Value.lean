import TriggerFlow.Number.Double
/-!
# JSON values

Integers and doubles are kept apart, and an object is the list of its fields in the order in which
their keys were first written.  Under a key that is written twice an object holds the first entry:
`Fields.find?` looks it up and `Fields.put` overwrites it in its place.

Two values are equal (`Json.equal`) when they have the same form; the order of an object's fields
plays no part, and `1` differs from `1.0`.
-/

namespace TriggerFlow

/-- A number, with the way it was written: `1` is an `int`, and `1.0` a finite `double`. -/
inductive JsonNumber where
  | int (value : Int)
  | double (value : FiniteDouble)
deriving DecidableEq

namespace JsonNumber

/-- The double nearest to the number. -/
def toDouble : JsonNumber → Double
  | int i => Double.ofInt i
  | double d => d.val

/-- Equal numbers are both integers or both doubles, and of one value: `1` differs from `1.0`. -/
def equal : JsonNumber → JsonNumber → Bool
  | int i, int j => i == j
  | double d, double e => d.val.equal e.val
  | _, _ => false

end JsonNumber

inductive Json where
  | null
  | bool (value : Bool)
  | number (value : JsonNumber)
  | string (value : String)
  | array (items : List Json)
  | object (fields : List (String × Json))

instance : Inhabited Json := ⟨.null⟩

/-- The fields of an object in the order in which their keys were first written. -/
abbrev Fields := List (String × Json)

/-- What holds of simple values, and of arrays and objects as soon as it holds of all values in
them, holds of every value.  This is the principle behind `induction v`. -/
@[induction_eliminator]
theorem Json.induction {motive : Json → Prop} (null : motive .null)
    (bool : ∀ b, motive (.bool b)) (number : ∀ n, motive (.number n))
    (string : ∀ s, motive (.string s))
    (array : ∀ items, (∀ v ∈ items, motive v) → motive (.array items))
    (object : ∀ fields : Fields, (∀ f ∈ fields, motive f.2) → motive (.object fields)) :
    ∀ v, motive v
  | .null => null
  | .bool b => bool b
  | .number n => number n
  | .string s => string s
  | .array items =>
    array items fun v _ => Json.induction null bool number string array object v
  | .object fields =>
    object fields fun f _ => Json.induction null bool number string array object f.2
termination_by v => sizeOf v
decreasing_by
  · next hmem =>
    have := List.sizeOf_lt_of_mem hmem
    rw [Json.array.sizeOf_spec]
    omega
  · next hmem =>
    have := List.sizeOf_lt_of_mem hmem
    have : sizeOf f = 1 + sizeOf f.1 + sizeOf f.2 := rfl
    rw [Json.object.sizeOf_spec]
    omega

namespace Fields

/-- The value of the first field whose key is `key`. -/
def find? (key : String) : Fields → Option Json
  | [] => none
  | (k, v) :: rest => if k = key then some v else find? key rest

/-- Writes `value` under `key`: in place of the first field with that key, and at the end if there
is none. -/
def put (key : String) (value : Json) : Fields → Fields
  | [] => [(key, value)]
  | (k, v) :: rest => if k = key then (key, value) :: rest else (k, v) :: put key value rest

def keys (fs : Fields) : List String := fs.map Prod.fst

def has (key : String) (fs : Fields) : Bool := (find? key fs).isSome

/-- The entries `put` one after the other; a key that comes again overwrites in place. -/
def ofEntries (entries : List (String × Json)) : Fields :=
  entries.foldl (fun fs (k, v) => put k v fs) []

theorem find?_put_self (key : String) (value : Json) (fs : Fields) :
    find? key (put key value fs) = some value := by
  induction fs with
  | nil => simp [put, find?]
  | cons e rest ih =>
    obtain ⟨k, v⟩ := e
    by_cases h : k = key <;> simp [put, find?, h, ih]

theorem find?_put_ne {key other : String} (h : other ≠ key) (value : Json) (fs : Fields) :
    find? other (put key value fs) = find? other fs := by
  induction fs with
  | nil => simp [put, find?, Ne.symm h]
  | cons e rest ih =>
    obtain ⟨k, v⟩ := e
    by_cases hk : k = key
    · subst hk
      simp [put, find?, Ne.symm h]
    · simp [put, hk, find?, ih]

theorem mem_of_find? {key : String} {v : Json} {fs : Fields} (h : find? key fs = some v) :
    (key, v) ∈ fs := by
  induction fs with
  | nil => simp [find?] at h
  | cons e rest ih =>
    obtain ⟨k, w⟩ := e
    by_cases hk : k = key
    · obtain rfl : w = v := by simpa [find?, hk] using h
      simp [hk]
    · exact List.mem_cons_of_mem _ (ih (by simpa [find?, hk] using h))

theorem exists_find?_of_mem {e : String × Json} {fs : Fields} (h : e ∈ fs) :
    ∃ v, find? e.1 fs = some v := by
  induction fs with
  | nil => cases h
  | cons e' rest ih =>
    obtain ⟨k, w⟩ := e'
    by_cases hk : k = e.1
    · exact ⟨w, by simp [find?, hk]⟩
    · obtain ⟨v, hv⟩ := ih ((List.mem_cons.mp h).resolve_left fun heq => hk (by rw [heq]))
      exact ⟨v, by rw [find?, if_neg hk, hv]⟩

theorem find?_append (key : String) (fs gs : Fields) :
    find? key (fs ++ gs) = (find? key fs).or (find? key gs) := by
  induction fs with
  | nil => rfl
  | cons e fs ih =>
    obtain ⟨k, v⟩ := e
    rw [List.cons_append, find?, find?]
    split
    · rfl
    · exact ih

end Fields

namespace Json

/-! ### Views -/

def asString? : Json → Option String
  | string s => some s
  | _ => none

def asObject? : Json → Option Fields
  | object fs => some fs
  | _ => none

def asBool? : Json → Option Bool
  | bool b => some b
  | _ => none

/-- The integer `i` of `number (.int i)`, if `low ≤ i ≤ high`. -/
def asInt? (low high : Int) : Json → Option Int
  | number (.int i) => if low ≤ i ∧ i ≤ high then some i else none
  | _ => none

/-- The integer of a number literal `0 ≤ i < 2 ^ 64`. -/
def asWord64? (j : Json) : Option Nat :=
  (j.asInt? 0 0xffffffffffffffff).map Int.toNat

/-- Gives `none` for null, and `some v` for every other `v`. -/
def notNull? : Json → Option Json
  | null => none
  | v => some v

/-- Gives `f a` for `some a`, and null for `none`. -/
def ofOption (f : α → Json) : Option α → Json
  | some a => f a
  | none => null

def ofNat (n : Nat) : Json := number (.int n)

theorem asString?_eq_some_iff {v : Json} {s : String} : v.asString? = some s ↔ v = string s := by
  cases v <;> simp [asString?]

theorem notNull?_eq_some_iff {v v' : Json} : v.notNull? = some v' ↔ v = v' ∧ v ≠ null := by
  cases v <;> simp [notNull?]

theorem asWord64?_eq_some_iff {v : Json} {n : Nat} :
    v.asWord64? = some n ↔ v = ofNat n ∧ n ≤ 0xffffffffffffffff := by
  rw [asWord64?, Option.map_eq_some_iff]
  constructor
  · rintro ⟨i, hi, rfl⟩
    unfold asInt? at hi
    split at hi
    · next j =>
      split at hi
      · next hrange =>
        obtain rfl := Option.some.inj hi
        have hnat : ((j.toNat : Nat) : Int) = j := by omega
        exact ⟨by rw [ofNat, hnat], by omega⟩
      · cases hi
    · cases hi
  · rintro ⟨rfl, hlt⟩
    refine ⟨n, ?_, by omega⟩
    rw [ofNat, asInt?, if_pos (by omega)]

/-- A double as a value; an infinite or undefined one has no spelling and becomes null. -/
def ofDouble (d : Double) : Json :=
  match d.finite? with
  | some f => number (.double f)
  | none => null

/-! ### Equality -/

mutual

/-- Whether two values have the same form.  Arrays are equal item by item (`equalItems`), and
objects when they have equally many fields and `equalFields` finds each of the one in the other. -/
def equal : Json → Json → Bool
  | null, null => true
  | bool a, bool b => a == b
  | number a, number b => a.equal b
  | string a, string b => a == b
  | array xs, array ys => equalItems xs ys
  | object fs, object gs => equalFields [] fs gs && gs.all fun g => Fields.has g.1 fs
  | _, _ => false

def equalItems : List Json → List Json → Bool
  | [], [] => true
  | x :: xs, y :: ys => equal x y && equalItems xs ys
  | _, _ => false

/-- Whether `find?` gives equal values for every key of the first object in both; a key in `seen`
stood earlier in the list and has been compared. -/
def equalFields (seen : List String) : List (String × Json) → Fields → Bool
  | [], _ => true
  | (k, v) :: rest, gs =>
    (seen.contains k || match Fields.find? k gs with
      | some w => equal v w
      | none => false) && equalFields (k :: seen) rest gs

end

end Json

end TriggerFlow
