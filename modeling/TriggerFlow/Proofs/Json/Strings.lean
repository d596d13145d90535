import Mathlib.Data.List.Basic
import TriggerFlow.Json.Value
/-!
# The strings in a value

`Json.strings` lists the strings in a value from left to right, and `Json.mapStrings f` puts `f s`
in the place of each string `s`.  Keys are no strings in this sense.  What is left of a value once
its strings are emptied is its shape (`Json.shape`): how long its arrays are, which keys its objects
have and in which order, and all that is neither a string nor contains one.

Mapping strings keeps the shape and maps the list (`shape_mapStrings`, `strings_mapStrings`), and
that is all there is to say, for a value is determined by its shape and its strings
(`eq_of_shape_of_strings`).
-/

namespace TriggerFlow.Json

/-! ### Definitions -/

mutual

/-- The strings in a value, from left to right. -/
def strings : Json → List String
  | string s => [s]
  | array items => stringsOfItems items
  | object fields => stringsOfFields fields
  | _ => []

def stringsOfItems : List Json → List String
  | [] => []
  | v :: vs => strings v ++ stringsOfItems vs

def stringsOfFields : List (String × Json) → List String
  | [] => []
  | (_, v) :: rest => strings v ++ stringsOfFields rest

end

mutual

/-- A value with `f s` in the place of each of its strings `s`. -/
def mapStrings (f : String → String) : Json → Json
  | string s => string (f s)
  | array items => array (mapItems f items)
  | object fields => object (mapFields f fields)
  | v => v

def mapItems (f : String → String) : List Json → List Json
  | [] => []
  | v :: vs => mapStrings f v :: mapItems f vs

def mapFields (f : String → String) : List (String × Json) → List (String × Json)
  | [] => []
  | (k, v) :: rest => (k, mapStrings f v) :: mapFields f rest

end

def shape (v : Json) : Json := v.mapStrings fun _ => ""

variable {f g : String → String} {v w : Json} {vs ws : List Json} {fs gs : Fields}

theorem stringsOfItems_eq (vs : List Json) : stringsOfItems vs = vs.flatMap strings := by
  induction vs with
  | nil => rfl
  | cons v vs ih => rw [stringsOfItems, ih, List.flatMap_cons]

theorem stringsOfFields_eq (fs : Fields) :
    stringsOfFields fs = (fs.map Prod.snd).flatMap strings := by
  induction fs with
  | nil => rfl
  | cons e fs ih =>
    obtain ⟨k, v⟩ := e
    rw [stringsOfFields, ih, List.map_cons, List.flatMap_cons]

theorem mapItems_eq (f : String → String) (vs : List Json) :
    mapItems f vs = vs.map (mapStrings f) := by
  induction vs with
  | nil => rfl
  | cons v vs ih => rw [mapItems, ih, List.map_cons]

theorem mapFields_eq (f : String → String) (fs : Fields) :
    mapFields f fs = fs.map fun e => (e.1, mapStrings f e.2) := by
  induction fs with
  | nil => rfl
  | cons e fs ih =>
    obtain ⟨k, v⟩ := e
    rw [mapFields, ih, List.map_cons]

theorem mem_strings_array (h : v ∈ vs) {s : String} (hs : s ∈ strings v) :
    s ∈ strings (array vs) := by
  rw [strings, stringsOfItems_eq]
  exact List.mem_flatMap_of_mem h hs

theorem mem_strings_object {e : String × Json} (h : e ∈ fs) {s : String} (hs : s ∈ strings e.2) :
    s ∈ strings (object fs) := by
  rw [strings, stringsOfFields_eq]
  exact List.mem_flatMap_of_mem (List.mem_map_of_mem h) hs

/-! ### Mapping strings -/

/-- Mapping commutes with listing: `(v.mapStrings f).strings = v.strings.map f`. -/
theorem strings_mapStrings (f : String → String) (v : Json) :
    (v.mapStrings f).strings = v.strings.map f := by
  induction v with
  | null => rfl
  | bool b => rfl
  | number n => rfl
  | string s => rfl
  | array items ih =>
    rw [mapStrings, mapItems_eq, strings, strings, stringsOfItems_eq, stringsOfItems_eq,
      List.flatMap_map, List.map_flatMap]
    exact List.flatMap_congr ih
  | object fields ih =>
    rw [mapStrings, mapFields_eq, strings, strings, stringsOfFields_eq, stringsOfFields_eq,
      List.map_map, List.flatMap_map, List.flatMap_map, List.map_flatMap]
    exact List.flatMap_congr ih

/-- Mapping depends only on what `f` does to the strings that are there. -/
theorem mapStrings_congr (h : ∀ s ∈ v.strings, f s = g s) : v.mapStrings f = v.mapStrings g := by
  induction v with
  | null => rfl
  | bool b => rfl
  | number n => rfl
  | string s => rw [mapStrings, mapStrings, h s (List.mem_singleton.mpr rfl)]
  | array items ih =>
    rw [mapStrings, mapStrings, mapItems_eq, mapItems_eq]
    congr 1
    exact List.map_congr_left fun v hv => ih v hv fun s hs => h s (mem_strings_array hv hs)
  | object fields ih =>
    rw [mapStrings, mapStrings, mapFields_eq, mapFields_eq]
    congr 1
    refine List.map_congr_left fun e he => ?_
    rw [ih e he fun s hs => h s (mem_strings_object he hs)]

theorem mapStrings_id (v : Json) : v.mapStrings id = v := by
  induction v with
  | null => rfl
  | bool b => rfl
  | number n => rfl
  | string s => rfl
  | array items ih =>
    rw [mapStrings, mapItems_eq, List.map_congr_left ih, List.map_id']
  | object fields ih =>
    have hfields : fields.map (fun e => (e.1, mapStrings id e.2)) = fields.map fun e => e :=
      List.map_congr_left fun e he => by rw [ih e he]
    rw [mapStrings, mapFields_eq, hfields, List.map_id']

theorem mapStrings_mapStrings (f g : String → String) (v : Json) :
    (v.mapStrings f).mapStrings g = v.mapStrings (g ∘ f) := by
  induction v with
  | null => rfl
  | bool b => rfl
  | number n => rfl
  | string s => rfl
  | array items ih =>
    rw [mapStrings, mapStrings, mapStrings, mapItems_eq, mapItems_eq, mapItems_eq, List.map_map]
    congr 1
    exact List.map_congr_left ih
  | object fields ih =>
    rw [mapStrings, mapStrings, mapStrings, mapFields_eq, mapFields_eq, mapFields_eq, List.map_map]
    congr 1
    exact List.map_congr_left fun e he => congrArg (Prod.mk e.1) (ih e he)

theorem shape_mapStrings (f : String → String) (v : Json) : (v.mapStrings f).shape = v.shape :=
  mapStrings_mapStrings f _ v

/-! ### Shape and strings -/

theorem length_strings_of_shape (h : v.shape = w.shape) :
    v.strings.length = w.strings.length := by
  have hstrings := congrArg (fun u => (strings u).length) h
  simpa [shape, strings_mapStrings] using hstrings

theorem eq_of_shapes (ih : ∀ v ∈ vs, ∀ w, v.shape = w.shape → v.strings = w.strings → v = w)
    (hshapes : vs.map shape = ws.map shape)
    (hstrings : vs.flatMap strings = ws.flatMap strings) : vs = ws := by
  induction vs generalizing ws with
  | nil => exact (List.map_eq_nil_iff.mp hshapes.symm).symm
  | cons v vs ihrest =>
    cases ws with
    | nil => simp at hshapes
    | cons w ws =>
      obtain ⟨hshape, hshapes⟩ := List.cons.inj hshapes
      rw [List.flatMap_cons, List.flatMap_cons] at hstrings
      -- the first items have equally many strings, so that the row splits behind them
      obtain ⟨hfirst, hrest⟩ := List.append_inj hstrings (length_strings_of_shape hshape)
      obtain ⟨ihfirst, ih⟩ := List.forall_mem_cons.mp ih
      rw [ihfirst w hshape hfirst, ihrest ih hshapes hrest]

theorem shape_array (vs : List Json) : (array vs).shape = array (vs.map shape) := by
  rw [shape, mapStrings, mapItems_eq]
  rfl

theorem shape_object (fs : Fields) :
    (object fs).shape = object (fs.map fun e => (e.1, e.2.shape)) := by
  rw [shape, mapStrings, mapFields_eq]
  rfl

/-- A value is determined by its `shape` and its `strings`. -/
theorem eq_of_shape_of_strings (hshape : v.shape = w.shape) (hstrings : v.strings = w.strings) :
    v = w := by
  induction v generalizing w with
  | null => cases w <;> simp_all [shape, mapStrings]
  | bool b => cases w <;> simp_all [shape, mapStrings]
  | number n => cases w <;> simp_all [shape, mapStrings]
  | string s => cases w <;> simp_all [shape, mapStrings, strings]
  | array items ih =>
    cases w with
    | array items' =>
      rw [shape_array, shape_array, array.injEq] at hshape
      rw [strings, strings, stringsOfItems_eq, stringsOfItems_eq] at hstrings
      rw [eq_of_shapes (fun v hv w => ih v hv) hshape hstrings]
    | _ => simp [shape, mapStrings] at hshape
  | object fields ih =>
    cases w with
    | object fields' =>
      rw [shape_object, shape_object, object.injEq] at hshape
      rw [strings, strings, stringsOfFields_eq, stringsOfFields_eq] at hstrings
      -- keys and values are compared apart
      have hkeys := congrArg (List.map Prod.fst) hshape
      have hshapes := congrArg (List.map Prod.snd) hshape
      simp only [List.map_map] at hkeys hshapes
      have hvalues : fields.map Prod.snd = fields'.map Prod.snd := by
        refine eq_of_shapes ?_ (by rw [List.map_map, List.map_map]; exact hshapes) hstrings
        intro v hv w
        obtain ⟨e, he, rfl⟩ := List.mem_map.mp hv
        exact ih e he
      have hfields : fields.unzip = fields'.unzip := by
        rw [List.unzip_eq_map, List.unzip_eq_map, hvalues]
        exact congrArg (·, _) hkeys
      rw [← List.zip_unzip fields, hfields, List.zip_unzip]
    | _ => simp [shape, mapStrings] at hshape

end TriggerFlow.Json
