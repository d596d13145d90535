import TriggerFlow.Builtin.Actions
import TriggerFlow.Proofs.Json.Strings
import TriggerFlow.Proofs.Template
/-!
# Rendered values

A value is rendered string by string, and nothing else of it changes: `renderValue context v` is the
value `w` with `w.shape = v.shape` whose strings are those of `v`, each rendered.  A string without
marks that open a placeholder stays as it is, and of a context no more counts than what it has at
the paths that the strings `Names`.  Main statement: `renderValue_in_place`.
-/

namespace TriggerFlow.Template

variable {template : String} {context context' : Fields} {d : Decomposition}

/-! ### The paths of a template -/

/-- The template has a placeholder for the path, white space around it left out. -/
def Names (template path : String) : Prop :=
  ∃ d : Decomposition, d.Splits template.toList ∧
    ∃ p ∈ d.pieces, Text.trim (String.ofList p.path) = path

/-- Two contexts have the same at all paths that the template `Names`. -/
def AgreeFor (context context' : Fields) (template : String) : Prop :=
  ∀ path, Names template path → Path.lookup context path = Path.lookup context' path

/-- A decomposition is filled alike from contexts that have the same at the paths of its pieces. -/
theorem Decomposition.fill_congr
    (h : ∀ p ∈ d.pieces, value context p.path = value context' p.path) :
    d.fill context = d.fill context' := by
  have hpieces : d.pieces.flatMap (fun p => p.literal ++ value context p.path) =
      d.pieces.flatMap fun p => p.literal ++ value context' p.path :=
    List.flatMap_congr fun p hp => by rw [h p hp]
  rw [fill, fill, hpieces]

theorem render_of_agreeFor (h : AgreeFor context context' template) :
    render template context = render template context' := by
  obtain ⟨d, hd⟩ := exists_splits template.toList
  have hvalues : ∀ p ∈ d.pieces, value context p.path = value context' p.path := by
    intro p hp
    rw [value, value, h _ ⟨d, hd, p, hp, rfl⟩]
  rw [hd.render_eq, hd.render_eq, Decomposition.fill_congr hvalues]

/-- The paths that a template `Names` are those that `parse` finds. -/
theorem names_iff {path : String} :
    Names template path ↔
      ∃ p, .placeholder p ∈ parse template.toList ∧ Text.trim (String.ofList p) = path := by
  have hparts (d : Decomposition) (p : List Char) :
      .placeholder p ∈ d.parts ↔ ∃ q ∈ d.pieces, q.path = p := by
    simp [Decomposition.parts, eq_comm]
  constructor
  · rintro ⟨d, hd, q, hq, htrim⟩
    exact ⟨q.path, hd.parse_eq ▸ (hparts d q.path).mpr ⟨q, hq, rfl⟩, htrim⟩
  · rintro ⟨p, hp, htrim⟩
    obtain ⟨d, hd⟩ := exists_splits template.toList
    obtain ⟨q, hq, rfl⟩ := (hparts d p).mp (hd.parse_eq ▸ hp)
    exact ⟨d, hd, q, hq, htrim⟩

/-- A template without marks that open a placeholder is rendered as it stands. -/
theorem render_of_unmarked (h : ¬ opening <:+: template.toList) (context : Fields) :
    render template context = template := by
  have hsplits : (⟨[], template.toList⟩ : Decomposition).Splits template.toList :=
    ⟨rfl, by simp, .inl h⟩
  rw [hsplits.render_eq]
  exact String.ofList_toList

/-! ### Values -/

theorem renderItems_eq (context : Fields) (vs : List Json) :
    renderItems context vs = vs.map (renderValue context) := by
  induction vs with
  | nil => rfl
  | cons v vs ih => rw [renderItems, ih, List.map_cons]

theorem renderFields_eq (context : Fields) (fs : Fields) :
    renderFields context fs = fs.map fun e => (e.1, renderValue context e.2) := by
  induction fs with
  | nil => rfl
  | cons e fs ih =>
    obtain ⟨k, v⟩ := e
    rw [renderFields, ih, List.map_cons]

/-- Rendering a value is mapping its strings with `render`. -/
theorem renderValue_eq (context : Fields) (v : Json) :
    renderValue context v = v.mapStrings fun s => render s context := by
  induction v with
  | null => rfl
  | bool b => rfl
  | number n => rfl
  | string s => rfl
  | array items ih =>
    rw [renderValue, renderItems_eq, Json.mapStrings, Json.mapItems_eq, List.map_congr_left ih]
  | object fields ih =>
    rw [renderValue, renderFields_eq, Json.mapStrings, Json.mapFields_eq]
    congr 1
    exact List.map_congr_left fun e he => congrArg (Prod.mk e.1) (ih e he)

/-- The value `renderValue context v` is the only one with the `shape` of `v` and its `strings`,
each rendered.  A value without marks in its strings stays as it is, contexts that `AgreeFor` all
strings render it alike, and `Builtin.setVariables` answers with it. -/
theorem renderValue_in_place (context : Fields) (v : Json) :
    (∀ w, w = renderValue context v ↔
      w.shape = v.shape ∧ w.strings = v.strings.map fun s => render s context) ∧
    ((∀ s ∈ v.strings, ¬ opening <:+: s.toList) → renderValue context v = v) ∧
    (∀ context', (∀ s ∈ v.strings, AgreeFor context context' s) →
      renderValue context v = renderValue context' v) ∧
    ∀ config storage, Fields.find? "values" config = some v → v.asObject?.isSome = true →
      Builtin.setVariables.run config context storage =
        (.done (renderValue context v), storage) := by
  refine ⟨fun w => ?_, fun h => ?_, fun context' h => ?_, fun config storage hvalues hobject => ?_⟩
  · have hshape := Json.shape_mapStrings (fun s => render s context) v
    have hstrings := Json.strings_mapStrings (fun s => render s context) v
    rw [renderValue_eq]
    constructor
    · rintro rfl
      exact ⟨hshape, hstrings⟩
    · rintro ⟨hshape', hstrings'⟩
      exact Json.eq_of_shape_of_strings (hshape'.trans hshape.symm) (hstrings'.trans hstrings.symm)
  · calc
      renderValue context v = v.mapStrings fun s => render s context := renderValue_eq context v
      _ = v.mapStrings id := Json.mapStrings_congr fun s hs => render_of_unmarked (h s hs) context
      _ = v := Json.mapStrings_id v
  · rw [renderValue_eq, renderValue_eq]
    exact Json.mapStrings_congr fun s hs => render_of_agreeFor (h s hs)
  · obtain ⟨fields, hfields⟩ := Option.isSome_iff_exists.mp hobject
    cases v with
    | object fields' =>
      obtain rfl := Option.some.inj hfields
      unfold Builtin.setVariables Action.ofFunction Builtin.setVariablesVerdict
      simp only [hvalues, Option.bind_some, Json.asObject?]
    | _ => simp [Json.asObject?] at hfields

/-- A value with a placeholder in one of its strings, and the same marks in a key. -/
def greeting : Json :=
  .object
    [("\x7b\x7b name \x7d\x7d",
      .array [.string "Hi \x7b\x7b name \x7d\x7d!", .number (.int 1), .null]),
     ("note", .string "plain")]

theorem names_greeting {s path : String} (hs : s ∈ greeting.strings) (h : Names s path) :
    path = "name" := by
  have hstrings : greeting.strings = ["Hi \x7b\x7b name \x7d\x7d!", "plain"] := rfl
  obtain ⟨p, hp, rfl⟩ := names_iff.mp h
  rw [hstrings] at hs
  obtain rfl | rfl : s = "Hi \x7b\x7b name \x7d\x7d!" ∨ s = "plain" := by simpa using hs
  · have hparts : parse "Hi \x7b\x7b name \x7d\x7d!".toList =
        [.literal "Hi ".toList, .placeholder " name ".toList, .literal "!".toList] := by
      decide +kernel
    rw [hparts] at hp
    obtain rfl : p = " name ".toList := by simpa using hp
    decide +kernel
  · have hparts : parse "plain".toList = [.literal "plain".toList] := by decide +kernel
    rw [hparts] at hp
    simp at hp

/-- The string of `greeting` is rendered and its key is not, a string without marks stays as it is,
and what else there is in the context plays no part. -/
theorem greeting_in_place :
    renderValue [("name", .string "Ada")] greeting =
      .object
        [("\x7b\x7b name \x7d\x7d", .array [.string "Hi Ada!", .number (.int 1), .null]),
         ("note", .string "plain")] ∧
    renderValue [("name", .string "Ada")] (.string "plain") = .string "plain" ∧
    renderValue [("name", .string "Ada")] greeting =
      renderValue [("age", .number (.int 36)), ("name", .string "Ada")] greeting := by
  refine ⟨?_, ?_, ?_⟩
  · symm
    exact ((renderValue_in_place _ greeting).1 _).mpr ⟨rfl, by decide +kernel⟩
  · exact (renderValue_in_place _ (.string "plain")).2.1 (by decide +kernel)
  · refine (renderValue_in_place _ greeting).2.2.1 _ fun s hs path hpath => ?_
    obtain rfl := names_greeting hs hpath
    rfl

end TriggerFlow.Template
