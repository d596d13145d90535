import Mathlib.Data.List.Basic
import Mathlib.Data.List.Induction
import TriggerFlow.Execution
import TriggerFlow.Proofs.Keys
import TriggerFlow.Proofs.Uuid
/-!
# The results in a context

What a context should hold is said without reference to how it is made: the payload, and after it
under `actionsKey`, for each node that has a result, the latest one, the nodes in the order of their
first results (`contextOf`).  One more result written into such a context makes the context of one
more result (`withResult_contextOf`).
-/

namespace TriggerFlow

/-! ### Fields -/

namespace Fields

variable {key : String} {value : Json} {fs : Fields}

theorem find?_eq_none_of_has (h : has key fs = false) : find? key fs = none := by
  simpa [has] using h

theorem find?_append_of_none (h : find? key fs = none) (gs : Fields) :
    find? key (fs ++ gs) = find? key gs := by
  rw [find?_append, h, Option.none_or]

/-- Where the first fields do not have the key, `put` goes past them. -/
theorem put_append_of_none (h : find? key fs = none) (value : Json) (gs : Fields) :
    put key value (fs ++ gs) = fs ++ put key value gs := by
  induction fs with
  | nil => rfl
  | cons f fs ih =>
    obtain ⟨k, v⟩ := f
    by_cases hk : k = key
    · simp [find?, hk] at h
    · simp only [find?, hk, if_false] at h
      simp only [List.cons_append, put, hk, if_false]
      rw [ih h]

end Fields

namespace Execution

/-! ### Entries of nodes -/

/-- What `entry` gives for each of the nodes, under the texts of their identifiers. -/
def entries (entry : NodeId → Option Json) (ids : List NodeId) : Fields :=
  ids.filterMap fun id => (entry id).map fun v => (id.text, v)

section Entries

variable {entry : NodeId → Option Json} {ids : List NodeId} {id node : NodeId} {v w : Json}

theorem entries_cons_of_some (h : entry id = some w) (ids : List NodeId) :
    entries entry (id :: ids) = (id.text, w) :: entries entry ids := by
  rw [entries, List.filterMap_cons, h]
  rfl

theorem entries_cons_of_none (h : entry id = none) (ids : List NodeId) :
    entries entry (id :: ids) = entries entry ids := by
  rw [entries, List.filterMap_cons, h]
  rfl

theorem entries_append (ids ids' : List NodeId) :
    entries entry (ids ++ ids') = entries entry ids ++ entries entry ids' := List.filterMap_append

theorem find?_entries_of_notMem (h : node ∉ ids) :
    Fields.find? node.text (entries entry ids) = none := by
  induction ids with
  | nil => rfl
  | cons id ids ih =>
    obtain ⟨hne, hrest⟩ := not_or.mp (List.mem_cons.not.mp h)
    cases hentry : entry id with
    | none => rw [entries_cons_of_none hentry, ih hrest]
    | some w =>
      have htext : id.text ≠ node.text := fun htext => hne (Uuid.text_injective htext).symm
      rw [entries_cons_of_some hentry, Fields.find?, if_neg htext, ih hrest]

theorem entries_update_of_notMem (h : node ∉ ids) :
    entries (Function.update entry node (some v)) ids = entries entry ids := by
  apply List.filterMap_congr
  intro id hid
  have hne : id ≠ node := fun heq => h (heq ▸ hid)
  rw [Function.update_of_ne hne]

/-- Writing under the text of a node that is among `ids` updates `entry`. -/
theorem put_entries_of_mem (hnodup : ids.Nodup) (hsome : ∀ id ∈ ids, (entry id).isSome = true)
    (h : node ∈ ids) :
    Fields.put node.text v (entries entry ids) =
      entries (Function.update entry node (some v)) ids := by
  induction ids with
  | nil => simp at h
  | cons id ids ih =>
    obtain ⟨hnew, hnodup⟩ := List.nodup_cons.mp hnodup
    obtain ⟨hid, hsome⟩ := List.forall_mem_cons.mp hsome
    obtain ⟨w, hw⟩ := Option.isSome_iff_exists.mp hid
    rw [entries_cons_of_some hw]
    by_cases heq : id = node
    · subst heq
      rw [Fields.put, if_pos rfl, entries_cons_of_some (Function.update_self ..),
        entries_update_of_notMem hnew]
    · have htext : id.text ≠ node.text := fun htext => heq (Uuid.text_injective htext)
      have hmem : node ∈ ids := (List.mem_cons.mp h).resolve_left (Ne.symm heq)
      rw [Fields.put, if_neg htext, ih hnodup hsome hmem,
        entries_cons_of_some ((Function.update_of_ne heq ..).trans hw)]

/-- Writing under the text of another node appends it to `ids` and updates `entry`. -/
theorem put_entries_of_notMem (h : node ∉ ids) :
    Fields.put node.text v (entries entry ids) =
      entries (Function.update entry node (some v)) (ids ++ [node]) := by
  have hnone : Fields.find? node.text (entries entry ids) = none := find?_entries_of_notMem h
  have hput := Fields.put_append_of_none hnone v []
  have hlast : entries (Function.update entry node (some v)) [node] = [(node.text, v)] :=
    entries_cons_of_some (Function.update_self ..) []
  rw [List.append_nil] at hput
  rw [hput, entries_append, hlast, entries_update_of_notMem h]
  rfl

theorem keys_entries (h : ∀ id ∈ ids, (entry id).isSome = true) :
    Fields.keys (entries entry ids) = ids.map Uuid.text := by
  induction ids with
  | nil => rfl
  | cons id ids ih =>
    obtain ⟨hid, hrest⟩ := List.forall_mem_cons.mp h
    obtain ⟨v, hv⟩ := Option.isSome_iff_exists.mp hid
    have hkeys : (entries entry ids).map Prod.fst = ids.map Uuid.text := ih hrest
    rw [entries_cons_of_some hv, Fields.keys, List.map_cons, hkeys, List.map_cons]

end Entries

/-! ### Results of nodes -/

/-- The latest result of a node among those that came one after the other. -/
def latest? (results : List (NodeId × Json)) (id : NodeId) : Option Json :=
  results.reverse.lookup id

/-- For each node that has a result the latest one, the nodes in the order of their first results.
-/
def collected (results : List (NodeId × Json)) : Fields :=
  entries (latest? results) (results.map Prod.fst).eraseDups

/-- The context of a run on a payload once these results are there: the payload itself without
results, and otherwise the payload followed by the results `collected` under `actionsKey`. -/
def contextOf (payload : Fields) (results : List (NodeId × Json)) : Context :=
  if results = [] then payload else payload ++ [(actionsKey, .object (collected results))]

variable {results : List (NodeId × Json)} {payload : Fields}

theorem latest?_concat (results : List (NodeId × Json)) (node : NodeId) (v : Json) :
    latest? (results ++ [(node, v)]) = Function.update (latest? results) node (some v) := by
  funext id
  rw [latest?, List.reverse_concat, List.lookup_cons]
  by_cases h : id = node
  · subst h
    rw [Function.update_self, beq_self_eq_true]
  · rw [Function.update_of_ne h, beq_false_of_ne h, latest?]

theorem isSome_latest? {id : NodeId} (h : id ∈ results.map Prod.fst) :
    (latest? results id).isSome = true := by
  induction results using List.reverseRecOn with
  | nil => simp at h
  | append_singleton results r ih =>
    obtain ⟨node, v⟩ := r
    rw [latest?_concat]
    by_cases heq : id = node
    · rw [heq, Function.update_self, Option.isSome_some]
    · rw [List.map_append, List.mem_append] at h
      rw [Function.update_of_ne heq]
      exact ih (h.resolve_right (by simpa using heq))

/-- One more result is `put` where the results of its node stand, or behind all others. -/
theorem collected_concat (results : List (NodeId × Json)) (node : NodeId) (v : Json) :
    collected (results ++ [(node, v)]) = Fields.put node.text v (collected results) := by
  rw [collected, collected, List.map_append, List.map_singleton, eraseDups_concat, latest?_concat]
  split
  · next hmem =>
    refine (put_entries_of_mem (nodup_eraseDups _) ?_ (List.mem_eraseDups.mpr hmem)).symm
    exact fun id hid => isSome_latest? (List.mem_eraseDups.mp hid)
  · next hnew =>
    exact (put_entries_of_notMem fun hmem => hnew (List.mem_eraseDups.mp hmem)).symm

theorem keys_collected (results : List (NodeId × Json)) :
    Fields.keys (collected results) = (results.map Prod.fst).eraseDups.map Uuid.text :=
  keys_entries fun _ hid => isSome_latest? (List.mem_eraseDups.mp hid)

/-- There is an entry for every node that has a result. -/
theorem mem_keys_collected {key : String} :
    key ∈ Fields.keys (collected results) ↔ ∃ node v, (node, v) ∈ results ∧ node.text = key := by
  rw [keys_collected]
  simp only [List.mem_map, List.mem_eraseDups, Prod.exists, exists_and_right, exists_eq_right]

/-- Recording one more result in `contextOf` some results makes `contextOf` them all, if the payload
leaves `actionsKey` free. -/
theorem withResult_contextOf (free : Fields.has actionsKey payload = false) (node : NodeId)
    (v : Json) :
    withResult (contextOf payload results) node v =
      contextOf payload (results ++ [(node, v)]) := by
  have hnone := Fields.find?_eq_none_of_has free
  have hmore : contextOf payload (results ++ [(node, v)]) =
      payload ++ [(actionsKey, .object (Fields.put node.text v (collected results)))] := by
    rw [contextOf, if_neg (by simp), collected_concat]
  rw [hmore, withResult, resultsIn]
  by_cases h : results = []
  · subst h
    rw [contextOf, if_pos rfl, hnone]
    have hput := Fields.put_append_of_none hnone
      (.object (Fields.put node.text v (collected []))) []
    rwa [List.append_nil] at hput
  · rw [contextOf, if_neg h, Fields.find?_append_of_none hnone, Fields.put_append_of_none hnone]
    simp [Fields.find?, Fields.put, Json.asObject?]

/-- The results that a context holds, if it holds any. -/
def heldIn (context : Context) : Fields := (resultsIn context).getD []

theorem heldIn_contextOf (free : Fields.has actionsKey payload = false)
    (results : List (NodeId × Json)) : heldIn (contextOf payload results) = collected results := by
  have hnone := Fields.find?_eq_none_of_has free
  by_cases h : results = []
  · subst h
    rw [contextOf, if_pos rfl, heldIn, resultsIn, hnone]
    rfl
  · rw [contextOf, if_neg h, heldIn, resultsIn, Fields.find?_append_of_none hnone]
    simp [Fields.find?, Json.asObject?]

end Execution

end TriggerFlow
