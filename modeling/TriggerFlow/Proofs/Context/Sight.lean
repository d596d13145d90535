import TriggerFlow.Condition
import TriggerFlow.Proofs.Context.Results
import TriggerFlow.Proofs.Template.Values
/-!
# What a context shows

What is read of a context is read at dot paths.  The identifier of a node is one segment of a path,
since there is no dot in its text (`Path.segments_resultPath`), and no two nodes share it.  So the
path of a node's result leads to what was written down for this node last
(`Execution.lookup_below_withResult`), and a result that is written down changes nothing at the
paths of other nodes (`Execution.lookup_withResult_other`) and outside the reserved key
(`Path.lookup_of_same`).

The context of a run therefore shows its payload and the latest results (`shows_contextOf`), and
so conditions and templates read them (`Shows.holds_eq`, `Shows.render_eq`).
-/

namespace TriggerFlow

/-! ### Paths that do not lead to results -/

/-- The path does not begin with `actionsKey`. -/
def Path.OffResults (path : String) : Prop :=
  (segments path.toList).head? ≠ some actionsKey.toList

/-- A condition, if the settings are one, does not read below `actionsKey`. -/
def Condition.ReadsPayload (config : Config) : Prop :=
  ∀ c, ofConfig? config = some c → (Path.segments c.field.toList).head? ≠ some actionsKey.toList

/-- Two contexts hold the same under every key but `actionsKey`. -/
def SameBesideResults (context context' : Context) : Prop :=
  ∀ key, key ≠ actionsKey → Fields.find? key context = Fields.find? key context'

theorem Path.lookup_of_same {context context' : Context} (h : SameBesideResults context context')
    {path : String} (hpath : OffResults path) :
    lookup context path = lookup context' path := by
  unfold lookup lookupChars
  cases hsegments : segments path.toList with
  | nil => exact absurd hsegments (segments_ne_nil _)
  | cons s ss =>
    have hkey : String.ofList s ≠ actionsKey := by
      rintro heq
      rw [OffResults, hsegments, List.head?_cons, ← heq, String.toList_ofList] at hpath
      exact hpath rfl
    rw [descend, descend, child?, child?, h _ hkey]

theorem Condition.evaluate_of_same {config : Config} {context context' : Context}
    (reads : ReadsPayload config) (h : SameBesideResults context context') :
    evaluate config context = evaluate config context' := by
  unfold evaluate
  cases hcondition : ofConfig? config with
  | none => rfl
  | some c =>
    dsimp only
    rw [holds, holds, Path.lookup_of_same h (reads c hcondition)]

theorem Execution.same_withResult (context : Context) (node : NodeId) (v : Json) :
    SameBesideResults (withResult context node v) context :=
  fun _ hkey => Fields.find?_put_ne hkey _ _

/-! ### Results read at paths -/

/-- The path `actions.<node>` at which the result of a node stands. -/
def Execution.resultPath (node : NodeId) : String := actionsKey ++ "." ++ node.text

theorem Path.segments_resultPath (node : NodeId) :
    segments (Execution.resultPath node).toList = [actionsKey.toList, node.chars] := by
  have hchars : (Execution.resultPath node).toList = actionsKey.toList ++ '.' :: node.chars := by
    simp [Execution.resultPath, Uuid.text]
  have hkey : '.' ∉ actionsKey.toList := by decide
  rw [hchars, segments_append, segments_of_not_mem hkey, segments_of_not_mem node.dot_notMem_chars]
  rfl

namespace Execution

/-- The result of a node that a context holds. -/
def resultIn (context : Context) (node : NodeId) : Option Json :=
  (resultsIn context).bind fun results => Fields.find? node.text results

/-- Under `actionsKey` a context holds an object, if anything. -/
def OpenToResults (context : Context) : Prop :=
  ∀ v, Fields.find? actionsKey context = some v → ∃ results, v = .object results

variable {context : Context} {node other : NodeId} {v : Json}

/-- A recorded result takes the place of the one its node had: `resultIn` is updated at `node`. -/
theorem resultIn_withResult (context : Context) (node : NodeId) (v : Json) :
    resultIn (withResult context node v) = Function.update (resultIn context) node (some v) := by
  have hresults : resultsIn (withResult context node v) =
      some (Fields.put node.text v ((resultsIn context).getD [])) := by
    rw [resultsIn, withResult, Fields.find?_put_self]
    rfl
  funext id
  rw [resultIn, hresults, Option.bind_some]
  by_cases h : id = node
  · rw [h, Fields.find?_put_self, Function.update_self]
  · rw [Fields.find?_put_ne (fun htext => h (Uuid.text_injective htext)), Function.update_of_ne h,
      resultIn]
    cases resultsIn context <;> rfl

theorem actionResult_recordAction (e : Execution) (node : NodeId) (v : Json) :
    (e.recordAction node v).actionResult = Function.update e.actionResult node (some v) :=
  resultIn_withResult e.context node v

theorem openToResults_withResult (context : Context) (node : NodeId) (v : Json) :
    OpenToResults (withResult context node v) := by
  intro w hw
  rw [withResult, Fields.find?_put_self] at hw
  exact ⟨_, (Option.some.inj hw).symm⟩

/-- A path whose first two segments are `actionsKey` and the text of a node leads into what the
context holds for this node. -/
theorem lookup_of_segments (room : OpenToResults context) {path : String}
    {rest : List (List Char)}
    (hpath : Path.segments path.toList = actionsKey.toList :: node.chars :: rest) :
    Path.lookup context path = (resultIn context node).bind (Path.descend · rest) := by
  have hkey : String.ofList actionsKey.toList = actionsKey := String.ofList_toList
  have htext : String.ofList node.chars = node.text := rfl
  rw [Path.lookup, Path.lookupChars, hpath, Path.descend, Path.child?, hkey, resultIn, resultsIn]
  cases hfound : Fields.find? actionsKey context with
  | none => rfl
  | some w =>
    obtain ⟨results, rfl⟩ := room w hfound
    rw [Option.bind_some, Option.bind_some, Path.descend, Path.child?, htext]
    rfl

theorem lookup_resultPath (room : OpenToResults context) (node : NodeId) :
    Path.lookup context (resultPath node) = resultIn context node := by
  rw [lookup_of_segments room (Path.segments_resultPath node)]
  exact Option.bind_fun_some _

/-- At `resultPath node` stands the result that has just been recorded. -/
theorem lookup_withResult (context : Context) (node : NodeId) (v : Json) :
    Path.lookup (withResult context node v) (resultPath node) = some v := by
  rw [lookup_resultPath (openToResults_withResult context node v), resultIn_withResult,
    Function.update_self]

/-- Below `resultPath node` stands what `Path.descend` finds in the result. -/
theorem lookup_below_withResult (context : Context) (node : NodeId) (v : Json) (path : String) :
    Path.lookup (withResult context node v) (resultPath node ++ "." ++ path) =
      Path.descend v (Path.segments path.toList) := by
  rw [Path.lookup_below, lookup_withResult, Option.bind_some]

/-- Recording a result changes nothing at the paths of other nodes. -/
theorem lookup_withResult_other (room : OpenToResults context) (hne : other ≠ node) (v : Json)
    {path : String} {rest : List (List Char)}
    (hpath : Path.segments path.toList = actionsKey.toList :: other.chars :: rest) :
    Path.lookup (withResult context node v) path = Path.lookup context path := by
  rw [lookup_of_segments (openToResults_withResult context node v) hpath,
    lookup_of_segments room hpath, resultIn_withResult, Function.update_of_ne hne]

/-! ### The context of a run -/

variable {payload : Fields} {results : List (NodeId × Json)}

/-- What there is at a path for a payload and results: at the path of a node its latest result,
below it what is in this result, and at a path off the results what the payload has. -/
inductive LeadsTo (payload : Fields) (results : List (NodeId × Json)) : String → Option Json → Prop
  | result (node : NodeId) : LeadsTo payload results (resultPath node) (latest? results node)
  | inside (node : NodeId) (path : String) :
      LeadsTo payload results (resultPath node ++ "." ++ path)
        ((latest? results node).bind (Path.descend · (Path.segments path.toList)))
  | beside {path : String} (off : Path.OffResults path) :
      LeadsTo payload results path (Path.lookup payload path)

/-- A context has at every path what `LeadsTo` says of the payload and the results. -/
def Shows (payload : Fields) (results : List (NodeId × Json)) (context : Context) : Prop :=
  ∀ path found, LeadsTo payload results path found → Path.lookup context path = found

/-- Induction over `contextOf`: each context is the one of the results before with one result
recorded in it. -/
theorem contextOf_induction {motive : List (NodeId × Json) → Context → Prop}
    (free : Fields.has actionsKey payload = false) (start : motive [] payload)
    (more : ∀ results context node v, motive results context →
      motive (results ++ [(node, v)]) (withResult context node v))
    (results : List (NodeId × Json)) : motive results (contextOf payload results) := by
  induction results using List.reverseRecOn with
  | nil => exact start
  | append_singleton results result ih =>
    rw [← withResult_contextOf free]
    exact more _ _ _ _ ih

theorem openToResults_contextOf (free : Fields.has actionsKey payload = false)
    (results : List (NodeId × Json)) : OpenToResults (contextOf payload results) := by
  refine contextOf_induction (motive := fun _ context => OpenToResults context) free ?_ ?_ results
  · intro v hv
    rw [Fields.find?_eq_none_of_has free] at hv
    cases hv
  · exact fun _ context node v _ => openToResults_withResult context node v

theorem same_contextOf (free : Fields.has actionsKey payload = false)
    (results : List (NodeId × Json)) : SameBesideResults (contextOf payload results) payload := by
  refine contextOf_induction (motive := fun _ context => SameBesideResults context payload)
    free (fun _ _ => rfl) ?_ results
  exact fun _ context node v ih key hkey => (same_withResult context node v key hkey).trans
    (ih key hkey)

/-- In `contextOf payload results` the result of a node is its `latest?`. -/
theorem resultIn_contextOf (free : Fields.has actionsKey payload = false)
    (results : List (NodeId × Json)) : resultIn (contextOf payload results) = latest? results := by
  refine contextOf_induction (motive := fun results context => resultIn context = latest? results)
    free ?_ ?_ results
  · funext node
    rw [resultIn, resultsIn, Fields.find?_eq_none_of_has free]
    rfl
  · intro results context node v ih
    rw [resultIn_withResult, ih, latest?_concat]

/-- The context of a run `Shows` its payload and the results so far. -/
theorem shows_contextOf (free : Fields.has actionsKey payload = false)
    (results : List (NodeId × Json)) : Shows payload results (contextOf payload results) := by
  have room := openToResults_contextOf free results
  intro path found h
  cases h with
  | result node => rw [lookup_resultPath room, resultIn_contextOf free]
  | inside node path => rw [Path.lookup_below, lookup_resultPath room, resultIn_contextOf free]
  | beside off => exact Path.lookup_of_same (same_contextOf free results) off

/-- A condition holds exactly if its operator does for what its field leads to; what is missing
counts as null. -/
theorem Shows.holds_eq (h : Shows payload results context) {c : Condition} {found : Option Json}
    (leads : LeadsTo payload results c.field found) :
    c.holds context = c.operator.apply (found.getD .null) c.value := by
  rw [Condition.holds, h _ _ leads]

/-- A template is rendered as in any context that has at the paths it `Names` what they lead to. -/
theorem Shows.render_eq (h : Shows payload results context) {template : String} {context' : Context}
    (leads : ∀ path, Template.Names template path →
      LeadsTo payload results path (Path.lookup context' path)) :
    Template.render template context = Template.render template context' :=
  Template.render_of_agreeFor fun path hnames => h _ _ (leads path hnames)

end Execution

end TriggerFlow
