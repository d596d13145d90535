import TriggerFlow.Proofs.Engine.Lockstep
import TriggerFlow.Proofs.Engine.Settlement
import TriggerFlow.Proofs.Store.Finality
/-!
# Runs work on a snapshot

A run reads the graph of its workflow once, when it begins.  Whatever its actions do to workflows,
nodes and connections, it goes on as it would with actions that answer the same and edit nothing
(`execute_isolated`).

All that a run asks of the store once it has its graph is to write its row.  How that ends can be
told from the rows of executions and from the outages of this one call, so two runs whose stores
are alike in these (`Storage.Alike`) stay in lockstep.
-/

namespace TriggerFlow

/-! ### Stores that a run cannot tell apart -/

namespace Tables

variable {t : Tables}

/-- Every operation but `insertExecution` and `updateExecution`. -/
def Operation.onDefinitions : Operation → Bool
  | insertExecution _ => false
  | updateExecution _ => false
  | _ => true

theorem executions_after_of_onDefinitions {op : Operation} (h : op.onDefinitions = true) :
    (t.after op).executions = t.executions := by
  have htouches := touches_after t op
  generalize (t.after op).executions = rows at htouches ⊢
  cases htouches with
  | nothing => rfl
  | insert => cases h
  | write => cases h

theorem executions_afterAll_of_onDefinitions {ops : List Operation}
    (h : ∀ op ∈ ops, op.onDefinitions = true) : (t.afterAll ops).executions = t.executions := by
  induction ops generalizing t with
  | nil => rfl
  | cons op ops ih =>
    obtain ⟨hop, hops⟩ := List.forall_mem_cons.mp h
    rw [afterAll_cons, ih hops, executions_after_of_onDefinitions hop]

/-- Whether `updateExecution` takes a row, and over which stored row it writes, can be told from the
identifier and the rows of executions. -/
theorem updateExecution_cases (rows : List Execution) (id : ExecutionId) :
    (∃ e, ∀ (t : Tables) row, t.executions = rows → row.id = id →
      t.updateExecution row = .error e) ∨
    ∃ stored, ∀ (t : Tables) row, t.executions = rows → row.id = id →
      t.updateExecution row = .ok ((), { t with
        executions := replaceFirst (fun e => e.id == id) (written stored row) rows }) := by
  cases hfound : rows.find? fun e => e.id == id with
  | none =>
    refine .inl ⟨.notFound "Execution" id.text, fun t row hrows hid => ?_⟩
    rw [updateExecution, getExecution, hrows, hid, hfound]
  | some stored =>
    cases hterminal : stored.status.isTerminal with
    | true =>
      refine .inl ⟨.conflict ("execution " ++ id.text ++ " is already "
        ++ Vocabulary.text stored.status), fun t row hrows hid => ?_⟩
      have hgot : t.getExecution row.id = some stored := by
        rw [getExecution, hrows, hid, hfound]
      rw [updateExecution_of_terminal hgot hterminal, hid]
    | false =>
      refine .inr ⟨stored, fun t row hrows hid => ?_⟩
      have hgot : t.getExecution row.id = some stored := by
        rw [getExecution, hrows, hid, hfound]
      rw [updateExecution_of_running hgot (eq_running_iff.mpr hterminal), hrows, hid]

/-- Replacing the first hit by rows with the same `f` gives lists with the same image under `f`. -/
theorem map_replaceFirst_congr {α β : Type} {f : α → β} {row row' : α} (h : f row' = f row)
    (p : α → Bool) (as : List α) :
    (replaceFirst p row' as).map f = (replaceFirst p row as).map f := by
  induction as with
  | nil => rfl
  | cons a as ih =>
    rw [replaceFirst, replaceFirst]
    split
    · rw [List.map_cons, List.map_cons, h]
    · rw [List.map_cons, List.map_cons, ih]

end Tables

/-- The outages of one call are met without regard to those of others: `meet` commutes with the
filter. -/
theorem Outage.meet_filter (call : StoreCall) (os : List Outage) :
    meet call (os.filter fun o => o.call = call) =
      ((meet call os).1, (meet call os).2.filter fun o => o.call = call) := by
  induction os with
  | nil => rfl
  | cons o os ih =>
    by_cases ho : o.call = call
    · rw [List.filter_cons_of_pos (by simpa using ho), meet, meet, if_pos ho, if_pos ho]
      cases o.skip with
      | zero => rfl
      | succ k =>
        dsimp only
        rw [List.filter_cons_of_pos (by simpa using ho)]
    · rw [List.filter_cons_of_neg (by simpa using ho), meet, if_neg ho, ih]
      dsimp only
      rw [List.filter_cons_of_neg (by simpa using ho)]

/-- A row without `completedAt`. -/
def Execution.unended (e : Execution) : Execution := { e with completedAt := none }

namespace Storage

variable {s s' : Storage}

/-- The outages that are due for `updateExecution`. -/
def dueWrites (s : Storage) : List Outage := s.outages.filter fun o => o.call = .updateExecution

/-- Two stores have the same executions and the same `dueWrites`. -/
structure Alike (s s' : Storage) : Prop where
  executions : s'.tables.executions = s.tables.executions
  dueWrites : s'.dueWrites = s.dueWrites

theorem Alike.refl (s : Storage) : s.Alike s := ⟨rfl, rfl⟩

theorem attempt_updateExecution (s : Storage) :
    attempt .updateExecution s = match (Outage.meet .updateExecution s.dueWrites).1 with
      | some e => .error e { s with outages := (Outage.meet .updateExecution s.outages).2 }
      | none => .ok () { s with outages := (Outage.meet .updateExecution s.outages).2 } := by
  rw [dueWrites, Outage.meet_filter, attempt]
  rcases Outage.meet .updateExecution s.outages with ⟨_ | e, rest⟩ <;> rfl

theorem dueWrites_after (s : Storage) :
    dueWrites { s with outages := (Outage.meet .updateExecution s.outages).2 } =
      (Outage.meet .updateExecution s.dueWrites).2 := by
  rw [dueWrites, dueWrites, Outage.meet_filter]

/-- On `Alike` stores `updateExecution` is refused with the same error, or puts both rows over the
same stored row. -/
theorem Alike.write (alike : s.Alike s') {row row' : Execution} (hid : row'.id = row.id) :
    (∃ e t t', updateExecution row s = .error e t ∧ updateExecution row' s' = .error e t' ∧
      t.Alike t' ∧ t.tables.executions = s.tables.executions) ∨
    ∃ stored t t', updateExecution row s = .ok () t ∧ updateExecution row' s' = .ok () t' ∧
      t'.dueWrites = t.dueWrites ∧
      t.tables.executions = Tables.replaceFirst (fun e => e.id == row.id)
        (Tables.written stored row) s.tables.executions ∧
      t'.tables.executions = Tables.replaceFirst (fun e => e.id == row.id)
        (Tables.written stored row') s.tables.executions := by
  have hattempt := attempt_updateExecution s
  have hattempt' := attempt_updateExecution s'
  have hdue := dueWrites_after s
  have hdue' := dueWrites_after s'
  rw [alike.dueWrites] at hattempt' hdue'
  rw [← hdue] at hdue'
  cases hmet : (Outage.meet .updateExecution s.dueWrites).1 with
  | some e =>
    rw [hmet] at hattempt hattempt'
    exact .inl ⟨e, _, _, bind_of_error hattempt _, bind_of_error hattempt' _,
      ⟨alike.executions, hdue'⟩, rfl⟩
  | none =>
    rw [hmet] at hattempt hattempt'
    rw [updateExecution, updateExecution, bind_of_ok hattempt, bind_of_ok hattempt', change, change]
    -- what the tables make of the rows can be told from the rows they have
    rcases Tables.updateExecution_cases s.tables.executions row.id with
      ⟨e, hrefused⟩ | ⟨stored, hwritten⟩
    · rw [hrefused _ row rfl rfl, hrefused _ row' alike.executions hid]
      exact .inl ⟨e, _, _, rfl, rfl, ⟨alike.executions, hdue'⟩, rfl⟩
    · rw [hwritten _ row rfl rfl, hwritten _ row' alike.executions hid]
      exact .inr ⟨stored, _, _, rfl, rfl, hdue', rfl, rfl⟩

/-- The relation `Alike` is kept by writing a row. -/
theorem Alike.updateExecution (alike : s.Alike s') (row : Execution) :
    Together Alike (Storage.updateExecution row s) (Storage.updateExecution row s') := by
  have hid : row.id = row.id := rfl
  rcases alike.write hid with
    ⟨e, t, t', hrefused, hrefused', hends, -⟩ |
    ⟨stored, t, t', hwritten, hwritten', hdue, hrows, hrows'⟩
  · rw [hrefused, hrefused']
    exact .error hends
  · rw [hwritten, hwritten']
    exact .ok ⟨hrows'.trans hrows.symm, hdue⟩

/-- If rows differ in `completedAt` only, so do the executions after they have been written. -/
theorem Alike.executions_of_unended (alike : s.Alike s') {row row' : Execution}
    (same : row'.unended = row.unended) :
    (leftBy (Storage.updateExecution row' s')).tables.executions.map Execution.unended =
      (leftBy (Storage.updateExecution row s)).tables.executions.map Execution.unended := by
  have hid : row'.id = row.id := (congrArg Execution.id same :)
  rcases alike.write hid with
    ⟨e, t, t', hrefused, hrefused', hends, -⟩ |
    ⟨stored, t, t', hwritten, hwritten', -, hrows, hrows'⟩
  · rw [hrefused, hrefused', leftBy_error, leftBy_error, hends.executions]
  · have hsame : (Tables.written stored row').unended = (Tables.written stored row).unended := by
      have hcontext : row'.context = row.context := (congrArg Execution.context same :)
      have hstatus : row'.status = row.status := (congrArg Execution.status same :)
      have herror : row'.error = row.error := (congrArg Execution.error same :)
      rw [Execution.unended, Execution.unended, Tables.written, Tables.written, hcontext, hstatus,
        herror]
    rw [hwritten, hwritten', leftBy_ok, leftBy_ok, hrows, hrows',
      Tables.map_replaceFirst_congr hsame]

theorem Alike.accepts (alike : s.Alike s') {row row' : Execution} (hid : row'.id = row.id) :
    s'.accepts row' = s.accepts row := by
  unfold Storage.accepts
  rcases alike.write hid with
    ⟨e, t, t', hrefused, hrefused', -, -⟩ | ⟨stored, t, t', hwritten, hwritten', -, -, -⟩
  · rw [hrefused, hrefused']
  · rw [hwritten, hwritten']

theorem clock_updateExecution (row : Execution) (s : Storage) :
    (leftBy (updateExecution row s)).clock = s.clock := by
  have hattempt := attempt_updateExecution s
  cases hmet : (Outage.meet .updateExecution s.dueWrites).1 with
  | some e =>
    rw [hmet] at hattempt
    rw [updateExecution, bind_of_error hattempt]
    rfl
  | none =>
    rw [hmet] at hattempt
    rw [updateExecution, bind_of_ok hattempt, change]
    split <;> rfl

end Storage

/-! ### Runs that differ in times only -/

def Event.untimed (e : Event) : Event :=
  { e with happening := e.happening.untimed, timestamp := default }

/-- Two runs have come equally far: they have equal executions, have reported the same up to times,
and their stores are `Alike`.  If they keep pace, times agree as well. -/
structure Run.Alike (paced : Prop) (r r' : Run) : Prop where
  execution : r'.execution = r.execution
  storage : r.world.storage.Alike r'.world.storage
  journal : r'.world.journal.map Event.untimed = r.world.journal.map Event.untimed
  exact : paced → r'.world.journal = r.world.journal ∧ r'.world.now = r.world.now

namespace Run

variable {paced : Prop} {r r' : Run}

theorem Alike.refl (paced : Prop) (r : Run) : r.Alike paced r :=
  ⟨rfl, .refl _, rfl, fun _ => ⟨rfl, rfl⟩⟩

theorem Alike.after (alike : r.Alike paced r') {h h' : Happening} (same : h'.untimed = h.untimed)
    (exact : paced → h' = h) : (r.after h).Alike paced (r'.after h') := by
  have hevent : Event.untimed ⟨r'.execution.id, h', r'.world.now⟩ =
      Event.untimed ⟨r.execution.id, h, r.world.now⟩ := by
    rw [Event.untimed, Event.untimed, same, alike.execution]
  refine ⟨alike.execution, alike.storage, ?_, fun keep => ?_⟩
  · rw [Run.after, Run.after, World.report, World.report, List.map_cons, List.map_cons, hevent,
      alike.journal]
  · obtain ⟨hjournal, hnow⟩ := alike.exact keep
    refine ⟨?_, hnow⟩
    rw [Run.after, Run.after, World.report, World.report, exact keep, alike.execution, hjournal,
      hnow]

/-- The stores become others that are `Alike`, and both runs get the execution `e`. -/
theorem Alike.withStorage (alike : r.Alike paced r') {e : Execution} {s s' : Storage}
    (storage : s.Alike s') (clock : paced → s'.clock = s.clock) :
    Run.Alike paced ⟨{ r.world with storage := s }, e⟩ ⟨{ r'.world with storage := s' }, e⟩ :=
  ⟨rfl, storage, alike.journal, fun keep => ⟨(alike.exact keep).1, clock keep⟩⟩

end Run

/-- Two worlds have seen the same runs: their events agree up to times, and their executions up to
`completedAt`; if they are `paced`, exactly. -/
structure World.Alike (paced : Prop) (w w' : World) : Prop where
  events : w'.events.map Event.untimed = w.events.map Event.untimed
  executions : w'.storage.tables.executions.map Execution.unended =
    w.storage.tables.executions.map Execution.unended
  exact : paced → w'.events = w.events ∧
    w'.storage.tables.executions = w.storage.tables.executions

/-! ### The answers of actions -/

def Deed.verdict? : Deed → Option Verdict
  | called _ _ verdict => some verdict
  | _ => none

/-- The verdicts of the calls, in their order. -/
def verdictsOf (ds : List Deed) : List Verdict := ds.filterMap Deed.verdict?

def Agree {α : Type} (as bs : List α) : Prop :=
  ∀ (i : Nat) (a b : α), as[i]? = some a → bs[i]? = some b → a = b

theorem Agree.first {α : Type} {as more bs more' : List α} (h : Agree (as ++ more) (bs ++ more')) :
    Agree as bs := by
  intro i a b ha hb
  have hlt : i < as.length := (List.getElem?_eq_some_iff.mp ha).1
  have hlt' : i < bs.length := (List.getElem?_eq_some_iff.mp hb).1
  refine h i a b ?_ ?_
  · rwa [List.getElem?_append_left hlt]
  · rwa [List.getElem?_append_left hlt']

theorem Agree.rest {α : Type} {as more more' : List α} (h : Agree (as ++ more) (as ++ more')) :
    Agree more more' := by
  intro i a b ha hb
  refine h (as.length + i) a b ?_ ?_
  · rwa [List.getElem?_append_right (Nat.le_add_right ..), Nat.add_sub_cancel_left]
  · rwa [List.getElem?_append_right (Nat.le_add_right ..), Nat.add_sub_cancel_left]

theorem verdictsOf_append (ds ds' : List Deed) :
    verdictsOf (ds ++ ds') = verdictsOf ds ++ verdictsOf ds' := List.filterMap_append

/-- Verdicts are part of the `outline` of a deed. -/
theorem verdictsOf_outline (ds : List Deed) : verdictsOf (ds.map Deed.outline) = verdictsOf ds := by
  have hverdict : Deed.verdict? ∘ Deed.outline = Deed.verdict? := by
    funext d
    cases d <;> rfl
  rw [verdictsOf, List.filterMap_map, hverdict, verdictsOf]

namespace Engine

variable {engine plain : Engine} {r r' : Run}

theorem verdictsOf_deedsOfCall (n : Node) (t : String) (a : Action) (r : Run) :
    verdictsOf (deedsOfCall n t a r) =
      [(a.run n.config r.execution.context r.world.storage).1] := by
  unfold deedsOfCall
  rcases a.run n.config r.execution.context r.world.storage with ⟨verdict, s⟩
  cases verdict with
  | failed e => rfl
  | crashed message => rfl
  | done v =>
    dsimp only
    split <;> rfl

/-! ### Engines whose actions edit -/

/-- Every action changes the tables by operations `onDefinitions`, and no outage of writing
executions. -/
def EditsDefinitions (engine : Engine) : Prop :=
  ∀ t a, engine.catalogue.action? t = some a → ∀ config context (s : Storage),
    (∃ ops : List Tables.Operation, (∀ op ∈ ops, op.onDefinitions = true) ∧
      (a.run config context s).2.tables = s.tables.afterAll ops) ∧
    (a.run config context s).2.dueWrites = s.dueWrites

/-- No action changes the tables or the outages of `updateExecution`. -/
def EditsNothing (engine : Engine) : Prop :=
  ∀ t a, engine.catalogue.action? t = some a → ∀ config context (s : Storage),
    (a.run config context s).2.tables = s.tables ∧
    (a.run config context s).2.dueWrites = s.dueWrites

/-- Actions of the same name leave the same `clock` with both engines. -/
def KeepsPace (engine plain : Engine) : Prop :=
  ∀ t a a', engine.catalogue.action? t = some a → plain.catalogue.action? t = some a' →
    ∀ config context (s s' : Storage), s'.clock = s.clock →
      (a'.run config context s').2.clock = (a.run config context s).2.clock

/-- An action that edits definitions and its twin that edits nothing leave stores `Alike`. -/
theorem alike_of_edits {t : String} {a a' : Action} {s s' : Storage}
    (edits : engine.EditsDefinitions) (still : plain.EditsNothing)
    (known : engine.catalogue.action? t = some a) (known' : plain.catalogue.action? t = some a')
    (alike : s.Alike s') (config : Config) (context : Context) :
    (a.run config context s).2.Alike (a'.run config context s').2 := by
  obtain ⟨⟨ops, hops, htables⟩, hdue⟩ := edits t a known config context s
  obtain ⟨htables', hdue'⟩ := still t a' known' config context s'
  have hsame : (a.run config context s).2.tables.executions = s.tables.executions := by
    rw [htables, Tables.executions_afterAll_of_onDefinitions hops]
  refine ⟨?_, ?_⟩
  · rw [htables', hsame, alike.executions]
  · rw [hdue', hdue, alike.dueWrites]

/-- A call with the same verdict from both engines leaves runs `Alike`. -/
theorem alike_of_call {n : Node} {t : String} {a a' : Action} (edits : engine.EditsDefinitions)
    (still : plain.EditsNothing) (known : engine.catalogue.action? t = some a)
    (known' : plain.catalogue.action? t = some a') (alike : r.Alike (engine.KeepsPace plain) r')
    (same : (a.run n.config r.execution.context r.world.storage).1 =
      (a'.run n.config r'.execution.context r'.world.storage).1) :
    Together (Run.Alike (engine.KeepsPace plain)) (called n t a r) (called n t a' r') ∧
      (deedsOfCall n t a r).map Deed.outline = (deedsOfCall n t a' r').map Deed.outline := by
  have hstores := alike_of_edits edits still known known' alike.storage n.config
    r.execution.context
  have hclock (keep : engine.KeepsPace plain) :=
    keep t a a' known known' n.config r.execution.context _ _ (alike.exact keep).2
  have hexecution := alike.execution
  unfold called deedsOfCall
  rw [hexecution] at same ⊢
  generalize a.run n.config r.execution.context r.world.storage = answer at same hstores hclock ⊢
  generalize a'.run n.config r.execution.context r'.world.storage = answer' at same hstores hclock ⊢
  obtain ⟨verdict, s⟩ := answer
  obtain ⟨verdict', s'⟩ := answer'
  obtain rfl : verdict = verdict' := same
  -- both runs end with an action that gives no result
  have hended : Run.Alike (engine.KeepsPace plain) (r.withStorage s) (r'.withStorage s') := by
    have hleft := alike.withStorage (e := r.execution) hstores hclock
    rw [Run.withStorage, Run.withStorage, hexecution]
    exact hleft
  cases verdict with
  | failed e => exact ⟨.error hended, rfl⟩
  | crashed message => exact ⟨.error hended, rfl⟩
  | done v =>
    have hrecorded : (r'.recording n.id v).execution = (r.recording n.id v).execution := by
      rw [Run.recording, Run.recording, hexecution]
    have hwrite := hstores.updateExecution (r.execution.recordAction n.id v)
    have htime := Storage.clock_updateExecution (r.execution.recordAction n.id v) s
    have htime' := Storage.clock_updateExecution (r.execution.recordAction n.id v) s'
    dsimp only
    generalize Storage.updateExecution (r.execution.recordAction n.id v) s = result
      at hwrite htime ⊢
    generalize Storage.updateExecution (r.execution.recordAction n.id v) s' = result'
      at hwrite htime' ⊢
    have hkept {q q' : Storage} (hq : q.Alike q') (hclocks : q'.clock = s'.clock)
        (hclocks' : q.clock = s.clock) :
        Run.Alike (engine.KeepsPace plain) ((r.recording n.id v).withStorage q)
          ((r'.recording n.id v).withStorage q') := by
      have hleft := alike.withStorage (e := r.execution.recordAction n.id v) hq fun keep =>
        hclocks.trans ((hclock keep).trans hclocks'.symm)
      rw [Run.withStorage, Run.withStorage, hrecorded]
      exact hleft
    cases hwrite with
    | error hq => exact ⟨.error (hkept hq htime' htime), rfl⟩
    | ok hq =>
      refine ⟨.ok ((hkept hq htime' htime).after rfl fun keep => ?_), rfl⟩
      rw [(alike.exact keep).2, hclock keep]

/-- Runs of the two engines are in `Lockstep` by `Run.Alike`, as long as their verdicts agree. -/
theorem lockstep_of_edits (twins : engine.Twins plain) (edits : engine.EditsDefinitions)
    (still : plain.EditsNothing) :
    Lockstep engine plain (fun ds ds' => Agree (verdictsOf ds) (verdictsOf ds'))
      (Run.Alike (engine.KeepsPace plain)) where
  twins := twins
  context alike := congrArg Execution.context alike.execution
  report h alike := alike.after rfl fun _ => rfl
  call := by
    intro n t a a' r r' alike known known' agree
    rw [verdictsOf_deedsOfCall, verdictsOf_deedsOfCall] at agree
    exact alike_of_call edits still known known' alike (agree 0 _ _ rfl rfl)
  first := by
    intro ds more ds' more' agree
    rw [verdictsOf_append, verdictsOf_append] at agree
    exact agree.first
  rest := by
    intro ds more ds' more' agree same
    have hverdicts : verdictsOf ds' = verdictsOf ds := by
      rw [← verdictsOf_outline ds', ← same, verdictsOf_outline]
    rw [verdictsOf_append, verdictsOf_append, hverdicts] at agree
    exact agree.rest

/-! ### Whole runs -/

/-- Endings that are alike are concluded alike: the worlds are `World.Alike`, and the last report
and the last write have the same outline. -/
theorem alike_conclude {paced : Prop} {ending ending' : Ending} (started : Timestamp)
    (h : Together (Run.Alike paced) ending ending') :
    World.Alike paced (conclude started ending) (conclude started ending') ∧
      [(leftBy ending).reporting (outcome started ending),
        .wrote (closing ending) ((leftBy ending).world.storage.accepts (closing ending))].map
          Deed.outline =
      [(leftBy ending').reporting (outcome started ending'),
        .wrote (closing ending') ((leftBy ending').world.storage.accepts (closing ending'))].map
          Deed.outline := by
  have hends : (leftBy ending).Alike paced (leftBy ending') := h.leftBy
  have houtcome : (outcome started ending').untimed = (outcome started ending).untimed := by
    cases h <;> rfl
  have hclosing : (closing ending').unended = (closing ending).unended := by
    cases h with
    | ok related => rw [closing, closing, related.execution]; rfl
    | error related => rw [closing, closing, related.execution]; rfl
  -- if the runs are `paced`, they end at the same time
  have hexact (keep : paced) : outcome started ending' = outcome started ending ∧
      closing ending' = closing ending := by
    obtain ⟨-, hnow⟩ := hends.exact keep
    cases h with
    | ok related =>
      rw [leftBy_ok, leftBy_ok] at hnow
      rw [outcome, outcome, closing, closing, hnow, related.execution]
      exact ⟨rfl, rfl⟩
    | error related =>
      rw [leftBy_error, leftBy_error] at hnow
      rw [outcome, outcome, closing, closing, hnow, related.execution]
      exact ⟨rfl, rfl⟩
  have hreported := hends.after houtcome fun keep => (hexact keep).1
  have hevents (ending : Ending) : (conclude started ending).events =
      ((leftBy ending).after (outcome started ending)).world.events := by
    rw [events_conclude, Run.after, Run.events_report]
  refine ⟨⟨?_, ?_, fun keep => ⟨?_, ?_⟩⟩, ?_⟩
  · rw [hevents, hevents, World.events, World.events, List.map_reverse, List.map_reverse,
      hreported.journal]
  · rw [storage_conclude, storage_conclude]
    exact hends.storage.executions_of_unended hclosing
  · rw [hevents, hevents, World.events, World.events, (hreported.exact keep).1]
  · rw [storage_conclude, storage_conclude, (hexact keep).2]
    exact (hends.storage.updateExecution (closing ending)).leftBy.executions
  · have houtline : (closing ending').outline = (closing ending).outline :=
      (congrArg Execution.outline hclosing :)
    have hid : (closing ending').id = (closing ending).id := (congrArg Execution.id hclosing :)
    have haccepted := hends.storage.accepts hid
    simp only [List.map_cons, List.map_nil, Deed.outline, Run.reporting, houtcome, houtline,
      haccepted]

/-- Let the actions of `engine` edit definitions in any way, those of `plain` nothing, and let both
give the same verdicts as far as both runs go.  Then `execute` answers the same with both, in worlds
that are `World.Alike`, with deeds of the same outline. -/
theorem execute_isolated (twins : engine.Twins plain) (edits : engine.EditsDefinitions)
    (still : plain.EditsNothing) (workflow : Workflow) (triggerType : String) (payload : Fields)
    (w : World)
    (same : Agree (verdictsOf (engine.deeds workflow triggerType payload w))
      (verdictsOf (plain.deeds workflow triggerType payload w))) :
    Together (World.Alike (engine.KeepsPace plain))
        (engine.execute workflow triggerType payload w)
        (plain.execute workflow triggerType payload w) ∧
      (engine.deeds workflow triggerType payload w).map Deed.outline =
        (plain.deeds workflow triggerType payload w).map Deed.outline := by
  rw [execute_apply, execute_apply]
  cases hbegin : Run.begin workflow triggerType payload w with
  | error e w' =>
    unfold deeds
    rw [hbegin]
    exact ⟨.error ⟨rfl, rfl, fun _ => ⟨rfl, rfl⟩⟩, rfl⟩
  | ok r w' =>
    rw [deeds_of_begun hbegin, deeds_of_begun hbegin] at same ⊢
    simp only [List.append_assoc, verdictsOf_append] at same
    -- both runs begin in the same way and load the same graph
    have hinner := same.rest.first
    have hload : Together (fun s s' => Run.Alike (engine.KeepsPace plain) (r.withStorage s)
        (r.withStorage s')) (Graph.load workflow.id r.world.storage)
        (Graph.load workflow.id r.world.storage) := by
      cases Graph.load workflow.id r.world.storage with
      | ok g s => exact .ok (.refl _ _)
      | error e s => exact .error (.refl _ _)
    obtain ⟨hends, hdeeds⟩ := (lockstep_of_edits twins edits still).traverse (.refl _ r) rfl hload
      hinner
    obtain ⟨hworlds, hlast⟩ := alike_conclude w.now hends
    refine ⟨.ok hworlds, ?_⟩
    rw [List.map_append, List.map_append, List.map_append, List.map_append, hdeeds, hlast]

/-! ### A run that removes what lies ahead of it -/

/-- Every member of `verdictsOf ds` was answered by a known action. -/
theorem Steps.answered {ds : List Deed} {ending : Ending} (h : Steps engine r ds ending)
    {verdict : Verdict} (hmem : verdict ∈ verdictsOf ds) :
    ∃ t a config context s, engine.catalogue.action? t = some a ∧
      (a.run config context s).1 = verdict := by
  have hanswer {t : String} {a : Action} {config : Config} {s : Storage} {answer : Verdict}
      (known : engine.catalogue.action? t = some a) {r : Run}
      (ran : a.run config r.execution.context r.world.storage = (answer, s)) :
      ∃ t a config context s, engine.catalogue.action? t = some a ∧
        (a.run config context s).1 = answer :=
    ⟨t, a, config, _, _, known, congrArg Prod.fst ran⟩
  induction h with
  | done => cases hmem
  | halt => cases hmem
  | look same rest ih => exact ih hmem
  | report move rest ih => exact ih hmem
  | fail known ran blame =>
    obtain rfl := List.mem_singleton.mp hmem
    exact hanswer known ran
  | refuse known ran refused =>
    obtain rfl := List.mem_singleton.mp hmem
    exact hanswer known ran
  | complete known ran kept rest ih =>
    rcases List.mem_cons.mp hmem with rfl | hmem
    · exact hanswer known ran
    · exact ih hmem

theorem answered_of_deeds {workflow : Workflow} {triggerType : String} {payload : Fields}
    {w : World} {verdict : Verdict}
    (hmem : verdict ∈ verdictsOf (engine.deeds workflow triggerType payload w)) :
    ∃ t a config context s, engine.catalogue.action? t = some a ∧
      (a.run config context s).1 = verdict := by
  cases hbegin : Run.begin workflow triggerType payload w with
  | error e w' =>
    unfold deeds at hmem
    rw [hbegin] at hmem
    cases hmem
  | ok r w' =>
    rw [deeds_of_begun hbegin, verdictsOf_append, verdictsOf_append] at hmem
    have hinner : verdict ∈ verdictsOf (engine.deedsTraversing workflow.id r) := by
      simpa [verdictsOf, List.filterMap_cons, Deed.verdict?, Run.reporting] using hmem
    exact (steps_traverse engine workflow.id r).answered hinner

def pruneWorkflow : Workflow := .new Uuid.nil Uuid.nil Uuid.nil "prune" .eventCreated default

def pruneNode (k : Nat) : Node := .action (Uuid.ofHalves 0 k) Uuid.nil "prune"

def pruneStorage : Storage :=
  { Storage.fresh (.ofNames fun _ n => Uuid.ofHalves 0 n) default with
    tables := { Tables.empty with
      nodes := [pruneNode 1, pruneNode 2]
      connections :=
        [.start Uuid.nil Uuid.nil (pruneNode 1).id,
         .between Uuid.nil Uuid.nil (pruneNode 1).id (pruneNode 2).id] } }

/-- An engine whose action always gives the same result, and applies `edit` to the tables. -/
def pruneEngine (edit : Tables → Tables) : Engine :=
  ⟨⟨[],
    [{ id := "prune", name := "Prune", description := "", category := defaultCategory, schema := []
       validate := fun _ => []
       run := fun _ _ s => (.done (.string "pruned"), { s with tables := edit s.tables }) }]⟩, 64⟩

theorem pruneEngine_known {edit : Tables → Tables} {t : String} {a : Action}
    (known : (pruneEngine edit).catalogue.action? t = some a) :
    a.validate = (fun _ => []) ∧
      a.run = fun _ _ s => (.done (.string "pruned"), { s with tables := edit s.tables }) := by
  have hmem := List.mem_of_find?_eq_some known
  obtain rfl := List.mem_singleton.mp hmem
  exact ⟨rfl, rfl⟩

/-- A run whose first node removes the second one goes on as if nothing had been removed, `Together`
with the run that keeps it and at its pace. -/
theorem pruneEngine_isolated :
    let pruning := pruneEngine fun t => t.after (.softDeleteNode (pruneNode 2).id)
    let keeping := pruneEngine id
    pruneStorage.tables.getNode (pruneNode 2).id false = some (pruneNode 2) ∧
    (pruneStorage.tables.after (.softDeleteNode (pruneNode 2).id)).getNode (pruneNode 2).id false
      = none ∧
    pruning.KeepsPace keeping ∧
    Together (World.Alike (pruning.KeepsPace keeping))
      (pruning.execute pruneWorkflow "event.created" [] (World.ofStorage pruneStorage))
      (keeping.execute pruneWorkflow "event.created" [] (World.ofStorage pruneStorage)) := by
  intro pruning keeping
  have twins : pruning.Twins keeping := by
    refine ⟨rfl, fun t => ?_⟩
    unfold pruning keeping Catalogue.action? pruneEngine
    rw [List.find?_singleton, List.find?_singleton]
    split <;> rfl
  have edits : pruning.EditsDefinitions := by
    intro t a known config context s
    rw [(pruneEngine_known known).2]
    exact ⟨⟨[.softDeleteNode (pruneNode 2).id], by simp [Tables.Operation.onDefinitions], rfl⟩, rfl⟩
  have still : keeping.EditsNothing := by
    intro t a known config context s
    rw [(pruneEngine_known known).2]
    exact ⟨rfl, rfl⟩
  have paced : pruning.KeepsPace keeping := by
    intro t a a' known known' config context s s' hclock
    rw [(pruneEngine_known known).2, (pruneEngine_known known').2]
    exact hclock
  -- there is only one answer that the actions give
  have hanswer {edit : Tables → Tables} {v : Verdict}
      (h : v ∈ verdictsOf ((pruneEngine edit).deeds pruneWorkflow "event.created" []
        (World.ofStorage pruneStorage))) : v = .done (.string "pruned") := by
    obtain ⟨t, a, config, context, s, known, rfl⟩ := answered_of_deeds h
    rw [(pruneEngine_known known).2]
  have same : Agree
      (verdictsOf (pruning.deeds pruneWorkflow "event.created" [] (World.ofStorage pruneStorage)))
      (verdictsOf (keeping.deeds pruneWorkflow "event.created" []
        (World.ofStorage pruneStorage))) := by
    intro i v v' hv hv'
    rw [hanswer (List.mem_of_getElem? hv), hanswer (List.mem_of_getElem? hv')]
  obtain ⟨hruns, -⟩ := execute_isolated twins edits still pruneWorkflow "event.created" []
    (World.ofStorage pruneStorage) same
  exact ⟨rfl, rfl, paced, hruns⟩

end Engine

end TriggerFlow
