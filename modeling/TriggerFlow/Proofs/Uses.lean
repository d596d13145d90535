import TriggerFlow.Proofs.Store.Callers
import TriggerFlow.Proofs.Store.Tombstones
/-!
# A store in use

Authors work on a store, the reaper closes rows in it, runs are made in it and events are dispatched
to it, one after the other (`Use`).  Tables that come about from others by uses that are allowed
come `Later`.  The rows that authors and actions refer to may be stale, or made up.

What may be demanded of uses is a limit on the changes that they make (`Tables.Limit`): that an
identifier is not given again, say (`Limit.avoiding`), or that something is not removed
(`Limit.sparingNode`).  Whatever is preserved by all `Tables.Changes` within a limit is preserved by
every use that respects it (`Use.Within.keeps`).
-/

namespace TriggerFlow

/-! ### Identifiers that are not given again -/

/-- The supply gives `id` to no new row of the kind. -/
structure IdSupply.Never (ids : IdSupply) (kind : RowKind) (id : Uuid) : Prop where
  unreserved : ids.reserved ≠ some id
  unnamed : ∀ n, ids.drawn kind < n → ids.name kind n ≠ id

namespace IdSupply.Never

variable {ids : IdSupply} {kind : RowKind} {id : Uuid}

theorem next_ne (never : ids.Never kind id) : (ids.next kind).1 ≠ id := by
  unfold next
  cases hreserved : ids.reserved with
  | some reserved =>
    intro hid
    exact never.unreserved (by rw [hreserved]; exact congrArg some hid)
  | none => exact never.unnamed _ (Nat.lt_succ_self _)

/-- Drawing an identifier keeps `Never`. -/
theorem next (never : ids.Never kind id) (drawn : RowKind) : (ids.next drawn).2.Never kind id := by
  unfold IdSupply.next
  cases hreserved : ids.reserved with
  | some reserved => exact ⟨by simp, never.unnamed⟩
  | none =>
    refine ⟨by simp, fun n hn => never.unnamed n ?_⟩
    dsimp only at hn
    by_cases hkind : kind = drawn
    · rw [if_pos hkind, ← hkind] at hn
      omega
    · rwa [if_neg hkind] at hn

end IdSupply.Never

/-! ### What actions may do -/

/-- Operations, each `allowed` in the tables in which it is done, lead from `t` to tables. -/
inductive Tables.LeadsBy (allowed : Tables → Operation → Prop) (t : Tables) : Tables → Prop
  | refl : LeadsBy allowed t t
  | step {t' : Tables} {op : Operation} (before : LeadsBy allowed t t') (ok : allowed t' op) :
      LeadsBy allowed t (t'.after op)

/-- Induction over `LeadsBy`: what each allowed operation preserves is preserved. -/
theorem Tables.LeadsBy.keeps {allowed : Tables → Operation → Prop} {P : Tables → Prop}
    {t t' : Tables} (h : t.LeadsBy allowed t')
    (step : ∀ t op, allowed t op → P t → P (t.after op)) (ht : P t) : P t' := by
  induction h with
  | refl => exact ht
  | step before ok ih => exact step _ _ ok ih

namespace Engine

/-- Actions use the store by `allowed` operations only, as long as `G` holds of the supply of
identifiers, and they keep `G`. -/
def Restricted (engine : Engine) (G : IdSupply → Prop)
    (allowed : Tables → Tables.Operation → Prop) : Prop :=
  ∀ t a, engine.catalogue.action? t = some a → ∀ config context (s : Storage), G s.ids →
    s.tables.LeadsBy allowed (a.run config context s).2.tables ∧ G (a.run config context s).2.ids

end Engine

/-- What may be demanded of a change of the tables, by the identifiers that it gives to new rows and
the operations that remove some. -/
abbrev Tables.Limit := Tables → (RowKind → Uuid → Prop) → (Operation → Prop) → Prop

namespace Tables.Limit

/-- Not to give `id` to a new row of the kind. -/
def avoiding (kind : RowKind) (id : Uuid) : Limit := fun _ added _ => ¬ added kind id

/-- To give to a new node an identifier that no node has. -/
def fresh : Limit := fun t added _ => ∀ id, added .node id → ∀ n ∈ t.nodes, n.id ≠ id

/-- Not to remove a workflow. -/
def sparingWorkflow (id : WorkflowId) : Limit := fun _ _ removal =>
  ¬ removal (.hardDeleteWorkflow id)

/-- To remove neither a node nor its workflow. -/
def sparingNode (id : NodeId) : Limit := fun t _ removal =>
  ¬ removal (.hardDeleteNode id) ∧
  ∀ n ∈ t.nodes, n.id = id → ¬ removal (.hardDeleteWorkflow n.workflow)

end Tables.Limit

/-- Every operation of an action respects `limit`. -/
def Engine.Within (engine : Engine) (G : IdSupply → Prop) (limit : Tables.Limit) : Prop :=
  engine.Restricted G fun t op =>
    limit t (fun kind id => op.adds? = some (kind, id)) (fun removal => removal = op)

/-! ### What a run leaves -/

namespace Storage

/-- A call of `insertExecution` is the operation, with a row of the same workflow, or changes
neither tables nor identifiers. -/
theorem insertExecution_leaves (row : Execution) (s : Storage) :
    ((leftBy (insertExecution row s)).tables = s.tables ∧
      (leftBy (insertExecution row s)).ids = s.ids) ∨
    ∃ e, e.workflow = row.workflow ∧
      (leftBy (insertExecution row s)).tables = s.tables.after (.insertExecution e) ∧
      (leftBy (insertExecution row s)).ids = (s.ids.next .execution).2 := by
  obtain ⟨outages, hleft⟩ := looks_attempt .insertExecution s
  rw [insertExecution, bind_apply]
  cases hattempt : attempt .insertExecution s with
  | error e s' =>
    rw [hattempt] at hleft
    obtain rfl : s' = { s with outages } := hleft
    exact .inl ⟨rfl, rfl⟩
  | ok u s' =>
    rw [hattempt] at hleft
    obtain rfl : s' = { s with outages } := hleft
    exact .inr ⟨{ row with id := (s.ids.next .execution).1 }, rfl, rfl, rfl⟩

/-- A call of `updateExecution` is the operation, or changes no tables; identifiers are as before.
-/
theorem updateExecution_leaves (row : Execution) (s : Storage) :
    ((leftBy (updateExecution row s)).tables = s.tables ∨
      (leftBy (updateExecution row s)).tables = s.tables.after (.updateExecution row)) ∧
    (leftBy (updateExecution row s)).ids = s.ids := by
  obtain ⟨outages, hleft⟩ := looks_attempt .updateExecution s
  rw [updateExecution, bind_apply]
  cases hattempt : attempt .updateExecution s with
  | error e s' =>
    rw [hattempt] at hleft
    obtain rfl : s' = { s with outages } := hleft
    exact ⟨.inl rfl, rfl⟩
  | ok u s' =>
    rw [hattempt] at hleft
    obtain rfl : s' = { s with outages } := hleft
    dsimp only
    unfold change Tables.after
    dsimp only
    cases s.tables.updateExecution row with
    | ok answer => exact ⟨.inr rfl, rfl⟩
    | error e => exact ⟨.inl rfl, rfl⟩

/-- What `Tables.after (.updateExecution _)` keeps is kept by the call. -/
theorem keeps_updateExecution {P : Tables → Prop}
    (write : ∀ t row, P t → P (t.after (.updateExecution row))) (s : Storage) (row : Execution)
    (h : P s.tables) : P (leftBy (updateExecution row s)).tables := by
  rcases (updateExecution_leaves row s).1 with hwritten | hwritten
  · rwa [hwritten]
  · rw [hwritten]
    exact write _ _ h

end Storage

namespace Engine

variable {engine : Engine} {G : IdSupply → Prop} {P : Tables → Prop}

/-- A fact `P` about tables that insertions and writes of executions keep, and actions under the
condition `G`, `Carries` over a run. -/
theorem carries_of_keeps {workflow : WorkflowId} (lasts : ∀ ids kind, G ids → G (ids.next kind).2)
    (insert : ∀ t row, row.workflow = workflow → P t → P (t.after (.insertExecution row)))
    (write : ∀ t row, P t → P (t.after (.updateExecution row)))
    (action : ∀ t a, engine.catalogue.action? t = some a → ∀ config context (s : Storage),
      G s.ids → P s.tables →
        G (a.run config context s).2.ids ∧ P (a.run config context s).2.tables) :
    engine.Carries workflow fun s s' => G s.ids ∧ P s.tables → G s'.ids ∧ P s'.tables where
  refl s h := h
  trans h h' := h' ∘ h
  look s outages h := h
  insert s row owner := by
    rintro ⟨hids, htables⟩
    -- the store is out of order or an identifier has been drawn
    rcases Storage.insertExecution_leaves row s with ⟨hsame, hsame'⟩ | ⟨e, howner, hadded, hdrawn⟩
    · rw [hsame, hsame']
      exact ⟨hids, htables⟩
    · rw [hadded, hdrawn]
      exact ⟨lasts _ _ hids, insert _ _ (howner.trans owner) htables⟩
  write s row := by
    rintro ⟨hids, htables⟩
    rw [(Storage.updateExecution_leaves row s).2]
    exact ⟨hids, Storage.keeps_updateExecution write s row htables⟩
  action known config context s := by
    rintro ⟨hids, htables⟩
    exact action _ _ known config context s hids htables

section Changes

variable {limit : Tables.Limit}
  (mild : ∀ t, limit t (fun _ _ => False) (fun _ => False))
  (changes : ∀ {added removal t t'}, limit t added removal → Tables.Changes added removal t t' →
    P t → P t')

include mild changes

/-- What `Changes` of workflows and nodes keep is kept by writing an execution. -/
theorem keeps_after_updateExecution (t : Tables) (row : Execution) :
    P t → P (t.after (.updateExecution row)) := by
  obtain ⟨hworkflows, hnodes⟩ := t.rows_after_updateExecution row
  exact changes (mild t) (.of_eq hworkflows hnodes)

variable (lasts : ∀ ids kind, G ids → G (ids.next kind).2)

include lasts

/-- A run keeps `P` if all `Changes` within the limit do that its actions respect. -/
theorem Within.keeps (within : engine.Within G limit) (workflow : Workflow) (triggerType : String)
    (payload : Fields) {w : World} (h : G w.storage.ids ∧ P w.storage.tables) :
    let left := leftBy (engine.execute workflow triggerType payload w)
    G left.storage.ids ∧ P left.storage.tables := by
  have haction (t : String) (a : Action) (known : engine.catalogue.action? t = some a)
      (config : Config) (context : Context) (s : Storage) (hids : G s.ids) (hs : P s.tables) :
      G (a.run config context s).2.ids ∧ P (a.run config context s).2.tables := by
    obtain ⟨hleads, hlasts⟩ := within t a known config context s hids
    exact ⟨hlasts, hleads.keeps (fun t op hop => changes hop (t.changes_after op)) hs⟩
  have carries : engine.Carries workflow.id _ := carries_of_keeps (P := P) lasts
    (fun t row _ => changes (mild t) (.of_eq rfl rfl)) (keeps_after_updateExecution mild changes)
    haction
  exact carries.execute triggerType payload w h

/-- A round of runs keeps `P` as well. -/
theorem Within.keeps_fire (within : engine.Within G limit) (organization : OrganizationId)
    (triggerType : TriggerType) (payload : Fields) {w : World}
    (h : G w.storage.ids ∧ P w.storage.tables) :
    let left := leftBy (engine.fire organization triggerType payload w)
    G left.storage.ids ∧ P left.storage.tables :=
  fire_relates (T := fun w w' => G w.storage.ids ∧ P w.storage.tables →
      G w'.storage.ids ∧ P w'.storage.tables)
    (fun _ h => h) (fun h h' => h' ∘ h) (fun _ _ h => h) w
    (fun workflow _ _ _ => within.keeps mild changes lasts workflow _ payload) h

end Changes

end Engine

/-! ### Uses -/

/-- What can be done to a store. -/
inductive Use where
  | author (op : Authoring.Operation)
  | reap (workflow : WorkflowId) (olderThan : Int)
  | execute (engine : Engine) (workflow : Workflow) (triggerType : String) (payload : Fields)
  | fire (engine : Engine) (organization : OrganizationId) (triggerType : TriggerType)
    (payload : Fields)

/-- The operation on the tables by which an author removes workflows or nodes. -/
def Authoring.Operation.removal? : Authoring.Operation → Option Tables.Operation
  | hardDelete workflow => some (.hardDeleteWorkflow workflow.id)
  | hardDeleteNode node => some (.hardDeleteNode node.id)
  | _ => none

namespace Use

/-- The world after a use.  What is refused is not done. -/
def run : Use → World → World
  | author op, w => { w with storage := leftBy (op.run w.storage) }
  | reap workflow olderThan, w =>
    { w with storage := leftBy (reapStale workflow olderThan w.storage) }
  | execute engine workflow triggerType payload, w =>
    leftBy (engine.execute workflow triggerType payload w)
  | fire engine organization triggerType payload, w =>
    leftBy (engine.fire organization triggerType payload w)

/-- The engine with which a use makes runs, if it makes any. -/
def engine? : Use → Option Engine
  | author _ | reap .. => none
  | execute engine .. => some engine
  | fire engine .. => some engine

/-- A use in a world respects `limit`, and so do the actions that it runs, as long as `G` holds of
the supply of identifiers, which it does at first. -/
structure Within (G : IdSupply → Prop) (limit : Tables.Limit) (use : Use) (w : World) : Prop where
  supply : G w.storage.ids
  author : ∀ op, use = .author op → limit w.storage.tables
    (fun kind id => id = (w.storage.ids.next kind).1) (fun removal => op.removal? = some removal)
  actions : ∀ engine, use.engine? = some engine → engine.Within G limit

/-- The identifier `id` is given to no new row of the kind. -/
def Avoids (kind : RowKind) (id : Uuid) : Use → World → Prop :=
  Within (fun ids => ids.Never kind id) (.avoiding kind id)

/-- New nodes get identifiers that no node has. -/
def Fresh : Use → World → Prop := Within (fun _ => True) .fresh

/-- The use respects `limit`, whatever identifiers it gives. -/
def Spares (limit : Tables.Limit) : Use → World → Prop := Within (fun _ => True) limit

end Use

/-- Tables that come about from `t` by uses that are allowed, one after the other.  Between uses the
clock, the supply of identifiers, the outages and the journal may be others. -/
inductive Later (allowed : Use → World → Prop) (t : Tables) : Tables → Prop
  | refl : Later allowed t t
  | step {w : World} (use : Use) (before : Later allowed t w.storage.tables)
      (ok : allowed use w) : Later allowed t (use.run w).storage.tables

/-- Induction over `Later`: what each allowed use keeps is kept. -/
theorem Later.keeps {allowed : Use → World → Prop} {P : Tables → Prop} {t t' : Tables}
    (h : Later allowed t t')
    (step : ∀ use w, allowed use w → P w.storage.tables → P (use.run w).storage.tables)
    (ht : P t) : P t' := by
  induction h with
  | refl => exact ht
  | step use before ok ih => exact step _ _ ok ih

/-! ### What every use keeps -/

namespace Authoring

variable {s : Storage} {given : Handles} {t : Tables}

theorem changes_of_does {op : Operation} (does : Does s op given t) :
    Tables.Changes (fun kind id => id = (s.ids.next kind).1)
      (fun removal => op.removal? = some removal) s.tables t := by
  cases does with
  | look => exact .of_eq rfl rfl
  | create id_eq new => exact ⟨.add ⟨id_eq, new⟩, .same⟩
  | update found id_eq mark => exact .replaceWorkflow found id_eq fun hdeleted => mark ▸ hdeleted
  | @delete workflow row stored found row_eq =>
    -- the row that gets the mark is the one that was asked for
    have hid : stored.id = workflow.id := by simpa using List.find?_some found
    subst row_eq
    exact .replaceWorkflow found hid fun _ => rfl
  | hardDelete =>
    refine .removeWorkflow ?_ _
    rfl
  | createNode id_eq member live owner => exact ⟨.same, .add id_eq⟩
  | updateNode found id_eq member mark =>
    exact .replaceNode found id_eq fun hdeleted => mark ▸ hdeleted
  | deleteNode found row_eq =>
    obtain ⟨-, hid, -⟩ := Tables.getNode_eq_some found
    subst row_eq
    exact .replaceNode found hid fun _ => rfl
  | hardDeleteNode =>
    refine .removeNode ?_ _
    rfl
  | createConnection => exact .of_eq rfl rfl
  | deleteConnection => exact .of_eq rfl rfl

/-- What an author does makes `Changes` that the next identifiers and `removal?` account for. -/
theorem changes_run (op : Operation) (s : Storage) :
    Tables.Changes (fun kind id => id = (s.ids.next kind).1)
      (fun removal => op.removal? = some removal) s.tables (leftBy (op.run s)).tables := by
  cases hrun : op.run s with
  | ok given s' => exact changes_of_does (does_of_run hrun)
  | error e s' =>
    rw [leftBy_error, tables_of_refused hrun]
    exact .of_eq rfl rfl

end Authoring

namespace Use

variable {use : Use} {w : World} {P : Tables → Prop}

/-- A use `Within` a limit keeps what all `Changes` within it keep. -/
theorem Within.keeps {G : IdSupply → Prop} {limit : Tables.Limit} (within : use.Within G limit w)
    (mild : ∀ t, limit t (fun _ _ => False) (fun _ => False))
    (changes : ∀ {added removal t t'}, limit t added removal → Tables.Changes added removal t t' →
      P t → P t') (lasts : ∀ ids kind, G ids → G (ids.next kind).2)
    (htables : P w.storage.tables) : P (use.run w).storage.tables := by
  obtain ⟨supply, author, actions⟩ := within
  cases use with
  | author op => exact changes (author op rfl) (Authoring.changes_run op w.storage) htables
  | reap workflow olderThan =>
    have hwrite := Engine.keeps_after_updateExecution mild changes
    exact reapStale_relates (R := fun s s' => P s.tables → P s'.tables) (fun _ h => h)
      (fun h h' => h' ∘ h) (Storage.keeps_updateExecution hwrite) (fun _ _ h => h) workflow
      olderThan w.storage htables
  | execute engine workflow triggerType payload =>
    have hrun := (actions engine rfl).keeps mild changes lasts workflow triggerType payload
      ⟨supply, htables⟩
    exact hrun.2
  | fire engine organization triggerType payload =>
    have hround := (actions engine rfl).keeps_fire mild changes lasts organization triggerType
      payload ⟨supply, htables⟩
    exact hround.2

theorem Avoids.keeps {kind : RowKind} {id : Uuid} (avoids : use.Avoids kind id w)
    (changes : ∀ {added removal t t'}, ¬ added kind id → Tables.Changes added removal t t' →
      P t → P t') : P w.storage.tables → P (use.run w).storage.tables :=
  Within.keeps avoids (fun _ => not_false) changes fun _ drawn never => never.next drawn

theorem Spares.keeps {limit : Tables.Limit} (spares : use.Spares limit w)
    (mild : ∀ t, limit t (fun _ _ => False) (fun _ => False))
    (changes : ∀ {added removal t t'}, limit t added removal → Tables.Changes added removal t t' →
      P t → P t') : P w.storage.tables → P (use.run w).storage.tables :=
  Within.keeps spares mild changes fun _ _ h => h

end Use

/-- In tables that come `Later` than the empty ones by uses that are `Fresh`, identifiers are
`Distinct`. -/
theorem Later.distinct {t : Tables} (h : Later Use.Fresh Tables.empty t) : t.Distinct := by
  refine h.keeps (P := Tables.Distinct) ?_ ⟨.nil, .nil⟩
  intro use w fresh
  exact Use.Spares.keeps fresh (fun t id hadded => hadded.elim) Tables.Changes.distinct

end TriggerFlow
