import TriggerFlow.Graph
import TriggerFlow.Proofs.Outcome
/-!
# What access to the store leaves

Most uses of the store only look at it (`Storage.Looks`): they leave all but the outages that are
due as it was, whatever outage they meet.  In a store without outages no call is refused for a
reason of its own, and looking does not change the store at all (`look_of_calm`, `load_of_calm`).
-/

namespace TriggerFlow.Storage

variable {ε α β : Type} {s s' : Storage}

/-! ### Work that leaves the tables as they were -/

def Reads (work : EStateM ε Storage α) : Prop := ∀ s, (leftBy (work s)).tables = s.tables

theorem Reads.of_ok {work : EStateM ε Storage α} (h : Reads work) {a : α}
    (hs : work s = .ok a s') : s'.tables = s.tables := by
  have := h s
  rwa [hs] at this

theorem Reads.of_error {work : EStateM ε Storage α} (h : Reads work) {e : ε}
    (hs : work s = .error e s') : s'.tables = s.tables := by
  have := h s
  rwa [hs] at this

theorem reads_drawId (kind : RowKind) : Reads (drawId kind) := fun _ => rfl

/-! ### Looking spends outages and nothing else -/

/-- The work changes nothing in the store but its `outages`. -/
def Looks (work : EStateM ε Storage α) : Prop :=
  ∀ s, ∃ outages, leftBy (work s) = { s with outages }

theorem Looks.reads {work : EStateM ε Storage α} (h : Looks work) : Reads work := by
  intro s
  obtain ⟨outages, heq⟩ := h s
  rw [heq]

theorem Looks.of_ok {work : EStateM ε Storage α} (h : Looks work) {a : α}
    (hs : work s = .ok a s') : ∃ outages, s' = { s with outages } := by
  have := h s
  rwa [hs] at this

theorem Looks.of_error {work : EStateM ε Storage α} (h : Looks work) {e : ε}
    (hs : work s = .error e s') : ∃ outages, s' = { s with outages } := by
  have := h s
  rwa [hs] at this

theorem looks_pure (a : α) : Looks (pure a : EStateM ε Storage α) := fun s => ⟨s.outages, rfl⟩

theorem looks_throw (e : ε) : Looks (throw e : EStateM ε Storage α) := fun s => ⟨s.outages, rfl⟩

theorem looks_get : Looks (get : EStateM ε Storage Storage) := fun s => ⟨s.outages, rfl⟩

theorem Looks.bind {work : EStateM ε Storage α} {next : α → EStateM ε Storage β}
    (h : Looks work) (hnext : ∀ a, Looks (next a)) : Looks (work >>= next) := by
  intro s
  rw [bind_apply]
  cases hs : work s with
  | ok a s' =>
    obtain ⟨outages, rfl⟩ := h.of_ok hs
    exact hnext a _
  | error e s' => exact h.of_error hs

theorem looks_attempt (call : StoreCall) : Looks (attempt call) := by
  intro s
  unfold attempt
  split <;> exact ⟨_, rfl⟩

theorem looks_look (call : StoreCall) (f : Tables → α) : Looks (look call f) :=
  (looks_attempt call).bind fun _ => looks_get.bind fun _ => looks_pure _

theorem look_eq_ok {call : StoreCall} {f : Tables → α} {a : α} (h : look call f s = .ok a s') :
    a = f s.tables := by
  obtain ⟨_, s₁, h₁, h₂⟩ := bind_eq_ok_iff.mp h
  obtain ⟨outages, rfl⟩ := (looks_attempt call).of_ok h₁
  exact (EStateM.Result.ok.inj h₂).1.symm

/-! ### Writing -/

theorem change_eq_ok {f : Storage → Tables.Outcome α} {a : α} (h : change f s = .ok a s') :
    f s = .ok (a, s'.tables) := by
  unfold change at h
  split at h
  · next hf =>
    simp only [EStateM.Result.ok.injEq] at h
    rw [hf, h.1, ← h.2]
  · simp at h

/-- A `change` that is refused leaves the store as it was. -/
theorem change_eq_error {f : Storage → Tables.Outcome α} {e : StoreError}
    (h : change f s = .error e s') : s' = s := by
  unfold change at h
  split at h
  · simp at h
  · simp only [EStateM.Result.error.injEq] at h
    exact h.2.symm

section Write

variable {call : StoreCall} {kind : RowKind} {a : α} {e : StoreError}
  {f : Tables → Timestamp → Tables.Outcome α} {g : Uuid → Tables → Tables.Outcome α}

/-- Where a call that writes succeeds, its answer and the tables are those of `f`. -/
theorem write_eq_ok
    (h : (attempt call >>= fun _ => change fun s => f s.tables s.clock) s = .ok a s') :
    f s.tables s.clock = .ok (a, s'.tables) := by
  obtain ⟨_, s₁, h₁, h₂⟩ := bind_eq_ok_iff.mp h
  obtain ⟨outages, rfl⟩ := (looks_attempt call).of_ok h₁
  exact change_eq_ok h₂

theorem write_eq_error
    (h : (attempt call >>= fun _ => change fun s => f s.tables s.clock) s = .error e s') :
    s'.tables = s.tables := by
  rcases bind_eq_error_iff.mp h with h₁ | ⟨_, s₁, h₁, h₂⟩
  · exact (looks_attempt call).reads.of_error h₁
  · rw [change_eq_error h₂]
    exact (looks_attempt call).reads.of_ok h₁

/-- Where a call that inserts succeeds, its answer and the tables are those of `g` under the next
identifier of the kind. -/
theorem insert_eq_ok
    (h : (attempt call >>= fun _ => drawId kind >>= fun id => change fun s => g id s.tables) s
      = .ok a s') : g (s.ids.next kind).1 s.tables = .ok (a, s'.tables) := by
  obtain ⟨_, s₁, h₁, h₂⟩ := bind_eq_ok_iff.mp h
  obtain ⟨outages, rfl⟩ := (looks_attempt call).of_ok h₁
  obtain ⟨id, s₂, h₃, h₄⟩ := bind_eq_ok_iff.mp h₂
  simp only [drawId, EStateM.Result.ok.injEq] at h₃
  obtain ⟨rfl, rfl⟩ := h₃
  exact change_eq_ok h₄

theorem insert_eq_error
    (h : (attempt call >>= fun _ => drawId kind >>= fun id => change fun s => g id s.tables) s
      = .error e s') : s'.tables = s.tables := by
  rcases bind_eq_error_iff.mp h with h₁ | ⟨_, s₁, h₁, h₂⟩
  · exact (looks_attempt call).reads.of_error h₁
  rcases bind_eq_error_iff.mp h₂ with h₃ | ⟨id, s₂, h₃, h₄⟩
  · simp [drawId] at h₃
  · rw [change_eq_error h₄, (reads_drawId kind).of_ok h₃]
    exact (looks_attempt call).reads.of_ok h₁

end Write

/-! ### Without outages -/

theorem attempt_of_calm (h : s.outages = []) (call : StoreCall) : attempt call s = .ok () s := by
  unfold attempt
  rw [h]
  simp only [Outage.meet]
  rw [← h]

theorem look_of_calm (h : s.outages = []) (call : StoreCall) (f : Tables → α) :
    look call f s = .ok (f s.tables) s := by
  rw [look, bind_of_ok (attempt_of_calm h call)]
  rfl

theorem listNodes_of_calm (h : s.outages = []) (workflow : WorkflowId) (withDeleted : Bool) :
    listNodes workflow withDeleted s = .ok (s.tables.listNodes workflow withDeleted) s :=
  look_of_calm h .listNodes fun t => t.listNodes workflow withDeleted

theorem listConnections_of_calm (h : s.outages = []) (workflow : WorkflowId) :
    listConnections workflow s = .ok (s.tables.listConnections workflow) s :=
  look_of_calm h .listConnections fun t => t.listConnections workflow

theorem getNode_of_calm (h : s.outages = []) (id : NodeId) (withDeleted : Bool) :
    getNode id withDeleted s = .ok (s.tables.getNode id withDeleted) s :=
  look_of_calm h .getNode fun t => t.getNode id withDeleted

/-- Without outages, an insertion is the `change` by `f` under the next identifier, with that
identifier given out. -/
theorem insert_of_calm (h : s.outages = []) (call : StoreCall) (kind : RowKind)
    (f : Uuid → Storage → Tables.Outcome α) :
    (attempt call >>= fun _ => drawId kind >>= fun id => change (f id)) s
      = change (f (s.ids.next kind).1) { s with ids := (s.ids.next kind).2 } := by
  rw [bind_of_ok (attempt_of_calm h call)]
  rfl

theorem insert_eq_ok_iff (h : s.outages = []) {call : StoreCall} {kind : RowKind} {a : α}
    {g : Uuid → Tables → Tables.Outcome α} :
    (attempt call >>= fun _ => drawId kind >>= fun id => change fun s => g id s.tables) s
        = .ok a s' ↔
      ∃ t, g (s.ids.next kind).1 s.tables = .ok (a, t) ∧
        s' = { s with ids := (s.ids.next kind).2, tables := t } := by
  rw [insert_of_calm h call kind fun id s => g id s.tables]
  unfold change
  dsimp only
  cases hg : g (s.ids.next kind).1 s.tables with
  | error e => simp
  | ok answer =>
    obtain ⟨a', t⟩ := answer
    simp only [EStateM.Result.ok.injEq, Except.ok.injEq, Prod.mk.injEq]
    constructor
    · rintro ⟨rfl, rfl⟩
      exact ⟨t, ⟨rfl, rfl⟩, rfl⟩
    · rintro ⟨t', ⟨rfl, rfl⟩, rfl⟩
      exact ⟨rfl, rfl⟩

/-! ### Executions -/

/-- Where `insertExecution` succeeds, the row is the last of `executions` under the next identifier,
and nothing else in the tables has changed. -/
theorem insertExecution_eq_ok {row e : Execution} (h : insertExecution row s = .ok e s') :
    e = { row with id := (s.ids.next .execution).1 } ∧
      s'.tables = { s.tables with executions := s.tables.executions ++ [e] } := by
  have hinsert := insert_eq_ok (g := fun id t => t.insertExecution { row with id }) h
  simp only [Tables.insertExecution, Except.ok.injEq, Prod.mk.injEq] at hinsert
  obtain ⟨rfl, htables⟩ := hinsert
  exact ⟨rfl, htables.symm⟩

theorem insertExecution_of_calm (h : s.outages = []) (row : Execution) :
    insertExecution row s =
      .ok { row with id := (s.ids.next .execution).1 }
        { s with
          ids := (s.ids.next .execution).2
          tables := { s.tables with
            executions := s.tables.executions ++
              [{ row with id := (s.ids.next .execution).1 }] } } := by
  rw [insertExecution, insert_of_calm h]
  rfl

theorem insertExecution_eq_error {row : Execution} {e : StoreError}
    (h : insertExecution row s = .error e s') : s'.tables = s.tables :=
  insert_eq_error (g := fun id t => t.insertExecution { row with id }) h

end TriggerFlow.Storage

namespace TriggerFlow.Graph

open Storage

variable {s s' : Storage}

theorem looks_load (workflow : WorkflowId) : Looks (load workflow) :=
  (looks_look _ _).bind fun _ => (looks_look _ _).bind fun _ => looks_pure _

/-- A graph that is loaded is `Graph.ofTables` of the tables. -/
theorem load_eq_ok {workflow : WorkflowId} {g : Graph} (h : load workflow s = .ok g s') :
    g = ofTables s.tables workflow := by
  obtain ⟨nodes, s₁, h₁, h₂⟩ := bind_eq_ok_iff.mp h
  obtain ⟨connections, s₂, h₃, h₄⟩ := bind_eq_ok_iff.mp h₂
  have hnodes := look_eq_ok h₁
  have hconnections := look_eq_ok h₃
  rw [(looks_look _ _).reads.of_ok h₁] at hconnections
  simp only [pure_apply, EStateM.Result.ok.injEq] at h₄
  rw [← h₄.1, hnodes, hconnections, ofTables]

theorem load_of_calm (h : s.outages = []) (workflow : WorkflowId) :
    load workflow s = .ok (ofTables s.tables workflow) s := by
  rw [load, bind_of_ok (listNodes_of_calm h _ _), bind_of_ok (listConnections_of_calm h _)]
  rfl

end TriggerFlow.Graph
