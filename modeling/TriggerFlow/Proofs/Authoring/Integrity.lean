import TriggerFlow.Proofs.Authoring.Copies
import TriggerFlow.Proofs.Authoring.Effects
import TriggerFlow.Proofs.Graph.Paths
/-!
# No connection dangles

In `Authored` tables both ends of a connection are rows of its own workflow (`intact_of_authored`),
and so every connection of a graph leads to a live node of it (`Intact.target_live`).

The invariant `Intact` has to speak of the rows in hand as well: a change of a node writes back the
workflow that the row in hand names, and this is the workflow of the stored row because an
identifier is given out once and never changes its workflow.
-/

namespace TriggerFlow.Authoring

/-- Rows of nodes with the same identifier and the same workflow. -/
def Alike (n n' : Node) : Prop := n.id = n'.id ∧ n.workflow = n'.workflow

/-- Rows in hand with the same identifier have the same workflow, every row of a node is `Alike` one
in hand, and both ends of a connection are rows of nodes of its workflow. -/
structure Intact (t : Tables) (h : Handles) : Prop where
  agree : ∀ n ∈ h.nodes, ∀ n' ∈ h.nodes, n.id = n'.id → n.workflow = n'.workflow
  known : ∀ n ∈ t.nodes, ∃ n' ∈ h.nodes, Alike n n'
  anchored : ∀ c ∈ t.connections, ∀ id, c.target = id ∨ c.source = some id →
    ∃ n ∈ t.nodes, n.id = id ∧ n.workflow = c.workflow

variable {s : Storage} {t t' : Tables} {h given : Handles}

theorem intact_empty : Intact Tables.empty Handles.empty := by
  refine ⟨?_, ?_, ?_⟩
  · intro n hn
    simp [Handles.empty] at hn
  · intro n hn
    simp [Tables.empty] at hn
  · intro c hc
    simp [Tables.empty] at hc

/-- The copies of a node, and its row, are of one workflow. -/
theorem Intact.copied (hi : Intact t h) : Copied Node.id Node.workflow t.nodes h.nodes :=
  ⟨hi.agree, hi.known⟩

/-- Handing out rows that are `Alike` rows in hand keeps `Intact`. -/
theorem Intact.handOut (hi : Intact t h) (hgiven : ∀ n ∈ given.nodes, ∃ n' ∈ h.nodes, Alike n n') :
    Intact t (h.and given) :=
  have hcopied := hi.copied.handOut hgiven
  ⟨hcopied.agree, hcopied.known, hi.anchored⟩

/-- Removing rows keeps `Intact`, if the connections that are left have the rows of their ends. -/
theorem Intact.shrink (hi : Intact t h) (hnodes : t'.nodes ⊆ t.nodes)
    (hconnections : t'.connections ⊆ t.connections)
    (hends : ∀ c ∈ t'.connections, ∀ n ∈ t.nodes, c.target = n.id ∨ c.source = some n.id →
      n.workflow = c.workflow → n ∈ t'.nodes) : Intact t' h := by
  refine ⟨hi.agree, fun n hn => hi.known n (hnodes hn), ?_⟩
  intro c hc id hid
  obtain ⟨n, hn, rfl, hw⟩ := hi.anchored c (hconnections hc) id hid
  exact ⟨n, hends c hc n hn hid hw, rfl, hw⟩

/-- Putting a row in the place of one with its identifier keeps `Intact`, if it is `Alike` a row in
hand. -/
theorem Intact.replace (hi : Intact t h) {id : NodeId} {row : Node}
    (hrow : ∃ n ∈ h.nodes, Alike row n) (hid : row.id = id) :
    Intact { t with nodes := Tables.replaceFirst (fun n => n.id == id) row t.nodes } h := by
  obtain ⟨m, hm, hmid, hmw⟩ := hrow
  refine ⟨hi.agree, (hi.copied.replace ⟨m, hm, hmid, hmw⟩ _).known, ?_⟩
  intro c hc id' hid'
  refine Tables.exists_replaceFirst ?_ (hi.anchored c hc id' hid')
  rintro a ha hp ⟨rfl, hw⟩
  have hp : a.id = id := by simpa using hp
  refine ⟨hid.trans hp.symm, ?_⟩
  rw [hmw, ← hw]
  exact (hi.copied.mark_eq ha hm (by rw [hp, ← hid, hmid])).symm

/-- Adding a node under a new identifier keeps `Intact`. -/
theorem Intact.addNode (hi : Intact t h) {row : Node} (hnew : ∀ n ∈ h.nodes, n.id ≠ row.id) :
    Intact { t with nodes := t.nodes ++ [row] } (h.and (.ofNodes [row])) := by
  have hcopied := hi.copied.add hnew
  refine ⟨hcopied.agree, hcopied.known, ?_⟩
  intro c hc id hid
  obtain ⟨n, hn, hanchor⟩ := hi.anchored c hc id hid
  exact ⟨n, List.mem_append_left _ hn, hanchor⟩

/-- Adding a connection between rows of its workflow keeps `Intact`. -/
theorem Intact.addConnection (hi : Intact t h) {row : Connection}
    (hends : ∀ id, row.target = id ∨ row.source = some id →
      ∃ n ∈ t.nodes, n.id = id ∧ n.workflow = row.workflow) :
    Intact { t with connections := t.connections ++ [row] } h := by
  refine ⟨hi.agree, hi.known, ?_⟩
  intro c hc
  rcases List.mem_append.mp hc with hc | hc
  · exact hi.anchored c hc
  · rw [List.mem_singleton.mp hc]
    exact hends

theorem intact_of_does {op : Operation} (hi : Intact s.tables h) (held : op.Held h)
    (fresh : h.Fresh s) (does : Does s op given t) : Intact t (h.and given) := by
  cases does with
  | look looking within => exact hi.handOut fun n hn => hi.known n (within.nodes hn)
  | create =>
    exact Intact.handOut ⟨hi.agree, hi.known, hi.anchored⟩ (by simp [Handles.ofWorkflows])
  | update =>
    exact Intact.handOut ⟨hi.agree, hi.known, hi.anchored⟩ (by simp [Handles.ofWorkflows])
  | delete => exact Intact.handOut ⟨hi.agree, hi.known, hi.anchored⟩ (by simp [Handles.empty])
  | @hardDelete workflow =>
    refine Intact.handOut (hi.shrink ?_ ?_ ?_) (by simp [Handles.empty])
    · exact List.filter_sublist.subset
    · exact List.filter_sublist.subset
    · rintro c hc n hn - hw
      -- what is left belongs elsewhere, and so do the nodes at its ends
      have hkept : c.workflow ≠ workflow.id := by simpa using (List.mem_filter.mp hc).2
      exact List.mem_filter.mpr ⟨hn, by simpa [hw] using hkept⟩
  | createNode id_eq member live owner =>
    apply hi.addNode
    rw [id_eq]
    exact fresh.node
  | @updateNode node data row stored found id_eq member mark =>
    have hrow : ∃ n ∈ h.nodes, Alike row n := ⟨node, held, id_eq, member⟩
    apply (hi.replace hrow id_eq).handOut
    intro n hn
    rwa [List.mem_singleton.mp hn]
  | @deleteNode node row stored found row_eq =>
    obtain ⟨hstored, hid, -⟩ := Tables.getNode_eq_some found
    obtain ⟨n, hn, halike⟩ := hi.known stored hstored
    rw [row_eq]
    exact Intact.handOut (hi.replace ⟨n, hn, halike⟩ hid) (by simp [Handles.empty])
  | @hardDeleteNode node =>
    refine Intact.handOut (hi.shrink ?_ ?_ ?_) (by simp [Handles.empty])
    · exact List.filter_sublist.subset
    · exact List.filter_sublist.subset
    · rintro c hc n hn hend -
      -- a connection that is left has neither end at the removed node
      have hkept := (List.mem_filter.mp hc).2
      simp only [Bool.and_eq_true, bne_iff_ne, ne_eq] at hkept
      refine List.mem_filter.mpr ⟨hn, ?_⟩
      simp only [bne_iff_ne, ne_eq]
      rintro hid
      rw [hid] at hend
      exact hend.elim hkept.1 hkept.2
  | createConnection id_eq member ends owner =>
    refine Intact.handOut (hi.addConnection ?_) (by simp [Handles.ofConnections])
    -- both ends have been looked up in the workflow of the connection
    intro id hid
    obtain ⟨n, hfound, hw⟩ := ends id hid
    obtain ⟨hn, hnid, -⟩ := Tables.getNode_eq_some hfound
    exact ⟨n, hn, hnid, hw.trans member.symm⟩
  | deleteConnection =>
    refine Intact.handOut (hi.shrink ?_ ?_ ?_) (by simp [Handles.empty])
    · exact fun _ hn => hn
    · exact List.filter_sublist.subset
    · exact fun c hc n hn _ _ => hn

/-- Whatever authors do, no connection dangles: `Authored` tables are `Intact`. -/
theorem intact_of_authored (authored : Authored t h) : Intact t h :=
  authored.holds intact_empty (fun _ _ _ hi => ⟨hi.agree, hi.known, hi.anchored⟩)
    fun _ _ _ _ _ _ hi held fresh hrun => intact_of_does hi held fresh (does_of_run hrun)

/-- In `Intact` tables the ends of a connection of a graph are in its `ids`: `Graph.ofRows` has
dropped those that touch a tombstone. -/
theorem Intact.end_live (hi : Intact t h) {workflow : WorkflowId} {c : Connection} {id : NodeId}
    (hc : c ∈ (Graph.ofTables t workflow).connections) (hend : c.target = id ∨ c.source = some id) :
    id ∈ (Graph.ofTables t workflow).ids := by
  obtain ⟨hrow, hworkflow⟩ := List.mem_filter.mp (Graph.mem_connections_ofRows.mp hc).1
  have hworkflow : c.workflow = workflow := by simpa using hworkflow
  obtain ⟨n, hn, hid, hw⟩ := hi.anchored c hrow id hend
  have hmember : n ∈ t.listNodes workflow true :=
    List.mem_filter.mpr ⟨hn, by simp [hw, hworkflow]⟩
  subst hid
  exact Graph.end_live_of_row hc hmember hend

/-- In `Intact` tables a connection of a graph leads to a live node. -/
theorem Intact.target_live (hi : Intact t h) {workflow : WorkflowId} {c : Connection}
    (hc : c ∈ (Graph.ofTables t workflow).connections) :
    c.target ∈ (Graph.ofTables t workflow).ids :=
  hi.end_live hc (.inl rfl)

end TriggerFlow.Authoring
