import Mathlib.Logic.Function.Basic
import TriggerFlow.Proofs.Graph.Links
import TriggerFlow.Proofs.Graph.Priority
import TriggerFlow.Proofs.Keys
/-!
# What a graph makes of its rows

A graph keeps the connections that have no tombstone at either end (`Graph.freeRows`).  It can be
laid out in one pass over them, in ascending order of priority, each of them coming last where it
starts (`Layout.ofConnections`): `Layout.ofConnections g.connections = ⟨g.startEdges, g.outgoing⟩`
(`layout_eq`).

In this no row gets lost, doubled or out of its turn (`ofRows_arranges`), whatever nodes the rows of
connections name.
-/

namespace TriggerFlow

/-! ### Members by their keys -/

/-- Splitting `as` by key, first those without one and then those of each of the `keys`, permutes
it, if `keys` has no duplicates and covers every key that occurs. -/
theorem perm_of_keys {α κ : Type} [DecidableEq κ] (key : α → Option κ) {keys : List κ}
    (nodup : keys.Nodup) (as : List α) (covered : ∀ a ∈ as, ∀ k, key a = some k → k ∈ keys) :
    (as.filter (fun a => (key a).isNone) ++
      keys.flatMap fun k => as.filter fun a => key a == some k).Perm as := by
  induction keys generalizing as with
  | nil =>
    have hnone : ∀ a ∈ as, (key a).isNone = true := by
      intro a ha
      cases hkey : key a with
      | none => rfl
      | some k => exact absurd (covered a ha k hkey) List.not_mem_nil
    rw [List.flatMap_nil, List.append_nil, List.filter_eq_self.mpr hnone]
  | cons k keys ih =>
    obtain ⟨hnew, nodup⟩ := List.nodup_cons.mp nodup
    -- the members of the first key apart, the other keys cover what is left
    have hrest := ih nodup (as.filter fun a => !(key a == some k)) fun a ha k' hk' => by
      obtain ⟨hmem, hne⟩ := List.mem_filter.mp ha
      refine (List.mem_cons.mp (covered a hmem k' hk')).resolve_left ?_
      rintro rfl
      simp [hk'] at hne
    have hfree : (as.filter fun a => !(key a == some k)).filter (fun a => (key a).isNone) =
        as.filter fun a => (key a).isNone := by
      rw [List.filter_filter]
      refine List.filter_congr fun a _ => ?_
      cases key a <;> simp
    have hothers : (keys.flatMap fun k' =>
        (as.filter fun a => !(key a == some k)).filter fun a => key a == some k') =
        keys.flatMap fun k' => as.filter fun a => key a == some k' := by
      refine List.flatMap_congr fun k' hk' => ?_
      have hne : k' ≠ k := fun heq => hnew (heq ▸ hk')
      rw [List.filter_filter]
      refine List.filter_congr fun a _ => ?_
      by_cases hkey : key a = some k' <;> simp [hkey, hne]
    rw [hfree, hothers] at hrest
    rw [List.flatMap_cons]
    exact (List.perm_append_comm_assoc _ _ _).trans
      ((hrest.append_left _).trans (List.filter_append_perm _ as))

/-! ### Laying out connections -/

/-- Connections by where they start: at the trigger, or at a node. -/
@[ext]
structure Layout where
  start : List Connection
  outgoing : NodeId → List Connection

namespace Layout

def empty : Layout := ⟨[], fun _ => []⟩

/-- Lays down a connection after those that start where it does. -/
def push (l : Layout) (c : Connection) : Layout :=
  match c.source with
  | none => { l with start := l.start ++ [c] }
  | some id => { l with outgoing := Function.update l.outgoing id (l.outgoing id ++ [c]) }

/-- Lays down connections one after the other, with `push` from `empty`. -/
def ofConnections (cs : List Connection) : Layout := cs.foldl push empty

theorem start_foldl_push (cs : List Connection) (l : Layout) :
    (cs.foldl push l).start = l.start ++ cs.filter fun c => c.source.isNone := by
  induction cs generalizing l with
  | nil => simp
  | cons c cs ih =>
    rw [List.foldl_cons, ih]
    cases hsource : c.source <;> simp [push, hsource]

theorem outgoing_foldl_push (cs : List Connection) (l : Layout) (id : NodeId) :
    (cs.foldl push l).outgoing id = l.outgoing id ++ cs.filter fun c => c.source == some id := by
  induction cs generalizing l with
  | nil => simp
  | cons c cs ih =>
    rw [List.foldl_cons, ih]
    cases hsource : c.source with
    | none => simp [push, hsource]
    | some source =>
      by_cases hid : source = id
      · subst hid
        simp [push, hsource]
      · simp [push, hsource, hid, Function.update_of_ne (Ne.symm hid)]

end Layout

namespace Graph

/-- One pass over `g.connections` lays out what the filters `startEdges` and `outgoing` find. -/
theorem layout_eq (g : Graph) :
    Layout.ofConnections g.connections = ⟨g.startEdges, g.outgoing⟩ := by
  ext1
  · exact Layout.start_foldl_push g.connections .empty
  · funext id
    exact Layout.outgoing_foldl_push g.connections .empty id

/-! ### Rows and tombstones -/

/-- A row with `deleted = true` is at the source or the target of `c`. -/
def AtTombstone (nodes : List Node) (c : Connection) : Prop :=
  ∃ n ∈ nodes, n.deleted = true ∧ (c.target = n.id ∨ c.source = some n.id)

instance (nodes : List Node) (c : Connection) : Decidable (AtTombstone nodes c) :=
  inferInstanceAs (Decidable (∃ n ∈ nodes, _))

theorem touches_tombstones_iff {nodes : List Node} {c : Connection} :
    touches (tombstones nodes) c = true ↔ AtTombstone nodes c := by
  refine ⟨exists_tombstone_of_touches, ?_⟩
  rintro ⟨n, hn, hdeleted, hend⟩
  have htomb : n.id ∈ tombstones nodes :=
    List.mem_map.mpr ⟨n, List.mem_filter.mpr ⟨hn, hdeleted⟩, rfl⟩
  rcases hend with htarget | hsource
  · simp [touches, htarget, htomb]
  · simp [touches, hsource, htomb]

/-- The rows of connections that are not `AtTombstone`, in the order of the rows. -/
def freeRows (nodes : List Node) (connections : List Connection) : List Connection :=
  connections.filter fun c => ¬ AtTombstone nodes c

/-- The connections of a graph are its `freeRows`, sorted by priority with a stable sort. -/
theorem connections_ofRows (nodes : List Node) (connections : List Connection) :
    (ofRows nodes connections).connections = (freeRows nodes connections).mergeSort
      fun a b => decide (a.priority.toInt ≤ b.priority.toInt) := by
  have hfree : freeRows nodes connections =
      connections.filter fun c => !touches (tombstones nodes) c := by
    refine List.filter_congr fun c _ => ?_
    rw [Bool.eq_iff_iff, decide_eq_true_iff, ← touches_tombstones_iff, Bool.not_eq_true,
      Bool.not_eq_true']
  rw [hfree, ofRows]

/-- Where identifiers are distinct, `node? id` finds `n` exactly if `n` is the row of `id` and not
deleted. -/
theorem node?_ofRows_eq_some_iff {nodes : List Node} (connections : List Connection)
    (distinct : (nodes.map Node.id).Nodup) {id : NodeId} {n : Node} :
    (ofRows nodes connections).node? id = some n ↔ n ∈ nodes ∧ n.id = id ∧ n.deleted = false := by
  have hnodup : ((nodes.filter fun n => !n.deleted).map Node.id).Nodup :=
    distinct.sublist (List.filter_sublist.map _)
  rw [node?, nodes_ofRows_of_distinct connections distinct, find?_eq_some_iff_of_nodup hnodup,
    List.mem_filter, Bool.not_eq_true', and_assoc, and_comm (a := n.deleted = false)]

/-- The rows without tombstones make up `startEdges` and `outgoing`, each row once and each list in
ascending, stable order of priority; the nodes are those found under their identifiers.  The
`sources` are any list without duplicates that covers what the rows name as their source. -/
theorem ofRows_arranges (nodes : List Node) (connections : List Connection)
    (distinct : (nodes.map Node.id).Nodup) :
    let g := ofRows nodes connections
    let rows := freeRows nodes connections
    Layout.ofConnections g.connections = ⟨g.startEdges, g.outgoing⟩ ∧
    (∀ sources : List NodeId, sources.Nodup →
      (∀ c ∈ rows, ∀ id, c.source = some id → id ∈ sources) →
      (g.startEdges ++ sources.flatMap g.outgoing).Perm rows) ∧
    ByPriority (rows.filter fun c => c.source.isNone) g.startEdges ∧
    (∀ id, ByPriority (rows.filter fun c => c.source == some id) (g.outgoing id)) ∧
    ∀ id n, g.node? id = some n ↔ n ∈ nodes ∧ n.id = id ∧ n.deleted = false := by
  intro g rows
  have hconnections : g.connections = rows.mergeSort fun a b =>
      decide (a.priority.toInt ≤ b.priority.toInt) := connections_ofRows nodes connections
  have hperm : g.connections.Perm rows := by
    rw [hconnections]
    exact List.mergeSort_perm _ _
  have hordered : ByPriority rows g.connections := by
    rw [hconnections]
    exact byPriority_mergeSort rows
  refine ⟨layout_eq g, fun sources nodup covered => ?_, hordered.filter _,
    fun id => hordered.filter _, fun id n => node?_ofRows_eq_some_iff connections distinct⟩
  -- each row is in the part of its source, and in no other
  have hall := perm_of_keys Connection.source nodup g.connections fun c hc =>
    covered c (hperm.mem_iff.mp hc)
  exact hall.trans hperm

/-! ### Rows of all kinds -/

/-- A live node and a tombstone. -/
def strewnNodes : List Node :=
  [.new (Uuid.ofHalves 0 1) Uuid.nil .trigger,
   { Node.new (Uuid.ofHalves 0 2) Uuid.nil .trigger with deleted := true }]

/-- Connections to either node, with the extreme priorities, and one from a node that has no row. -/
def strewnConnections : List Connection :=
  [(Connection.start (Uuid.ofHalves 1 1) Uuid.nil (Uuid.ofHalves 0 1)).withPriority 2147483647,
   Connection.start (Uuid.ofHalves 1 2) Uuid.nil (Uuid.ofHalves 0 2),
   Connection.between (Uuid.ofHalves 1 3) Uuid.nil (Uuid.ofHalves 0 3) (Uuid.ofHalves 0 1),
   (Connection.start (Uuid.ofHalves 1 4) Uuid.nil (Uuid.ofHalves 0 1)).withPriority (-2147483648)]

/-- Of `strewnConnections` only the one at index `1`, which leads to the tombstone, is left out. -/
theorem strewnConnections_arranged :
    let g := ofRows strewnNodes strewnConnections
    (strewnNodes.map Node.id).Nodup ∧
      (g.startEdges ++ g.outgoing (Uuid.ofHalves 0 3)).Perm (strewnConnections.eraseIdx 1) ∧
      g.startEdges.Pairwise fun a b => a.priority.toInt ≤ b.priority.toInt := by
  intro g
  have distinct : (strewnNodes.map Node.id).Nodup := by decide
  obtain ⟨-, hperm, hstart, -, -⟩ := ofRows_arranges strewnNodes strewnConnections distinct
  refine ⟨distinct, ?_, hstart.ascending⟩
  have hrows : freeRows strewnNodes strewnConnections = strewnConnections.eraseIdx 1 := rfl
  have hall := hperm [Uuid.ofHalves 0 3] (List.nodup_singleton _) (by rw [hrows]; decide)
  rw [List.flatMap_singleton, hrows] at hall
  exact hall

end Graph

end TriggerFlow
