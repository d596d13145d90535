import TriggerFlow.Proofs.Graph.DepthFirst
/-!
# The depths of a walk

What a walk reports at depth zero are the targets of the connections from the trigger
(`Strolls.enteredAt_zero`).  What it reports one level below is the target of a connection that
leaves the node entered last (`Strolls.descends`).
-/

namespace TriggerFlow

/-- The nodes of the `nodeEntered` events with depth `depth`, in order. -/
def enteredAt (depth : Nat) (hs : List Happening) : List NodeId :=
  hs.filterMap fun
    | .nodeEntered id _ d => if d = depth then some id else none
    | _ => none

namespace DepthFirst

variable {g : Graph} {base : Route} {source : NodeId} {result : Option Bool} {i : Nat}
  {edges : List Connection} {moves : List Move} {whole : Bool}

theorem enteredAt_append (depth : Nat) (hs hs' : List Happening) :
    enteredAt depth (hs ++ hs') = enteredAt depth hs ++ enteredAt depth hs' :=
  List.filterMap_append

theorem enteredAt_enter (depth : Nat) (route : Route) (n : Node) (result : Option Bool) :
    enteredAt depth (Move.enter route n result).happenings =
      if route.length - 1 = depth then [n.id] else [] := by
  have hrest : enteredAt depth (result.map (Happening.conditionEvaluated n.id)).toList = [] := by
    cases result <;> rfl
  simp only [enteredAt] at hrest ⊢
  rw [Move.happenings, List.filterMap_cons, hrest]
  split <;> simp_all

theorem enteredAt_enter_self (base : Route) (i : Nat) (n : Node) (result : Option Bool) :
    enteredAt base.length (Move.enter (base ++ [i]) n result).happenings = [n.id] := by
  rw [enteredAt_enter, if_pos (by simp)]

theorem enteredAt_skip (depth : Nat) (route : Route) (source target : NodeId) :
    enteredAt depth (Move.skip route source target).happenings = [] := rfl

theorem enteredAt_zero_enter {c : Connection} {n : Node} (i : Nat)
    (node : g.node? c.target = some n) {result : Option Bool} :
    enteredAt 0 (Move.enter ([] ++ [i]) n result).happenings = [c.target] := by
  rw [← id_of_node? node]
  exact enteredAt_enter_self [] i n result

/-- The moves of `Strolls g base …` enter nothing at a depth below `base.length`. -/
theorem Strolls.enteredAt_eq_nil (h : Strolls g base source result i edges moves whole)
    {depth : Nat} (hdepth : depth < base.length) :
    enteredAt depth (moves.flatMap Move.happenings) = [] := by
  have hroutes := h.route_of_mem
  clear h
  induction moves with
  | nil => rfl
  | cons move moves ih =>
    rw [List.flatMap_cons, enteredAt_append, ih fun m hm => hroutes m (List.mem_cons_of_mem _ hm),
      List.append_nil]
    cases move with
    | skip route source target => rfl
    | enter route n result =>
      obtain ⟨k, tail, -, hroute⟩ := hroutes _ (List.mem_cons_self ..)
      rw [Move.route] at hroute
      rw [enteredAt_enter, if_neg (by rw [hroute]; simp; omega)]

/-- At depth `0` the targets of `edges` are entered in their order: a prefix of them, and all of
them if the walk is whole. -/
theorem Strolls.enteredAt_zero (h : Strolls g [] source none i edges moves whole) :
    enteredAt 0 (moves.flatMap Move.happenings) <+: edges.map Connection.target ∧
      (whole = true →
        enteredAt 0 (moves.flatMap Move.happenings) = edges.map Connection.target) := by
  generalize hbase : ([] : Route) = base at h
  generalize hresult : (none : Option Bool) = result at h
  induction h with
  | done => exact ⟨List.prefix_rfl, fun _ => rfl⟩
  | skip closed rest ih =>
    -- the trigger has no outcome that could close a connection
    obtain ⟨b, tag, hb, -⟩ := closed
    rw [← hresult] at hb
    simp at hb
  | refuse => exact ⟨List.nil_prefix, fun h => by simp at h⟩
  | fail followed node kind =>
    subst hbase
    refine ⟨?_, fun h => by simp at h⟩
    rw [List.flatMap_singleton, enteredAt_zero_enter _ node, List.map_cons]
    exact List.prefix_append [_] _
  | @stop base source result i c cs n below moves followed node kind down ih =>
    subst hbase
    refine ⟨?_, fun h => by simp at h⟩
    rw [List.flatMap_cons, enteredAt_append, down.enteredAt_eq_nil (by simp),
      enteredAt_zero_enter _ node, List.map_cons]
    exact List.prefix_append [_] _
  | @pass base source result i c cs n below moves moves' whole followed node kind down rest ihdown
      ihrest =>
    subst hbase
    rw [List.flatMap_cons, List.flatMap_append, enteredAt_append, enteredAt_append,
      enteredAt_zero_enter _ node, down.enteredAt_eq_nil (by simp), List.map_cons, List.nil_append]
    obtain ⟨hsome, hwhole⟩ := ihrest rfl hresult
    exact ⟨List.prefix_cons_inj _ |>.mpr hsome, fun h => by rw [hwhole h]; rfl⟩

/-! ### From a node to the nodes below it -/

/-- After the events `seen`, every event that enters a node at depth `d + 1` enters the target of a
connection of the last node that `seen`, continued up to there, enters at depth `d`. -/
def Descends (g : Graph) : List Happening → List Happening → Prop
  | _, [] => True
  | seen, h :: hs =>
    (∀ id kind d, h = .nodeEntered id kind (d + 1) →
      ∃ p, (enteredAt d seen).getLast? = some p ∧ ∃ c ∈ g.outgoing p, c.target = id) ∧
    Descends g (seen ++ [h]) hs

theorem descends_append {seen hs hs' : List Happening} :
    Descends g seen (hs ++ hs') ↔ Descends g seen hs ∧ Descends g (seen ++ hs) hs' := by
  induction hs generalizing seen with
  | nil => simp [Descends]
  | cons h hs ih => simp [Descends, ih, and_assoc]

theorem Descends.parent {hs hs' : List Happening} {id : NodeId} {kind : String} {d : Nat}
    (h : Descends g [] (hs ++ .nodeEntered id kind (d + 1) :: hs')) :
    ∃ p, (enteredAt d hs).getLast? = some p ∧ ∃ c ∈ g.outgoing p, c.target = id := by
  have := (descends_append.mp h).2
  rw [List.nil_append] at this
  exact this.1 id kind d rfl

/-- Entering the target of an edge keeps `Descends`, given that `source` is what was entered last
one level above. -/
theorem descends_enter {seen : List Happening} {c : Connection} {n : Node}
    (node : g.node? c.target = some n) {below : Option Bool}
    (hedge : base ≠ [] → c ∈ g.outgoing source)
    (hlast : ∀ d, base.length = d + 1 → (enteredAt d seen).getLast? = some source) :
    Descends g seen (Move.enter (base ++ [i]) n below).happenings := by
  refine ⟨?_, ?_⟩
  · intro id kind d hentered
    obtain ⟨rfl, -, hd⟩ := Happening.nodeEntered.inj hentered
    have hd : base.length = d + 1 := by simpa using hd
    have hbase : base ≠ [] := by
      rintro rfl
      simp at hd
    exact ⟨source, hlast d hd, c, hedge hbase, (id_of_node? node).symm⟩
  · cases below with
    | none => trivial
    | some b => exact ⟨fun id kind d h => (by simp at h), trivial⟩

theorem Strolls.descends (h : Strolls g base source result i edges moves whole)
    {seen : List Happening} (hedges : base ≠ [] → ∀ c ∈ edges, c ∈ g.outgoing source)
    (hlast : ∀ d, base.length = d + 1 → (enteredAt d seen).getLast? = some source) :
    Descends g seen (moves.flatMap Move.happenings) := by
  induction h generalizing seen with
  | done => trivial
  | refuse => trivial
  | @skip base source result i c cs moves whole closed rest ih =>
    rw [List.flatMap_cons, descends_append]
    refine ⟨⟨fun id kind d h => by simp at h, trivial⟩, ih ?_ ?_⟩
    · exact fun hbase c' hc' => hedges hbase c' (List.mem_cons_of_mem _ hc')
    · intro d hd
      rw [enteredAt_append, enteredAt_skip, List.append_nil]
      exact hlast d hd
  | @fail base source result i c cs n followed node kind =>
    rw [List.flatMap_singleton]
    exact descends_enter node (fun hbase => hedges hbase c (by simp)) hlast
  | @stop base source result i c cs n below moves followed node kind down ih =>
    rw [List.flatMap_cons, descends_append]
    refine ⟨descends_enter node (fun hbase => hedges hbase c (by simp)) hlast,
      ih (fun _ c' hc' => hc') ?_⟩
    intro d hd
    obtain rfl : base.length = d := by simpa using hd
    rw [enteredAt_append, enteredAt_enter_self, id_of_node? node]
    simp
  | @pass base source result i c cs n below moves moves' whole followed node kind down rest ihdown
      ihrest =>
    rw [List.flatMap_cons, List.flatMap_append, descends_append, descends_append]
    refine ⟨descends_enter node (fun hbase => hedges hbase c (by simp)) hlast,
      ihdown (fun _ c' hc' => hc') ?_, ihrest ?_ ?_⟩
    · intro d hd
      obtain rfl : base.length = d := by simpa using hd
      rw [enteredAt_append, enteredAt_enter_self, id_of_node? node]
      simp
    · exact fun hbase c' hc' => hedges hbase c' (List.mem_cons_of_mem _ hc')
    · -- what was entered below lies deeper than the source
      intro d hd
      have hbelow : enteredAt d (moves.flatMap Move.happenings) = [] :=
        down.enteredAt_eq_nil (by simp; omega)
      rw [enteredAt_append, enteredAt_append, hbelow, enteredAt_enter, if_neg (by simp; omega),
        List.append_nil, List.append_nil]
      exact hlast d hd

/-! ### What happenings tell of a walk -/

theorem enteredAt_filter (depth : Nat) (hs : List Happening) :
    enteredAt depth (hs.filter Happening.isMove) = enteredAt depth hs := by
  rw [enteredAt, enteredAt, List.filterMap_filter]
  congr 1
  funext h
  cases h <;> rfl

theorem entriesOf_filter (id : NodeId) (hs : List Happening) :
    entriesOf id (hs.filter Happening.isMove) = entriesOf id hs := by
  rw [entriesOf, entriesOf, List.countP_filter]
  congr 1
  funext h
  cases h <;> simp [Happening.isMove]

/-- The events `hs` report the walk `moves`: their `isMove` part is what the moves report, in order.
-/
structure Tells (g : Graph) (hs : List Happening) (moves : List Move) : Prop where
  reported : hs.filter Happening.isMove = moves.flatMap Move.happenings
  walk : IsWalk g moves
  starts : enteredAt 0 hs <+: g.startEdges.map Connection.target
  descends : ∀ past id kind d future, hs = past ++ .nodeEntered id kind (d + 1) :: future →
    ∃ p, (enteredAt d past).getLast? = some p ∧ ∃ c ∈ g.outgoing p, c.target = id

/-- The events `hs` report a walk that leaves nothing out: all of `g.startEdges` are followed, and
each node is entered once for every path that is `Taken` to it. -/
structure TellsAll (g : Graph) (hs : List Happening) (moves : List Move) : Prop where
  whole : IsWhole g moves
  starts : enteredAt 0 hs = g.startEdges.map Connection.target
  paths : ∀ id, (routesTo id moves).Nodup ∧
    (∀ route, route ∈ routesTo id moves ↔ Taken g moves route id) ∧
    entriesOf id hs = (routesTo id moves).length

theorem tells_nothing {hs : List Happening} (h : hs.filter Happening.isMove = []) :
    Tells g hs [] := by
  have hnone (d : Nat) : enteredAt d hs = [] := by rw [← enteredAt_filter, h]; rfl
  refine ⟨h, ⟨.nil, ?_, ?_, ?_⟩, ?_, ?_⟩
  · rintro route n result hmem
    simp at hmem
  · rintro route source target hmem
    simp at hmem
  · rintro route c - move hmove
    simp at hmove
  · rw [hnone]
    exact List.nil_prefix
  · rintro past id kind d future rfl
    simp [List.filter_cons, Happening.isMove] at h

theorem Strolls.tells (h : Strolls g [] source none 0 g.startEdges moves whole)
    {hs : List Happening} (hreported : hs.filter Happening.isMove = moves.flatMap Move.happenings) :
    Tells g hs moves := by
  refine ⟨hreported, h.isWalk, ?_, ?_⟩
  · rw [← enteredAt_filter, hreported]
    exact h.enteredAt_zero.1
  · rintro past id kind d future rfl
    have hdescends : Descends g [] (moves.flatMap Move.happenings) :=
      h.descends (by simp) (by simp)
    rw [← hreported, List.filter_append, List.filter_cons_of_pos rfl] at hdescends
    simpa only [enteredAt_filter] using hdescends.parent

theorem Strolls.tellsAll (h : Strolls g [] source none 0 g.startEdges moves true)
    {hs : List Happening} (hreported : hs.filter Happening.isMove = moves.flatMap Move.happenings) :
    TellsAll g hs moves := by
  refine ⟨h.isWhole, ?_, ?_⟩
  · rw [← enteredAt_filter, hreported]
    exact h.enteredAt_zero.2 rfl
  · intro id
    refine ⟨nodup_routesTo h.isWalk id, fun route => h.isWhole.mem_routesTo_iff h.isWalk, ?_⟩
    rw [← entriesOf_filter, hreported, entriesOf_happenings]

end DepthFirst

end TriggerFlow
