import Mathlib.Data.List.Lex
import TriggerFlow.Event
import TriggerFlow.Graph
/-!
# The order of a walk

A run walks the unfolding of its graph: a place in it is a `Route`, the positions of the connections
followed from the trigger.  What a run does with a connection is a `Move`, and its moves are a walk
(`IsWalk`): they come in lexicographic order of their routes (`Before`), which is depth first and in
pre-order; nothing before a move is left out; a connection is skipped exactly if it is `Closed` by
the outcome of the condition that it leaves, and is otherwise followed to its node.  The walk of a
run that completes leaves nothing out at all (`IsWhole`).
-/

namespace TriggerFlow

/-- The events of which a walk is made: `nodeEntered`, `conditionEvaluated` and `edgeSkipped`. -/
def Happening.isMove : Happening → Bool
  | nodeEntered .. | conditionEvaluated .. | edgeSkipped .. => true
  | _ => false

namespace DepthFirst

/-- A place in the unfolding of a graph: `[i, j, …]` is connection `i` of `startEdges`, then
connection `j` of those that leave its target, and so on. -/
abbrev Route := List Nat

/-- What a walk does with the connection at `route`: `enter` its target, with the outcome of a
condition, or `skip` it. -/
inductive Move where
  | enter (route : Route) (node : Node) (result : Option Bool)
  | skip (route : Route) (source target : NodeId)

namespace Move

def route : Move → Route
  | enter route _ _ => route
  | skip route _ _ => route

/-- The events that report a move.  The depth of an entered node is `route.length - 1`. -/
def happenings : Move → List Happening
  | enter route n result =>
    .nodeEntered n.id (Vocabulary.text n.nodeType) (route.length - 1)
      :: (result.map (.conditionEvaluated n.id)).toList
  | skip _ source target => [.edgeSkipped source target]

end Move

/-- The outcome of the condition that was entered at `route`, and `none` if none was. -/
def resultAt (moves : List Move) (route : Route) : Option Bool :=
  moves.findSome? fun
    | .enter r _ result => if r = route then result else none
    | .skip .. => none

/-- The connection is tagged with the other outcome than `result`. -/
def Closed (result : Option Bool) (c : Connection) : Prop :=
  ∃ b tag, result = some b ∧ c.branch = some tag ∧ tag ≠ ConditionType.ofBool b

/-- From the place `base`, which the connections `edges` leave, connections that are not `Closed`
lead to the place `route`, whose connection is `c`.  The outcome at a place is `results` of its
route. -/
inductive Leads (g : Graph) (results : Route → Option Bool) :
    Route → List Connection → Route → Connection → Prop
  | here {base edges i c} (at_i : edges[i]? = some c) :
      Leads g results base edges (base ++ [i]) c
  | onward {base edges i c route c'} (at_i : edges[i]? = some c)
      (followed : ¬ Closed (results base) c)
      (rest : Leads g results (base ++ [i]) (g.outgoing c.target) route c') :
      Leads g results base edges route c'

/-- The route `route` is a place of the unfolding from the trigger, with the connection `c`, where
the outcomes are those of `moves`. -/
def Place (g : Graph) (moves : List Move) (route : Route) (c : Connection) : Prop :=
  Leads g (resultAt moves) [] g.startEdges route c

/-- The lexicographic order of routes: a place comes before all below it, and everything below
connection `i` before connection `j` for `i < j`. -/
def Before (r r' : Route) : Prop := List.Lex (· < ·) r r'

/-- Moves that walk a graph depth first, each of them at a `Place` of the unfolding that the
outcomes of the moves make out. -/
structure IsWalk (g : Graph) (moves : List Move) : Prop where
  /-- The routes come in the order `Before`, so that none comes twice. -/
  ascending : (moves.map Move.route).Pairwise Before
  /-- What is entered is the live node of the target, at a place that is not `Closed`; only a
  condition has an outcome. -/
  enters : ∀ route n result, .enter route n result ∈ moves →
    (∃ c, Place g moves route c ∧ ¬ Closed (resultAt moves route.dropLast) c ∧
      g.node? c.target = some n) ∧
    (result.isSome = true ↔ n.nodeType = .condition)
  /-- What is skipped is a connection that is `Closed`. -/
  skips : ∀ route source target, .skip route source target ∈ moves →
    ∃ c, Place g moves route c ∧ Closed (resultAt moves route.dropLast) c ∧
      c.source = some source ∧ c.target = target
  /-- No place `Before` that of a move is left out. -/
  gapless : ∀ route c, Place g moves route c →
    ∀ move ∈ moves, Before route move.route → route ∈ moves.map Move.route

/-- Every `Place` of the unfolding has a move. -/
def IsWhole (g : Graph) (moves : List Move) : Prop :=
  ∀ route c, Place g moves route c → route ∈ moves.map Move.route

/-! ### Walks as derivations -/

/-- The moves of a walk that follows `edges` from the place `base`, where `source` was entered with
the outcome `result`; the first of `edges` has the position `i`.  The last argument is whether the
walk was carried to its end. -/
inductive Strolls (g : Graph) :
    Route → NodeId → Option Bool → Nat → List Connection → List Move → Bool → Prop
  | done {base source result i} : Strolls g base source result i [] [] true
  | skip {base source result i c cs moves whole} (closed : Closed result c)
      (rest : Strolls g base source result (i + 1) cs moves whole) :
      Strolls g base source result i (c :: cs) (.skip (base ++ [i]) source c.target :: moves) whole
  | refuse {base source result i c cs} (followed : ¬ Closed result c) :
      Strolls g base source result i (c :: cs) [] false
  | fail {base source result i c cs n} (followed : ¬ Closed result c)
      (node : g.node? c.target = some n) (kind : n.nodeType ≠ .condition) :
      Strolls g base source result i (c :: cs) [.enter (base ++ [i]) n none] false
  | stop {base source result i c cs n below moves} (followed : ¬ Closed result c)
      (node : g.node? c.target = some n) (kind : below.isSome = true ↔ n.nodeType = .condition)
      (down : Strolls g (base ++ [i]) c.target below 0 (g.outgoing c.target) moves false) :
      Strolls g base source result i (c :: cs) (.enter (base ++ [i]) n below :: moves) false
  | pass {base source result i c cs n below moves moves' whole} (followed : ¬ Closed result c)
      (node : g.node? c.target = some n) (kind : below.isSome = true ↔ n.nodeType = .condition)
      (down : Strolls g (base ++ [i]) c.target below 0 (g.outgoing c.target) moves true)
      (rest : Strolls g base source result (i + 1) cs moves' whole) :
      Strolls g base source result i (c :: cs)
        (.enter (base ++ [i]) n below :: (moves ++ moves')) whole

/-! ### The order of places -/

section Order

variable {base r r' : Route} {i k : Nat}

theorem before_append_iff : Before (base ++ r) (base ++ r') ↔ Before r r' := by
  induction base with
  | nil => rfl
  | cons a base ih =>
    rw [← ih]
    exact List.lex_cons_iff

theorem before_of_lt (h : i < k) : Before (base ++ i :: r) (base ++ k :: r') :=
  before_append_iff.mpr (.rel h)

theorem not_before_of_lt (h : i < k) : ¬ Before (base ++ k :: r) (base ++ i :: r') := by
  rw [before_append_iff]
  intro hlex
  cases hlex with
  | rel hlt => omega
  | cons => omega

theorem before_extension : Before base (base ++ i :: r) := by
  have : Before (base ++ []) (base ++ i :: r) := before_append_iff.mpr .nil
  rwa [List.append_nil] at this

theorem not_extension_before : ¬ Before (base ++ r) base := by
  intro h
  have : Before (base ++ r) (base ++ []) := by rwa [List.append_nil]
  rw [before_append_iff] at this
  cases this

end Order

/-! ### Moves stay at and below their places -/

variable {g : Graph} {base : Route} {source : NodeId} {result : Option Bool} {i : Nat}
  {edges : List Connection} {moves : List Move} {whole : Bool}

theorem Strolls.route_of_mem (h : Strolls g base source result i edges moves whole) :
    ∀ move ∈ moves, ∃ k tail, i ≤ k ∧ move.route = base ++ k :: tail := by
  -- routes below a connection go on from it, those beside it start at a later one
  induction h with
  | done => simp
  | refuse => simp
  | skip closed rest ih =>
    intro move hmove
    rcases List.mem_cons.mp hmove with rfl | hmove
    · exact ⟨_, [], le_rfl, rfl⟩
    · obtain ⟨k, tail, hk, hroute⟩ := ih move hmove
      exact ⟨k, tail, by omega, hroute⟩
  | fail followed node kind =>
    intro move hmove
    rw [List.mem_singleton.mp hmove]
    exact ⟨_, [], le_rfl, rfl⟩
  | stop followed node kind down ih =>
    intro move hmove
    rcases List.mem_cons.mp hmove with rfl | hmove
    · exact ⟨_, [], le_rfl, rfl⟩
    · obtain ⟨k, tail, -, hroute⟩ := ih move hmove
      exact ⟨_, k :: tail, le_rfl, by rw [hroute, List.append_assoc]; rfl⟩
  | pass followed node kind down rest ihdown ihrest =>
    intro move hmove
    rcases List.mem_cons.mp hmove with rfl | hmove
    · exact ⟨_, [], le_rfl, rfl⟩
    rcases List.mem_append.mp hmove with hmove | hmove
    · obtain ⟨k, tail, -, hroute⟩ := ihdown move hmove
      exact ⟨_, k :: tail, le_rfl, by rw [hroute, List.append_assoc]; rfl⟩
    · obtain ⟨k, tail, hk, hroute⟩ := ihrest move hmove
      exact ⟨k, tail, by omega, hroute⟩

/-- Every move below the place `base` comes after it. -/
theorem Strolls.before_of_mem (h : Strolls g base source result i edges moves whole) :
    ∀ move ∈ moves, Before base move.route := by
  intro move hmove
  obtain ⟨k, tail, -, hroute⟩ := h.route_of_mem move hmove
  rw [hroute]
  exact before_extension

/-- The moves below connection `i` come before those of the connections after it. -/
theorem Strolls.before_of_mem_rest {c : Connection} {below : Option Bool} {moves' : List Move}
    {cs : List Connection}
    (down : Strolls g (base ++ [i]) c.target below 0 (g.outgoing c.target) moves true)
    (rest : Strolls g base source result (i + 1) cs moves' whole) :
    ∀ move ∈ moves, ∀ move' ∈ moves', Before move.route move'.route := by
  intro move hmove move' hmove'
  obtain ⟨k, tail, -, hroute⟩ := down.route_of_mem move hmove
  obtain ⟨k', tail', hk', hroute'⟩ := rest.route_of_mem move' hmove'
  rw [hroute, hroute', List.append_assoc]
  exact before_of_lt (by omega)

theorem Strolls.ascending (h : Strolls g base source result i edges moves whole) :
    (moves.map Move.route).Pairwise Before := by
  -- within a list of connections, positions grow; within one connection, routes get longer
  have hfirst {i : Nat} {cs moves whole} {result : Option Bool} {base : Route} {source : NodeId}
      (rest : Strolls g base source result (i + 1) cs moves whole) :
      ∀ route ∈ moves.map Move.route, Before (base ++ [i]) route := by
    intro route hroute
    obtain ⟨move, hmove, rfl⟩ := List.mem_map.mp hroute
    obtain ⟨k, tail, hk, hroute⟩ := rest.route_of_mem move hmove
    rw [hroute]
    exact before_of_lt (by omega)
  induction h with
  | done => exact .nil
  | refuse => exact .nil
  | fail => exact List.pairwise_singleton _ _
  | skip closed rest ih => exact List.pairwise_cons.mpr ⟨hfirst rest, ih⟩
  | stop followed node kind down ih =>
    refine List.pairwise_cons.mpr ⟨?_, ih⟩
    intro route hroute
    obtain ⟨move, hmove, rfl⟩ := List.mem_map.mp hroute
    exact down.before_of_mem move hmove
  | pass followed node kind down rest ihdown ihrest =>
    rw [List.map_cons, List.map_append]
    refine List.pairwise_cons.mpr ⟨?_, List.pairwise_append.mpr ⟨ihdown, ihrest, ?_⟩⟩
    · intro route hroute
      rcases List.mem_append.mp hroute with hroute | hroute
      · obtain ⟨move, hmove, rfl⟩ := List.mem_map.mp hroute
        exact down.before_of_mem move hmove
      · exact hfirst rest route hroute
    · intro route hroute route' hroute'
      obtain ⟨move, hmove, rfl⟩ := List.mem_map.mp hroute
      obtain ⟨move', hmove', rfl⟩ := List.mem_map.mp hroute'
      exact down.before_of_mem_rest rest move hmove move' hmove'

/-! ### Outcomes are read off the moves -/

/-- The function `results` gives at every place the outcome that `moves` entered it with. -/
def Agrees (results : Route → Option Bool) (moves : List Move) : Prop :=
  ∀ route n result, .enter route n result ∈ moves → results route = result

theorem Agrees.mono {results : Route → Option Bool} {moves moves' : List Move}
    (h : Agrees results moves) (hsub : moves' ⊆ moves) : Agrees results moves' :=
  fun route n result hmem => h route n result (hsub hmem)

theorem Agrees.tail {results : Route → Option Bool} {move : Move} {moves : List Move}
    (h : Agrees results (move :: moves)) : Agrees results moves :=
  h.mono (List.subset_cons_self _ _)

theorem Agrees.down {results : Route → Option Bool} {move : Move} {moves moves' : List Move}
    (h : Agrees results (move :: (moves ++ moves'))) : Agrees results moves :=
  h.tail.mono (List.subset_append_left _ _)

theorem Agrees.rest {results : Route → Option Bool} {move : Move} {moves moves' : List Move}
    (h : Agrees results (move :: (moves ++ moves'))) : Agrees results moves' :=
  h.tail.mono (List.subset_append_right _ _)

theorem resultAt_cons (move : Move) (moves : List Move) (route : Route)
    (h : move.route ≠ route) : resultAt (move :: moves) route = resultAt moves route := by
  cases move with
  | enter r n result =>
    rw [Move.route] at h
    simp [resultAt, h]
  | skip r source target => simp [resultAt]

theorem resultAt_eq_none {moves : List Move} {route : Route}
    (h : route ∉ moves.map Move.route) : resultAt moves route = none := by
  induction moves with
  | nil => rfl
  | cons move moves ih =>
    rw [List.map_cons, List.mem_cons, not_or] at h
    rw [resultAt_cons move moves route (Ne.symm h.1), ih h.2]

/-- Where no place comes twice, `resultAt moves` agrees with `moves`. -/
theorem agrees_resultAt {moves : List Move} (h : (moves.map Move.route).Nodup) :
    Agrees (resultAt moves) moves := by
  intro route n result hmem
  induction moves with
  | nil => simp at hmem
  | cons move moves ih =>
    rw [List.map_cons, List.nodup_cons] at h
    rcases List.mem_cons.mp hmem with rfl | hmem
    · cases result with
      | some b => simp [resultAt]
      | none =>
        have hrest : resultAt moves route = none := resultAt_eq_none h.1
        simpa [resultAt] using hrest
    · have hne : move.route ≠ route := by
        rintro rfl
        exact h.1 (List.mem_map.mpr ⟨_, hmem, rfl⟩)
      rw [resultAt_cons move moves route hne, ih h.2 hmem]

/-! ### Every move is at its place -/

/-- What `IsWalk` demands of one move, for the places below `base` and any `results`. -/
def Move.Placed (g : Graph) (results : Route → Option Bool) (base : Route)
    (edges : List Connection) : Move → Prop
  | .enter route n result =>
    (∃ c, Leads g results base edges route c ∧ ¬ Closed (results route.dropLast) c ∧
      g.node? c.target = some n) ∧
    (result.isSome = true ↔ n.nodeType = .condition)
  | .skip route source target =>
    ∃ c, Leads g results base edges route c ∧ Closed (results route.dropLast) c ∧
      c.source = some source ∧ c.target = target

/-- What is placed below a connection that is followed is placed, with `base` in front. -/
theorem Move.Placed.onward {results : Route → Option Bool} {c : Connection}
    {all : List Connection} (hat : all[i]? = some c) (hfollowed : ¬ Closed (results base) c)
    {move : Move} (h : move.Placed g results (base ++ [i]) (g.outgoing c.target)) :
    move.Placed g results base all := by
  cases move with
  | enter route n result =>
    obtain ⟨⟨c', hleads, hc'⟩, hkind⟩ := h
    exact ⟨⟨c', .onward hat hfollowed hleads, hc'⟩, hkind⟩
  | skip route source target =>
    obtain ⟨c', hleads, hc'⟩ := h
    exact ⟨c', .onward hat hfollowed hleads, hc'⟩

theorem getElem?_of_drop {α : Type} {all : List α} {i : Nat} {c : α} {cs : List α}
    (h : all.drop i = c :: cs) : all[i]? = some c ∧ all.drop (i + 1) = cs := by
  refine ⟨?_, ?_⟩
  · have : (all.drop i)[0]? = some c := by rw [h]; rfl
    simpa using this
  · rw [← List.drop_drop, h]
    rfl

theorem source_of_mem_outgoing {id : NodeId} {c : Connection} (h : c ∈ g.outgoing id) :
    c.source = some id := by
  have := (List.mem_filter.mp h).2
  simpa using this

theorem Strolls.placed (h : Strolls g base source result i edges moves whole)
    {results : Route → Option Bool} {all : List Connection} (hagrees : Agrees results moves)
    (hbase : results base = result) (hall : all.drop i = edges)
    (hsource : ∀ c ∈ edges, Closed result c → c.source = some source) :
    ∀ move ∈ moves, move.Placed g results base all := by
  -- induction on the stroll, with `edges` as what is left of `all` from place `i` on
  induction h generalizing all with
  | done => simp
  | refuse => simp
  | @skip base source result i c cs moves whole closed rest ih =>
    obtain ⟨hat, hrest⟩ := getElem?_of_drop hall
    intro move hmove
    rcases List.mem_cons.mp hmove with rfl | hmove
    · refine ⟨c, .here hat, ?_, hsource c (by simp) closed, rfl⟩
      rwa [List.dropLast_concat, hbase]
    · exact ih (hagrees.tail) hbase hrest
        (fun c' hc' => hsource c' (List.mem_cons_of_mem _ hc')) move hmove
  | @fail base source result i c cs n followed node kind =>
    obtain ⟨hat, -⟩ := getElem?_of_drop hall
    intro move hmove
    rw [List.mem_singleton.mp hmove]
    refine ⟨⟨c, .here hat, ?_, node⟩, by simpa using kind⟩
    rwa [List.dropLast_concat, hbase]
  | @stop base source result i c cs n below moves followed node kind down ih =>
    obtain ⟨hat, -⟩ := getElem?_of_drop hall
    have hfollowed : ¬ Closed (results base) c := by rwa [hbase]
    intro move hmove
    rcases List.mem_cons.mp hmove with rfl | hmove
    · exact ⟨⟨c, .here hat, by rwa [List.dropLast_concat], node⟩, kind⟩
    · have hbelow := hagrees _ n below (List.mem_cons_self ..)
      exact (ih (hagrees.tail) hbelow rfl
        (fun c' hc' _ => source_of_mem_outgoing hc') move hmove).onward hat hfollowed
  | @pass base source result i c cs n below moves moves' whole followed node kind down rest ihdown
      ihrest =>
    obtain ⟨hat, hrest⟩ := getElem?_of_drop hall
    have hfollowed : ¬ Closed (results base) c := by rwa [hbase]
    intro move hmove
    rcases List.mem_cons.mp hmove with rfl | hmove
    · exact ⟨⟨c, .here hat, by rwa [List.dropLast_concat], node⟩, kind⟩
    rcases List.mem_append.mp hmove with hmove | hmove
    · have hbelow := hagrees _ n below (List.mem_cons_self ..)
      exact (ihdown hagrees.down hbelow rfl (fun c' hc' _ => source_of_mem_outgoing hc') move
        hmove).onward hat hfollowed
    · exact ihrest hagrees.rest hbase hrest
        (fun c' hc' => hsource c' (List.mem_cons_of_mem _ hc')) move hmove

/-! ### No place is left out -/

section Places

variable {results : Route → Option Bool} {all : List Connection} {route : Route} {c : Connection}

theorem Leads.extends (h : Leads g results base all route c) :
    ∃ k tail, route = base ++ k :: tail := by
  induction h with
  | here => exact ⟨_, [], rfl⟩
  | @onward base edges k c' route c hat followed rest ih =>
    obtain ⟨k', tail, htail⟩ := ih
    exact ⟨k, k' :: tail, by rw [htail, List.append_assoc]; rfl⟩

/-- The way to the place `base ++ k :: tail` begins with connection `k`, which is `c` itself or is
followed. -/
theorem Leads.first {k : Nat} {tail : Route} (h : Leads g results base all (base ++ k :: tail) c) :
    ∃ c', all[k]? = some c' ∧ (tail = [] ∧ c' = c ∨ ¬ Closed (results base) c' ∧
      ∃ k' tail', base ++ k :: tail = (base ++ [k]) ++ k' :: tail' ∧
        Leads g results (base ++ [k]) (g.outgoing c'.target) ((base ++ [k]) ++ k' :: tail') c) := by
  generalize hroute : base ++ k :: tail = route at h
  cases h with
  | @here _ _ j _ hat =>
    obtain ⟨rfl, rfl⟩ : k = j ∧ tail = [] := by simpa using hroute
    exact ⟨c, hat, .inl ⟨rfl, rfl⟩⟩
  | @onward _ _ j c' _ _ hat followed rest =>
    obtain ⟨k', tail', rfl⟩ := rest.extends
    obtain ⟨rfl, -⟩ : k = j ∧ tail = k' :: tail' := by simpa using hroute
    exact ⟨c', hat, .inr ⟨followed, k', tail', rfl, rest⟩⟩

/-- The place `base ++ k :: tail` is not `Before` any move at or below connection `i`, for `i < k`.
-/
theorem Strolls.not_before_of_mem {k : Nat} {tail : Route} {target : NodeId} {below : Option Bool}
    {next : List Connection} (hk : i < k)
    (down : Strolls g (base ++ [i]) target below 0 next moves whole) {move : Move}
    (hmove : move ∈ moves) : ¬ Before (base ++ k :: tail) move.route := by
  obtain ⟨k', tail', -, hroute⟩ := down.route_of_mem move hmove
  rw [hroute, List.append_assoc]
  exact not_before_of_lt hk

/-- A place below `base` has a move if the walk is `whole`, or if the place is `Before` one of the
moves. -/
theorem Strolls.covers (h : Strolls g base source result i edges moves whole)
    (hagrees : Agrees results moves) (hbase : results base = result) (hall : all.drop i = edges)
    {k : Nat} {tail : Route} (hk : i ≤ k) (hleads : Leads g results base all (base ++ k :: tail) c)
    (hbefore : whole = true ∨ ∃ move ∈ moves, Before (base ++ k :: tail) move.route) :
    base ++ k :: tail ∈ moves.map Move.route := by
  -- the place is on the connection at hand, below it, or on a later one
  induction h generalizing all k tail with
  | @done base source result i =>
    obtain ⟨c', hat, -⟩ := hleads.first
    have hlength : all.length ≤ i := List.drop_eq_nil_iff.mp hall
    have hnone : all[k]? = none := List.getElem?_eq_none (by omega)
    rw [hnone] at hat
    simp at hat
  | refuse => simp at hbefore
  | @skip base source result i d cs moves whole closed rest ih =>
    obtain ⟨hat, hrest⟩ := getElem?_of_drop hall
    rcases Nat.eq_or_lt_of_le hk with rfl | hlt
    · obtain ⟨c', hat', htail⟩ := hleads.first
      obtain rfl : d = c' := by simpa [hat] using hat'
      rcases htail with ⟨rfl, -⟩ | ⟨hopen, -⟩
      · exact List.mem_cons_self
      · exact absurd closed (hbase ▸ hopen)
    · apply List.mem_cons_of_mem
      apply ih hagrees.tail hbase hrest hlt hleads
      apply hbefore.imp_right
      rintro ⟨move, hmove, hlex⟩
      rcases List.mem_cons.mp hmove with rfl | hmove
      · exact absurd hlex (not_before_of_lt hlt)
      · exact ⟨move, hmove, hlex⟩
  | @fail base source result i d cs n followed node kind =>
    rcases hbefore with hwhole | ⟨move, hmove, hlex⟩
    · simp at hwhole
    rw [List.mem_singleton.mp hmove, Move.route] at hlex
    rcases Nat.eq_or_lt_of_le hk with rfl | hlt
    · obtain ⟨c', hat', htail⟩ := hleads.first
      rcases htail with ⟨rfl, -⟩ | ⟨-, k', tail', hroute, -⟩
      · exact List.mem_cons_self
      · rw [hroute] at hlex
        exact absurd hlex not_extension_before
    · exact absurd hlex (not_before_of_lt hlt)
  | @stop base source result i d cs n below moves followed node kind down ih =>
    obtain ⟨hat, hrest⟩ := getElem?_of_drop hall
    rcases hbefore with hwhole | ⟨move, hmove, hlex⟩
    · simp at hwhole
    rcases Nat.eq_or_lt_of_le hk with rfl | hlt
    · obtain ⟨c', hat', htail⟩ := hleads.first
      obtain rfl : d = c' := by simpa [hat] using hat'
      rcases htail with ⟨rfl, -⟩ | ⟨-, k', tail', hroute, hdown⟩
      · exact List.mem_cons_self
      rw [hroute] at hlex ⊢
      rcases List.mem_cons.mp hmove with rfl | hmove
      · exact absurd hlex not_extension_before
      · have hresult := hagrees _ n below (List.mem_cons_self ..)
        apply List.mem_cons_of_mem
        exact ih hagrees.tail hresult rfl (Nat.zero_le _) hdown (.inr ⟨move, hmove, hlex⟩)
    · -- a walk that stopped below this connection has no move on a later one
      rcases List.mem_cons.mp hmove with rfl | hmove
      · exact absurd hlex (not_before_of_lt hlt)
      · exact absurd hlex (down.not_before_of_mem hlt hmove)
  | @pass base source result i d cs n below moves moves' whole followed node kind down rest ihdown
      ihrest =>
    obtain ⟨hat, hrest⟩ := getElem?_of_drop hall
    rw [List.map_cons, List.map_append]
    rcases Nat.eq_or_lt_of_le hk with rfl | hlt
    · obtain ⟨c', hat', htail⟩ := hleads.first
      obtain rfl : d = c' := by simpa [hat] using hat'
      rcases htail with ⟨rfl, -⟩ | ⟨-, k', tail', hroute, hdown⟩
      · exact List.mem_cons_self
      rw [hroute]
      -- nothing was left out below the node
      have hresult := hagrees _ n below (List.mem_cons_self ..)
      apply List.mem_cons_of_mem
      apply List.mem_append_left
      exact ihdown hagrees.down hresult rfl (Nat.zero_le _) hdown (.inl rfl)
    · apply List.mem_cons_of_mem
      apply List.mem_append_right
      apply ihrest hagrees.rest hbase hrest hlt hleads
      apply hbefore.imp_right
      rintro ⟨move, hmove, hlex⟩
      rcases List.mem_cons.mp hmove with rfl | hmove
      · exact absurd hlex (not_before_of_lt hlt)
      rcases List.mem_append.mp hmove with hmove | hmove
      · exact absurd hlex (down.not_before_of_mem hlt hmove)
      · exact ⟨move, hmove, hlex⟩

end Places

/-! ### A derivation from the trigger is a walk -/

theorem nodup_of_ascending {routes : List Route} (h : routes.Pairwise Before) : routes.Nodup := by
  apply h.imp
  rintro r r' hlex rfl
  have : Before (r ++ []) r := by rwa [List.append_nil]
  exact not_extension_before this

theorem Strolls.agrees (h : Strolls g base source result i edges moves whole) :
    Agrees (resultAt moves) moves :=
  agrees_resultAt (nodup_of_ascending h.ascending)

/-- No move has the route `[]`, so that the trigger has no outcome. -/
theorem Strolls.resultAt_trigger (h : Strolls g [] source result i edges moves whole) :
    resultAt moves [] = none := by
  apply resultAt_eq_none
  intro hmem
  obtain ⟨move, hmove, hroute⟩ := List.mem_map.mp hmem
  obtain ⟨k, tail, -, hextends⟩ := h.route_of_mem move hmove
  simp [hroute] at hextends

theorem Strolls.mem_routes (h : Strolls g [] source none 0 g.startEdges moves whole) {route : Route}
    {c : Connection} (hplace : Place g moves route c)
    (hbefore : whole = true ∨ ∃ move ∈ moves, Before route move.route) :
    route ∈ moves.map Move.route := by
  obtain ⟨k, tail, rfl⟩ := hplace.extends
  exact h.covers h.agrees h.resultAt_trigger List.drop_zero (Nat.zero_le k) hplace hbefore

theorem Strolls.isWalk (h : Strolls g [] source none 0 g.startEdges moves whole) :
    IsWalk g moves := by
  have hplaced := h.placed h.agrees h.resultAt_trigger List.drop_zero
    (by rintro c - ⟨b, tag, hb, -⟩; simp at hb)
  refine ⟨h.ascending, fun route n result hmem => hplaced _ hmem,
    fun route source target hmem => hplaced _ hmem, ?_⟩
  intro route c hplace move hmove hlex
  exact h.mem_routes hplace (.inr ⟨move, hmove, hlex⟩)

theorem Strolls.isWhole (h : Strolls g [] source none 0 g.startEdges moves true) :
    IsWhole g moves :=
  fun _ _ hplace => h.mem_routes hplace (.inl rfl)

/-! ### One entry for every path that is taken -/

/-- The route stands for a path of connections that are all followed, the last of them to `id`. -/
def Taken (g : Graph) (moves : List Move) (route : Route) (id : NodeId) : Prop :=
  ∃ c, Place g moves route c ∧ ¬ Closed (resultAt moves route.dropLast) c ∧ c.target = id

/-- The routes at which `moves` enter `id`. -/
def routesTo (id : NodeId) (moves : List Move) : List Route :=
  moves.filterMap fun
    | .enter route n _ => if n.id = id then some route else none
    | .skip .. => none

/-- The number of `nodeEntered` events of `id`. -/
def entriesOf (id : NodeId) (hs : List Happening) : Nat :=
  hs.countP fun
    | .nodeEntered id' _ _ => id' == id
    | _ => false

theorem id_of_node? {id : NodeId} {n : Node} (h : g.node? id = some n) : n.id = id := by
  have := List.find?_some h
  simpa using this

theorem mem_routesTo {id : NodeId} {route : Route} :
    route ∈ routesTo id moves ↔ ∃ n result, .enter route n result ∈ moves ∧ n.id = id := by
  rw [routesTo, List.mem_filterMap]
  constructor
  · rintro ⟨move, hmove, hroute⟩
    cases move with
    | skip => simp at hroute
    | enter r n result =>
      obtain ⟨hid, rfl⟩ : n.id = id ∧ r = route := by simpa using hroute
      exact ⟨n, result, hmove, hid⟩
  · rintro ⟨n, result, hmove, hid⟩
    exact ⟨_, hmove, by simp [hid]⟩

theorem routesTo_skip (id : NodeId) (route : Route) (source target : NodeId) (moves : List Move) :
    routesTo id (.skip route source target :: moves) = routesTo id moves := rfl

theorem routesTo_enter (id : NodeId) (route : Route) (n : Node) (result : Option Bool)
    (moves : List Move) :
    routesTo id (.enter route n result :: moves) =
      if n.id = id then route :: routesTo id moves else routesTo id moves := by
  rw [routesTo, List.filterMap_cons]
  by_cases hid : n.id = id
  · simp only [hid, if_true]
    rfl
  · simp only [hid, if_false]
    rfl

theorem routesTo_sublist (id : NodeId) (moves : List Move) :
    (routesTo id moves).Sublist (moves.map Move.route) := by
  induction moves with
  | nil => exact .slnil
  | cons move moves ih =>
    cases move with
    | skip => exact ih.cons _
    | enter route n result =>
      rw [routesTo_enter]
      split
      · exact ih.cons_cons _
      · exact ih.cons _

theorem nodup_routesTo (h : IsWalk g moves) (id : NodeId) : (routesTo id moves).Nodup :=
  (nodup_of_ascending h.ascending).sublist (routesTo_sublist id moves)

/-- A walk reports an entry for each of `routesTo id moves`. -/
theorem entriesOf_happenings (id : NodeId) (moves : List Move) :
    entriesOf id (moves.flatMap Move.happenings) = (routesTo id moves).length := by
  induction moves with
  | nil => rfl
  | cons move moves ih =>
    rw [entriesOf] at ih
    rw [List.flatMap_cons, entriesOf, List.countP_append, ih]
    cases move with
    | skip => simp [Move.happenings, routesTo_skip]
    | enter route n result =>
      rw [routesTo_enter]
      by_cases hid : n.id = id <;> cases result <;> simp [Move.happenings, hid, Nat.add_comm]

/-- A route belongs to one connection, given the outcomes. -/
theorem Leads.unique {results : Route → Option Bool} {route : Route} {c c' : Connection}
    (h : Leads g results base edges route c) (h' : Leads g results base edges route c') :
    c = c' := by
  induction h with
  | @here base edges i c hat =>
    obtain ⟨d, hat', htail⟩ := h'.first
    obtain rfl : c = d := by simpa [hat] using hat'
    rcases htail with ⟨-, heq⟩ | ⟨-, k, tail, hroute, -⟩
    · exact heq
    · simp at hroute
  | @onward base edges i d route c hat followed rest ih =>
    obtain ⟨k, tail, rfl⟩ := rest.extends
    rw [List.append_assoc] at h'
    obtain ⟨d', hat', htail⟩ := h'.first
    obtain rfl : d = d' := by simpa [hat] using hat'
    rcases htail with ⟨hnil, -⟩ | ⟨-, k', tail', hroute, hrest⟩
    · simp at hnil
    · rw [← hroute] at hrest
      exact ih (by rwa [List.append_assoc])

/-- Where no place is left out, the routes at which a node is entered are those that are `Taken` to
it. -/
theorem IsWhole.mem_routesTo_iff (hwalk : IsWalk g moves) (hwhole : IsWhole g moves) {id : NodeId}
    {route : Route} : route ∈ routesTo id moves ↔ Taken g moves route id := by
  rw [mem_routesTo]
  constructor
  · rintro ⟨n, result, hmove, rfl⟩
    obtain ⟨⟨c, hplace, hopen, hnode⟩, -⟩ := hwalk.enters _ _ _ hmove
    exact ⟨c, hplace, hopen, (id_of_node? hnode).symm⟩
  · rintro ⟨c, hplace, hopen, rfl⟩
    obtain ⟨move, hmove, hroute⟩ := List.mem_map.mp (hwhole _ _ hplace)
    cases move with
    | skip r source target =>
      obtain rfl : r = route := hroute
      obtain ⟨c', hplace', hclosed, -, -⟩ := hwalk.skips _ _ _ hmove
      rw [hplace'.unique hplace] at hclosed
      exact absurd hclosed hopen
    | enter r n result =>
      obtain rfl : r = route := hroute
      obtain ⟨⟨c', hplace', -, hnode⟩, -⟩ := hwalk.enters _ _ _ hmove
      rw [hplace'.unique hplace] at hnode
      exact ⟨n, result, hmove, id_of_node? hnode⟩

end DepthFirst

end TriggerFlow
