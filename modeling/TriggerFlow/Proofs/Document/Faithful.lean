import TriggerFlow.Proofs.Authoring.Rules
import TriggerFlow.Proofs.Document.Runnable
/-!
# Documents are kept as they are written

Which documents an empty store takes is seen from what they say (`Document.WellFormed`): the
workflow passes its rules, all words are known, and the keys of the nodes differ from one another
and are the only ones that connections use.  Of a document that has been taken, the listings of
nodes and connections tell entry by entry what it says (`Document.Listed`, `author_faithful`).
-/

namespace TriggerFlow

/-! ### Entries that are accepted -/

open EnteredField Vocabulary

theorem WorkflowEntry.accepted_iff {w : WorkflowEntry} :
    w.Accepted ↔ check (Authoring.workflowFields w.toInput) = .ok () := by
  refine ⟨Accepted.checked, fun checked => ⟨checked, ?_, ?_⟩⟩
  -- the rules ask for words, and these are the words of members
  all_goals
    rw [check_eq_ok_iff] at checked
    simp only [Authoring.workflowFields, List.forall_mem_cons] at checked
    obtain ⟨-, htrigger, hstatus, -⟩ := checked
  · obtain ⟨-, hword⟩ := errorsUnder_required_eq_nil_iff.mp htrigger
    exact mem_words_iff.mp (errorsUnder_oneOf_eq_nil_iff.mp hword _ rfl)
  · exact exists_map_eq_iff.mpr (errorsUnder_oneOf_eq_nil_iff.mp hstatus)

theorem NodeEntry.accepted_iff {n : NodeEntry} : n.Accepted ↔ n.nodeType ∈ words NodeType := by
  rw [mem_words_iff]
  refine ⟨Accepted.nodeType, fun htype => ⟨?_, htype⟩⟩
  rw [check_eq_ok_iff, Authoring.nodeFields, List.forall_mem_singleton, errors,
    errorsUnder_required_eq_nil_iff, errorsUnder_oneOf_eq_nil_iff]
  obtain ⟨t, ht⟩ := htype
  -- a word passes for present, and for one of the choices
  constructor
  · change isMissing (some n.nodeType) = false
    rw [← ht, t.isMissing_text]
  · intro word hword
    obtain rfl : n.nodeType = word := Option.some.inj hword
    exact mem_words_iff.mpr ⟨t, ht⟩

theorem ConnectionEntry.accepted_iff {keys : List String} {c : ConnectionEntry} :
    c.Accepted keys ↔ c.target ∈ keys ∧ (∀ key ∈ c.source, key ∈ keys) ∧
      ∀ word ∈ c.conditionType, word ∈ words ConditionType := by
  have hchecked : check (Authoring.connectionFields ⟨none, none, c.conditionType, none⟩) = .ok () ↔
      ∀ word ∈ c.conditionType, word ∈ words ConditionType := by
    rw [check_eq_ok_iff, Authoring.connectionFields, List.forall_mem_singleton, errors,
      errorsUnder_oneOf_eq_nil_iff]
    rfl
  constructor
  · rintro ⟨checked, hsource, htarget, -⟩
    exact ⟨htarget, hsource, hchecked.mp checked⟩
  · rintro ⟨htarget, hsource, hword⟩
    exact ⟨hchecked.mpr hword, hsource, htarget, exists_map_eq_iff.mpr hword⟩

/-! ### Well-formed documents -/

/-- The workflow of the document passes its rules, and its graph is spelled as it should be. -/
structure Document.WellFormed (d : Document) : Prop where
  workflow : check (Authoring.workflowFields d.workflow.toInput) = .ok ()
  nodeTypes : ∀ n ∈ d.nodes, n.nodeType ∈ ["trigger", "action", "condition"]
  distinct : d.keys.Nodup
  targets : ∀ c ∈ d.connections, c.target ∈ d.keys
  sources : ∀ c ∈ d.connections, ∀ key ∈ c.source, key ∈ d.keys
  branches : ∀ c ∈ d.connections, ∀ word ∈ c.conditionType, word ∈ ["true", "false"]

instance (d : Document) : Decidable d.WellFormed :=
  decidable_of_iff
    (check (Authoring.workflowFields d.workflow.toInput) = .ok () ∧
      (∀ n ∈ d.nodes, n.nodeType ∈ ["trigger", "action", "condition"]) ∧ d.keys.Nodup ∧
      (∀ c ∈ d.connections, c.target ∈ d.keys) ∧
      (∀ c ∈ d.connections, ∀ key ∈ c.source, key ∈ d.keys) ∧
      ∀ c ∈ d.connections, ∀ word ∈ c.conditionType, word ∈ ["true", "false"])
    ⟨fun ⟨workflow, nodeTypes, distinct, targets, sources, branches⟩ =>
        ⟨workflow, nodeTypes, distinct, targets, sources, branches⟩,
      fun ⟨workflow, nodeTypes, distinct, targets, sources, branches⟩ =>
        ⟨workflow, nodeTypes, distinct, targets, sources, branches⟩⟩

example : ¬ Document.WellFormed
    { Document.sample with nodes := Document.sample.nodes ++ Document.sample.nodes } := by
  decide

theorem Document.accepted_iff_wellFormed {d : Document} : d.Accepted ↔ d.WellFormed := by
  constructor
  · rintro ⟨workflow, nodes, distinct, connections⟩
    have hconnections := fun c hc => ConnectionEntry.accepted_iff.mp (connections c hc)
    exact ⟨workflow.checked, fun n hn => NodeEntry.accepted_iff.mp (nodes n hn), distinct,
      fun c hc => (hconnections c hc).1, fun c hc => (hconnections c hc).2.1,
      fun c hc => (hconnections c hc).2.2⟩
  · rintro ⟨workflow, nodeTypes, distinct, targets, sources, branches⟩
    exact ⟨WorkflowEntry.accepted_iff.mpr workflow,
      fun n hn => NodeEntry.accepted_iff.mpr (nodeTypes n hn), distinct,
      fun c hc => ConnectionEntry.accepted_iff.mpr ⟨targets c hc, sources c hc, branches c hc⟩⟩

/-! ### What is listed -/

/-- The row is live and says what the entry of a node says. -/
structure NodeEntry.Matches (n : NodeEntry) (row : Node) : Prop where
  live : row.deleted = false
  nodeType_eq : Vocabulary.text row.nodeType = n.nodeType
  actionType_eq : row.actionType = n.actionType
  config_eq : row.config = n.config
  name_eq : row.name = some (n.name.getD n.key)
  position_eq : row.position = Position.origin

theorem NodeEntry.Stands.matches {workflow : WorkflowId} {n : NodeEntry} {made : String × Node}
    (h : n.Stands workflow made) : n.Matches made.2 := by
  obtain ⟨-, htype, hrow⟩ := h
  refine ⟨?_, htype, ?_, ?_, ?_, ?_⟩
  all_goals
    rw [hrow]
    rfl

/-- The rows match the entries of the document, in their order, and `a.nodes` and `a.keyOf?` take
keys to nodes and back. -/
structure Document.Listed (d : Document) (a : AuthoredDocument) (nodes : List Node)
    (connections : List Connection) : Prop where
  nodes_match : List.Forall₂ NodeEntry.Matches d.nodes nodes
  keyed : a.nodes = d.keys.zip nodes
  keyOf?_eq : nodes.map (fun n => a.keyOf? n.id) = d.keys.map some
  connections_stand :
    List.Forall₂ (ConnectionEntry.Stands a.workflow.id a.nodes) d.connections connections

namespace Document.Depicted

variable {d : Document} {name : RowKind → Nat → Uuid} {a : AuthoredDocument} {s : Storage}

theorem listNodes_live (h : d.Depicted name a s) :
    Authoring.listNodes a.workflow s = .ok (a.nodes.map Prod.snd) s := by
  rw [Authoring.listNodes, Authoring.access, Storage.listNodes_of_calm h.calm, ← h.node_rows,
    Tables.listNodes, List.filter_eq_self.mpr]
  intro n hn
  simp [h.member n hn]

theorem listConnections_all (h : d.Depicted name a s) :
    Authoring.listConnections a.workflow s = .ok s.tables.connections s := by
  rw [Authoring.listConnections, Authoring.access, Storage.listConnections_of_calm h.calm,
    Tables.listConnections, List.filter_eq_self.mpr]
  intro row hrow
  obtain ⟨c, -, hstand⟩ := exists_of_mem_right h.connections hrow
  simp [hstand.member]

theorem listed (h : d.Depicted name a s) (distinct : IdSupply.Distinct name d.nodes.length) :
    d.Listed a (a.nodes.map Prod.snd) s.tables.connections := by
  have hkeys : a.nodes.map Prod.fst = d.keys := map_fst_of_stands h.nodes
  refine ⟨?_, ?_, ?_, h.connections⟩
  · rw [List.forall₂_map_right_iff]
    exact h.nodes.imp fun _ _ => NodeEntry.Stands.matches
  · exact List.zip_of_prod hkeys rfl
  · rw [← hkeys, List.map_map, List.map_map]
    refine List.map_congr_left fun e he => ?_
    exact h.keyOf?_eq distinct (idOf?_of_mem h.distinct_keys he)

end Document.Depicted

/-- An empty store that gives distinct identifiers to nodes takes the document exactly if it is
`WellFormed`, and then lists nodes and connections as the document does: `Listed`. -/
theorem Document.author_faithful {name : RowKind → Nat → Uuid} {d : Document}
    (distinct : IdSupply.Distinct name d.nodes.length) (clock : Timestamp)
    (organization : OrganizationId) (user : UserId) :
    ((∃ a s, d.author organization user (.fresh (.ofNames name) clock) = .ok a s) ↔
      d.WellFormed) ∧
    ∀ a s, d.author organization user (.fresh (.ofNames name) clock) = .ok a s →
      ∃ nodes connections, Authoring.listNodes a.workflow s = .ok nodes s ∧
        Authoring.listConnections a.workflow s = .ok connections s ∧
        d.Listed a nodes connections := by
  refine ⟨⟨?_, fun formed => ?_⟩, fun a s h => ?_⟩
  · rintro ⟨a, s, h⟩
    exact accepted_iff_wellFormed.mp (depicted_of_author h).1
  · exact author_of_accepted (accepted_iff_wellFormed.mpr formed) name clock organization user
  · have hdepicted := (depicted_of_author h).2
    exact ⟨_, _, hdepicted.listNodes_live, hdepicted.listConnections_all,
      hdepicted.listed distinct⟩

/-- The `sample` is taken.  It has three nodes, each of which is found under its key, and three
connections. -/
theorem Document.sample_listed :
    ∃ a s nodes connections,
      sample.author Uuid.nil Uuid.nil (.fresh (.ofNames fun _ n => Uuid.ofHalves 0 n) default) =
        .ok a s ∧
      Authoring.listNodes a.workflow s = .ok nodes s ∧
      Authoring.listConnections a.workflow s = .ok connections s ∧ connections.length = 3 ∧
      nodes.map (fun n => a.keyOf? n.id) =
        [some "is_confirmed", some "tag", some "log_pending"] ∧
      sample.Listed a nodes connections := by
  have distinct : IdSupply.Distinct (fun _ n => Uuid.ofHalves 0 n) sample.nodes.length := by decide
  obtain ⟨taken, kept⟩ := author_faithful distinct default Uuid.nil Uuid.nil
  have formed : sample.WellFormed := by decide
  obtain ⟨a, s, h⟩ := taken.mpr formed
  obtain ⟨nodes, connections, hnodes, hconnections, hlisted⟩ := kept a s h
  exact ⟨a, s, nodes, connections, h, hnodes, hconnections,
    hlisted.connections_stand.length_eq.symm, hlisted.keyOf?_eq, hlisted⟩

end TriggerFlow
