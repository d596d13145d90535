import TriggerFlow.Document.Codec
import TriggerFlow.Event
import TriggerFlow.Execution
import TriggerFlow.Proofs.Timestamp
/-!
# What is written is read back

A reader yields a record from an object if it yields each component from the field of its name
(`Record.Yields`); which components of an object are read for, and in what order, is said once by
the reader itself, so that each record needs one line for each of its fields.

Instants are read back when they are `IsOrdinary`, positions when they are finite, and the numbers
of an event when they are `InWords`; anything else is read back as it stands, settings and contexts
with their fields in order.  In a row null stands for an absent component, and nothing else does
(`NullWhenAbsent`); a document leaves an absent component out, and no other (`LeftOutWhenAbsent`).
-/

namespace TriggerFlow

/-- What an object holds under a name. -/
def Json.under? (name : String) (v : Json) : Option Json := v.asObject?.bind (Fields.find? name)

/-! ### Fields -/

namespace Fields

/-- An entry is found under its key if no other has the same key. -/
theorem find?_of_mem {fs : Fields} (hnodup : (keys fs).Nodup) {key : String} {v : Json}
    (h : (key, v) ∈ fs) : find? key fs = some v := by
  induction fs with
  | nil => cases h
  | cons e fs ih =>
    obtain ⟨k, w⟩ := e
    rw [keys, List.map_cons, List.nodup_cons] at hnodup
    rcases List.mem_cons.1 h with heq | hrest
    · cases heq
      exact if_pos rfl
    · have hne : k ≠ key := by
        rintro rfl
        exact hnodup.1 (List.mem_map.2 ⟨(k, v), hrest, rfl⟩)
      rw [find?, if_neg hne]
      exact ih hnodup.2 hrest

theorem find?_present {α : Type} (key name : String) (write : α → Json) (o : Option α) :
    find? key (present name write o) = if name = key then o.map write else none := by
  cases o with
  | none => simp [present, find?]
  | some a => simp [present, find?]

end Fields

/-! ### Components -/

namespace Record

/-- The reader takes the value `a` from the fields of an object. -/
def Yields {α : Type} (reader : Reader α) (fs : Fields) (a : α) : Prop :=
  reader (.named fs) = some (a, .named fs)

section

variable {α β : Type} {fs : Fields} {name : String} {a : α} {write : α → Json}
  {read : Json → Option α}

theorem Yields.pure : Yields (Pure.pure a) fs a := rfl

theorem Yields.bind {reader : Reader α} {next : α → Reader β} {b : β} (h : Yields reader fs a)
    (hnext : Yields (next a) fs b) : Yields (reader >>= next) fs b := by
  change (reader (.named fs)).bind (fun p => next p.1 p.2) = _
  rw [h, Option.bind_some]
  exact hnext

theorem read_object {reader : Reader α} (h : Yields reader fs a) :
    Record.read reader (.object fs) = some a := by
  rw [Record.read, h, Option.map_some]

theorem yields_component : Yields (component? name) fs (Fields.find? name fs) := rfl

theorem yields_lift {o : Option α} (h : o = some a) : Yields (StateT.lift o) fs a := by
  rw [h]
  rfl

theorem yields_required {v : Json} (hfind : Fields.find? name fs = some v)
    (hread : read v = some a) : Yields (required name read) fs a := by
  refine yields_component.bind ?_
  rw [hfind]
  exact yields_lift hread

theorem yields_defaulted {v : Json} (default : α) (hfind : Fields.find? name fs = some v)
    (hread : read v = some a) : Yields (defaulted name default read) fs a := by
  refine yields_component.bind ?_
  rw [hfind]
  exact yields_lift hread

theorem nullable_of_ne_null {v : Json} (h : v ≠ .null) (hread : read v = some a) :
    nullable read v = some (some a) := by
  unfold nullable
  split
  · exact absurd rfl h
  · rw [hread, Option.map_some]

/-- A component that is written with `ofOption`, as null when it is absent, is read with `optional`.
-/
theorem yields_optional {o : Option α} (hfind : Fields.find? name fs = some (Json.ofOption write o))
    (hnull : ∀ a, write a ≠ .null) (hread : ∀ a ∈ o, read (write a) = some a) :
    Yields (optional name read) fs o := by
  refine yields_defaulted none hfind ?_
  cases o with
  | none => rfl
  | some a => exact nullable_of_ne_null (hnull a) (hread a rfl)

/-- A component that is left out when it is absent is read with `absentable`. -/
theorem yields_absentable {o : Option α} (hfind : Fields.find? name fs = o.map write)
    (hnull : ∀ a, write a ≠ .null) (hread : ∀ a, read (write a) = some a) :
    Yields (absentable name read) fs o := by
  cases o with
  | none =>
    refine yields_component.bind ?_
    rw [hfind]
    exact Yields.pure
  | some a => exact yields_defaulted none hfind (nullable_of_ne_null (hnull a) (hread a))

end

theorem list_map {α : Type} {write : α → Json} {read : Json → Option α}
    (h : ∀ a, read (write a) = some a) (xs : List α) :
    Record.list read (.array (xs.map write)) = some xs := by
  change (xs.map write).mapM read = some xs
  induction xs with
  | nil => rfl
  | cons x xs ih =>
    rw [List.map_cons, List.mapM_cons, h, ih]
    rfl

theorem double_ofDouble {d : Double} (h : d.isFinite = true) :
    Record.double (Json.ofDouble d) = some d := by
  rw [Json.ofDouble, Double.finite?, dif_pos h]
  rfl

end Record

open Record

theorem Vocabulary.ofJson?_toJson {α : Type} [Vocabulary α] (a : α) :
    (Vocabulary.ofJson? (Vocabulary.toJson a) : Option α) = some a :=
  Vocabulary.ofText?_text a

theorem priorityOfJson?_priorityToJson (p : Int32) :
    priorityOfJson? (priorityToJson p) = some p := by
  have hlow := p.le_toInt
  have hhigh := p.toInt_lt
  rw [priorityOfJson?, priorityToJson, Record.int32, Json.asInt?, if_pos (by omega),
    Option.map_some, Int32.ofInt_toInt]

theorem Json.asWord64?_ofNat {n : Nat} (h : n < 2 ^ 64) : (Json.ofNat n).asWord64? = some n :=
  Json.asWord64?_eq_some_iff.mpr ⟨rfl, by omega⟩

/-! ### Rows -/

theorem Workflow.ofJson?_toJson {w : Workflow} (hcreated : w.created.IsOrdinary)
    (hupdated : w.updated.IsOrdinary) : ofJson? w.toJson = some w := by
  refine read_object ?_
  refine .bind (yields_required rfl (Uuid.ofJson?_toJson _)) ?_
  refine .bind (yields_required rfl (Uuid.ofJson?_toJson _)) ?_
  refine .bind (yields_required rfl (Uuid.ofJson?_toJson _)) ?_
  refine .bind (yields_required rfl rfl) ?_
  refine .bind (yields_optional rfl (fun _ => Json.noConfusion) (fun _ _ => rfl)) ?_
  refine .bind (yields_required rfl (Vocabulary.ofJson?_toJson _)) ?_
  refine .bind (yields_defaulted _ rfl rfl) ?_
  refine .bind (yields_defaulted _ rfl (Vocabulary.ofJson?_toJson _)) ?_
  refine .bind (yields_defaulted _ rfl rfl) ?_
  refine .bind (yields_required rfl (Timestamp.ofJson?_toJson hcreated)) ?_
  refine .bind (yields_required rfl (Timestamp.ofJson?_toJson hupdated)) ?_
  exact .pure

theorem Position.ofJson?_toJson {p : Position} (hx : p.x.isFinite = true)
    (hy : p.y.isFinite = true) : ofJson? p.toJson = some p := by
  refine read_object ?_
  refine .bind (yields_required rfl (double_ofDouble hx)) ?_
  refine .bind (yields_required rfl (double_ofDouble hy)) ?_
  exact .pure

theorem Node.ofJson?_toJson {n : Node} (hx : n.position.x.isFinite = true)
    (hy : n.position.y.isFinite = true) : ofJson? n.toJson = some n := by
  refine read_object ?_
  refine .bind (yields_required rfl (Uuid.ofJson?_toJson _)) ?_
  refine .bind (yields_required rfl (Uuid.ofJson?_toJson _)) ?_
  refine .bind (yields_required rfl (Vocabulary.ofJson?_toJson _)) ?_
  refine .bind (yields_optional rfl (fun _ => Json.noConfusion) (fun _ _ => rfl)) ?_
  refine .bind (yields_optional rfl (fun _ => Json.noConfusion) (fun _ _ => rfl)) ?_
  refine .bind (yields_defaulted _ rfl rfl) ?_
  refine .bind (yields_defaulted _ rfl (Position.ofJson?_toJson hx hy)) ?_
  refine .bind (yields_defaulted _ rfl rfl) ?_
  exact .pure

theorem Connection.ofJson?_toJson (c : Connection) : ofJson? c.toJson = some c := by
  refine read_object ?_
  refine .bind (yields_required rfl (Uuid.ofJson?_toJson _)) ?_
  refine .bind (yields_required rfl (Uuid.ofJson?_toJson _)) ?_
  refine .bind (yields_optional rfl (fun _ => Json.noConfusion)
    (fun a _ => Uuid.ofJson?_toJson a)) ?_
  refine .bind (yields_required rfl (Uuid.ofJson?_toJson _)) ?_
  refine .bind (yields_optional rfl (fun _ => Json.noConfusion)
    (fun a _ => Vocabulary.ofJson?_toJson a)) ?_
  refine .bind (yields_defaulted _ rfl (priorityOfJson?_priorityToJson _)) ?_
  exact .pure

theorem Execution.ofJson?_toJson {e : Execution} (hstarted : e.startedAt.IsOrdinary)
    (hcompleted : ∀ t ∈ e.completedAt, t.IsOrdinary) : ofJson? e.toJson = some e := by
  refine read_object ?_
  refine .bind (yields_required rfl (Uuid.ofJson?_toJson _)) ?_
  refine .bind (yields_required rfl (Uuid.ofJson?_toJson _)) ?_
  refine .bind (yields_required rfl rfl) ?_
  refine .bind (yields_required rfl rfl) ?_
  refine .bind (yields_required rfl rfl) ?_
  refine .bind (yields_required rfl (Vocabulary.ofJson?_toJson _)) ?_
  refine .bind (yields_optional rfl (fun _ => Json.noConfusion) (fun _ _ => rfl)) ?_
  refine .bind (yields_required rfl (Timestamp.ofJson?_toJson hstarted)) ?_
  refine .bind (yields_optional rfl (fun _ => Json.noConfusion)
    (fun t ht => Timestamp.ofJson?_toJson (hcompleted t ht))) ?_
  exact .pure

/-! ### Events -/

namespace Happening

/-- The numbers of a happening are below `2 ^ 64`. -/
def InWords : Happening → Prop
  | nodeEntered _ _ depth => depth < 2 ^ 64
  | actionCompleted _ _ ms => ms < 2 ^ 64
  | executionCompleted ms => ms < 2 ^ 64
  | executionFailed _ ms => ms < 2 ^ 64
  | _ => True

/-- The reader for the kind of a happening `Yields` it from any object that holds its components. -/
theorem yields_reader {h : Happening} (hwords : h.InWords) {fs : Fields}
    (hfs : ∀ entry ∈ h.fields, Fields.find? entry.1 fs = some entry.2) :
    ∃ reader, reader? h.kind = some reader ∧ Yields reader fs h := by
  cases h with
  | executionStarted workflow triggerType =>
    refine ⟨_, rfl, ?_⟩
    refine .bind (yields_required (hfs _ (.head _)) (Uuid.ofJson?_toJson workflow)) ?_
    refine .bind (yields_required (hfs _ (.tail _ (.head _))) rfl) ?_
    exact .pure
  | nodeEntered node nodeType depth =>
    refine ⟨_, rfl, ?_⟩
    refine .bind (yields_required (hfs _ (.head _)) (Uuid.ofJson?_toJson node)) ?_
    refine .bind (yields_required (hfs _ (.tail _ (.head _))) rfl) ?_
    refine .bind (yields_required (hfs _ (.tail _ (.tail _ (.head _))))
      (Json.asWord64?_ofNat hwords)) ?_
    exact .pure
  | actionCompleted node actionType ms =>
    refine ⟨_, rfl, ?_⟩
    refine .bind (yields_required (hfs _ (.head _)) (Uuid.ofJson?_toJson node)) ?_
    refine .bind (yields_required (hfs _ (.tail _ (.head _))) rfl) ?_
    refine .bind (yields_required (hfs _ (.tail _ (.tail _ (.head _))))
      (Json.asWord64?_ofNat hwords)) ?_
    exact .pure
  | conditionEvaluated node result =>
    refine ⟨_, rfl, ?_⟩
    refine .bind (yields_required (hfs _ (.head _)) (Uuid.ofJson?_toJson node)) ?_
    refine .bind (yields_required (hfs _ (.tail _ (.head _))) rfl) ?_
    exact .pure
  | edgeSkipped source target =>
    refine ⟨_, rfl, ?_⟩
    refine .bind (yields_required (hfs _ (.head _)) (Uuid.ofJson?_toJson source)) ?_
    refine .bind (yields_required (hfs _ (.tail _ (.head _))) (Uuid.ofJson?_toJson target)) ?_
    exact .pure
  | executionCompleted ms =>
    refine ⟨_, rfl, ?_⟩
    refine .bind (yields_required (hfs _ (.head _)) (Json.asWord64?_ofNat hwords)) ?_
    exact .pure
  | executionFailed error ms =>
    refine ⟨_, rfl, ?_⟩
    refine .bind (yields_required (hfs _ (.head _)) rfl) ?_
    refine .bind (yields_required (hfs _ (.tail _ (.head _))) (Json.asWord64?_ofNat hwords)) ?_
    exact .pure

end Happening

namespace Event

theorem nodup_keys (e : Event) : ∃ fs, e.toJson = .object fs ∧ (Fields.keys fs).Nodup := by
  refine ⟨_, rfl, ?_⟩
  cases e.happening <;> simp [Fields.keys, Happening.fields]

theorem ofJson?_toJson {e : Event} (htime : e.timestamp.IsOrdinary)
    (hwords : e.happening.InWords) : ofJson? e.toJson = some e := by
  obtain ⟨fs, hfs, hnodup⟩ := nodup_keys e
  have hentry : ∀ entry ∈ fs, Fields.find? entry.1 fs = some entry.2 :=
    fun _ => Fields.find?_of_mem hnodup
  obtain rfl : _ = fs := Json.object.inj hfs
  obtain ⟨reader, hreader, hyields⟩ := Happening.yields_reader hwords
    fun entry h => hentry entry (.tail _ (.tail _ (List.mem_append_left _ h)))
  have hread : Record.read (Event.reader reader) e.toJson = some e := by
    refine read_object ?_
    refine .bind (yields_required (hentry _ (.tail _ (.head _))) (Uuid.ofJson?_toJson _)) ?_
    refine .bind hyields ?_
    refine .bind (yields_required (hentry ("timestamp", e.timestamp.toJson) (by simp))
      (Timestamp.ofJson?_toJson htime)) ?_
    exact .pure
  -- the kind is found under its name, and names the reader
  change (Happening.reader? e.happening.kind).bind
    (fun happening => Record.read (Event.reader happening) e.toJson) = some e
  rw [hreader, Option.bind_some, hread]

end Event

/-! ### Documents -/

namespace WorkflowEntry

/-- A workflow entry leaves out `description`, `trigger_config` and `status` where they are absent.
-/
theorem under?_toJson (w : WorkflowEntry) :
    w.toJson.under? "description" = w.description.map .string ∧
      w.toJson.under? "trigger_type" = some (.string w.triggerType) ∧
      w.toJson.under? "trigger_config" = w.triggerConfig.map .object ∧
      w.toJson.under? "status" = w.status.map .string := by
  simp [Json.under?, toJson, Json.asObject?, Fields.find?_append, Fields.find?_present,
    Fields.find?]

theorem ofJson?_toJson (w : WorkflowEntry) : ofJson? w.toJson = some w := by
  obtain ⟨hdescription, htrigger, hconfig, hstatus⟩ := under?_toJson w
  refine read_object ?_
  refine .bind (yields_required rfl rfl) ?_
  refine .bind (yields_absentable hdescription (fun _ => Json.noConfusion) (fun _ => rfl)) ?_
  refine .bind (yields_required htrigger rfl) ?_
  refine .bind (yields_absentable hconfig (fun _ => Json.noConfusion) (fun _ => rfl)) ?_
  refine .bind (yields_absentable hstatus (fun _ => Json.noConfusion) (fun _ => rfl)) ?_
  exact .pure

end WorkflowEntry

namespace NodeEntry

/-- A node entry leaves out `action_type` and `name` where they are absent. -/
theorem under?_toJson (n : NodeEntry) :
    n.toJson.under? "action_type" = n.actionType.map .string ∧
      n.toJson.under? "name" = n.name.map .string ∧
      n.toJson.under? "config" = some (.object n.config) := by
  simp [Json.under?, toJson, Json.asObject?, Fields.find?_append, Fields.find?_present,
    Fields.find?]

theorem ofJson?_toJson (n : NodeEntry) : ofJson? n.toJson = some n := by
  obtain ⟨haction, hname, hconfig⟩ := under?_toJson n
  refine read_object ?_
  refine .bind (yields_required rfl rfl) ?_
  refine .bind (yields_required rfl rfl) ?_
  refine .bind (yields_absentable haction (fun _ => Json.noConfusion) (fun _ => rfl)) ?_
  refine .bind (yields_absentable hname (fun _ => Json.noConfusion) (fun _ => rfl)) ?_
  refine .bind (yields_defaulted _ hconfig rfl) ?_
  exact .pure

end NodeEntry

namespace ConnectionEntry

/-- A connection entry leaves out `from` and `condition_type` where they are absent. -/
theorem under?_toJson (c : ConnectionEntry) :
    c.toJson.under? "from" = c.source.map .string ∧
      c.toJson.under? "to" = some (.string c.target) ∧
      c.toJson.under? "condition_type" = c.conditionType.map .string ∧
      c.toJson.under? "priority" = some (priorityToJson c.priority) := by
  simp [Json.under?, toJson, Json.asObject?, Fields.find?_append, Fields.find?_present,
    Fields.find?]

theorem ofJson?_toJson (c : ConnectionEntry) : ofJson? c.toJson = some c := by
  obtain ⟨hsource, htarget, hcondition, hpriority⟩ := under?_toJson c
  refine read_object ?_
  refine .bind (yields_absentable hsource (fun _ => Json.noConfusion) (fun _ => rfl)) ?_
  refine .bind (yields_required htarget rfl) ?_
  refine .bind (yields_absentable hcondition (fun _ => Json.noConfusion) (fun _ => rfl)) ?_
  refine .bind (yields_defaulted _ hpriority (priorityOfJson?_priorityToJson _)) ?_
  exact .pure

end ConnectionEntry

theorem Document.ofJson?_toJson (d : Document) : ofJson? d.toJson = some d := by
  refine read_object ?_
  refine .bind (yields_required rfl (WorkflowEntry.ofJson?_toJson _)) ?_
  refine .bind (yields_defaulted _ rfl (list_map NodeEntry.ofJson?_toJson _)) ?_
  refine .bind (yields_defaulted _ rfl (list_map ConnectionEntry.ofJson?_toJson _)) ?_
  exact .pure

/-! ### All records -/

/-- Under `name` there is null if `o` is absent, and a value that is not null otherwise. -/
def NullWhenAbsent {α : Type} (v : Json) (name : String) (o : Option α) : Prop :=
  (∃ w, v.under? name = some w) ∧ (v.under? name = some .null ↔ o = none)

/-- There is no `name` if `o` is absent, and a value that is not null otherwise. -/
def LeftOutWhenAbsent {α : Type} (v : Json) (name : String) (o : Option α) : Prop :=
  (v.under? name = none ↔ o = none) ∧ v.under? name ≠ some .null

theorem NullWhenAbsent.of_ofOption {α : Type} {v : Json} {name : String} {write : α → Json}
    {o : Option α} (h : v.under? name = some (Json.ofOption write o))
    (hnull : ∀ a, write a ≠ .null) : NullWhenAbsent v name o := by
  rw [NullWhenAbsent, h]
  refine ⟨⟨_, rfl⟩, ?_⟩
  cases o with
  | none => exact iff_of_true rfl rfl
  | some a => exact iff_of_false (fun heq => hnull a (Option.some.inj heq)) nofun

theorem LeftOutWhenAbsent.of_map {α : Type} {v : Json} {name : String} {write : α → Json}
    {o : Option α} (h : v.under? name = o.map write) (hnull : ∀ a, write a ≠ .null) :
    LeftOutWhenAbsent v name o := by
  rw [LeftOutWhenAbsent, h]
  cases o with
  | none => exact ⟨iff_of_true rfl rfl, nofun⟩
  | some a => exact ⟨iff_of_false nofun nofun, fun heq => hnull a (Option.some.inj heq)⟩

/-- For each kind of record `ofJson?` undoes `toJson`: for workflows, nodes, connections and
executions as rows, in which null stands for what is absent, for events, and for documents, which
leave out what is absent. -/
theorem records_are_read_back :
    (∀ w : Workflow, w.created.IsOrdinary → w.updated.IsOrdinary →
      Workflow.ofJson? w.toJson = some w ∧
        NullWhenAbsent w.toJson "description" w.description) ∧
    (∀ n : Node, n.position.x.isFinite = true → n.position.y.isFinite = true →
      Node.ofJson? n.toJson = some n ∧
        NullWhenAbsent n.toJson "action_type" n.actionType ∧
        NullWhenAbsent n.toJson "name" n.name) ∧
    (∀ c : Connection,
      Connection.ofJson? c.toJson = some c ∧
        NullWhenAbsent c.toJson "from_node" c.source ∧
        NullWhenAbsent c.toJson "condition_type" c.branch) ∧
    (∀ e : Execution, e.startedAt.IsOrdinary → (∀ t ∈ e.completedAt, t.IsOrdinary) →
      Execution.ofJson? e.toJson = some e ∧
        NullWhenAbsent e.toJson "error" e.error ∧
        NullWhenAbsent e.toJson "completed_at" e.completedAt) ∧
    (∀ e : Event, e.timestamp.IsOrdinary → e.happening.InWords →
      Event.ofJson? e.toJson = some e) ∧
    (∀ d : Document,
      Document.ofJson? d.toJson = some d ∧
        LeftOutWhenAbsent d.workflow.toJson "description" d.workflow.description ∧
        LeftOutWhenAbsent d.workflow.toJson "trigger_config" d.workflow.triggerConfig ∧
        LeftOutWhenAbsent d.workflow.toJson "status" d.workflow.status ∧
        (∀ n ∈ d.nodes, LeftOutWhenAbsent n.toJson "action_type" n.actionType ∧
          LeftOutWhenAbsent n.toJson "name" n.name) ∧
        (∀ c ∈ d.connections, LeftOutWhenAbsent c.toJson "from" c.source ∧
          LeftOutWhenAbsent c.toJson "condition_type" c.conditionType)) := by
  refine ⟨?_, ?_, ?_, ?_, ?_, ?_⟩
  · intro w hcreated hupdated
    exact ⟨Workflow.ofJson?_toJson hcreated hupdated, .of_ofOption rfl (fun _ => Json.noConfusion)⟩
  · intro n hx hy
    exact ⟨Node.ofJson?_toJson hx hy, .of_ofOption rfl (fun _ => Json.noConfusion),
      .of_ofOption rfl (fun _ => Json.noConfusion)⟩
  · intro c
    exact ⟨Connection.ofJson?_toJson c, .of_ofOption rfl (fun _ => Json.noConfusion),
      .of_ofOption rfl (fun _ => Json.noConfusion)⟩
  · intro e hstarted hcompleted
    exact ⟨Execution.ofJson?_toJson hstarted hcompleted,
      .of_ofOption rfl (fun _ => Json.noConfusion), .of_ofOption rfl (fun _ => Json.noConfusion)⟩
  · intro e htime hwords
    exact Event.ofJson?_toJson htime hwords
  · intro d
    obtain ⟨hdescription, -, hconfig, hstatus⟩ := WorkflowEntry.under?_toJson d.workflow
    refine ⟨Document.ofJson?_toJson d, .of_map hdescription (fun _ => Json.noConfusion),
      .of_map hconfig (fun _ => Json.noConfusion), .of_map hstatus (fun _ => Json.noConfusion),
      ?_, ?_⟩
    · intro n _
      obtain ⟨haction, hname, -⟩ := NodeEntry.under?_toJson n
      exact ⟨.of_map haction (fun _ => Json.noConfusion),
        .of_map hname (fun _ => Json.noConfusion)⟩
    · intro c _
      obtain ⟨hsource, -, hcondition, -⟩ := ConnectionEntry.under?_toJson c
      exact ⟨.of_map hsource (fun _ => Json.noConfusion),
        .of_map hcondition (fun _ => Json.noConfusion)⟩

/-- Each record that has conditions is read back with an instant half a second into the leap second
at the end of 2016. -/
theorem read_back_in_leap_second :
    let t : Timestamp := ⟨1483228799, 1500000000, by decide⟩
    let w := Workflow.new Uuid.nil Uuid.nil Uuid.nil "greet" .bookingCreated t
    let n := Node.trigger Uuid.nil Uuid.nil
    let e := (Execution.start Uuid.nil Uuid.nil "manual" [("b", .null), ("a", .null)] t).fail
      "late" t
    let h : Event := ⟨Uuid.nil, .nodeEntered Uuid.nil "trigger" 18446744073709551615, t⟩
    Workflow.ofJson? w.toJson = some w ∧ Node.ofJson? n.toJson = some n ∧
      Execution.ofJson? e.toJson = some e ∧ Event.ofJson? h.toJson = some h := by
  intro t w n e h
  have ht : t.IsOrdinary := ⟨by decide, by decide, fun _ => by decide⟩
  have hcompleted : ∀ t' ∈ e.completedAt, t'.IsOrdinary := by
    intro t' ht'
    obtain rfl : t = t' := Option.some.inj ht'
    exact ht
  obtain ⟨hworkflow, hnode, -, hexecution, hevent, -⟩ := records_are_read_back
  exact ⟨(hworkflow w ht ht).1, (hnode n (by decide) (by decide)).1,
    (hexecution e ht hcompleted).1, hevent h ht (by decide : 18446744073709551615 < 2 ^ 64)⟩

end TriggerFlow
