import Mathlib.Data.List.Forall2
import Mathlib.Data.Nat.Digits.Defs
import TriggerFlow.Context.Path
import TriggerFlow.Proofs.Uuid
/-!
# Routes into a context

A route leads from a context to a value in it: by a key at first, and then by keys of objects and
positions in arrays, one step after the other (`Path.Route`).  It is spelled by a dot path if the
path has a segment for each step, which is the key itself, or digits whose number is the position
(`Number.Spells`).

What a path finds is what the routes that it spells lead to, and these are the routes without a dot
in a key (`lookup_eq_some_iff`).  What is looked up below a path depends on nothing but the value
at the path (`continued_lookup`).
-/

namespace TriggerFlow

/-! ### Positions -/

namespace Number

/-- Digits, possibly after a plus sign, whose number is `n`.  There may be zeros in front of it. -/
def Spells (cs : List Char) (n : Nat) : Prop :=
  ∃ ds, (cs = ds ∨ cs = '+' :: ds) ∧ ds ≠ [] ∧ (∀ c ∈ ds, isDigit c = true) ∧
    Nat.ofDigits 10 (ds.reverse.map fun c => c.toNat - 48) = n

theorem digitOf?_of_isDigit {c : Char} (h : isDigit c = true) :
    digitOf? c = some (c.toNat - 48) ∧ c.toNat - 48 < 10 := by
  simp only [isDigit, Bool.and_eq_true, decide_eq_true_eq] at h
  have hhigh : c.toNat ≤ 57 := h.2
  exact ⟨if_pos h, by omega⟩

theorem isDigit_of_digitOf? {c : Char} {d : Nat} (h : digitOf? c = some d) (hd : d < 10) :
    isDigit c = true := by
  unfold digitOf? at h
  split at h
  · next hdigit => simpa [isDigit] using hdigit
  · split at h
    -- a letter stands for ten at least
    · next hletter =>
      have hlow : 97 ≤ c.toNat := hletter.1
      simp only [Option.some.injEq] at h
      omega
    · split at h
      · next hletter =>
        have hlow : 65 ≤ c.toNat := hletter.1
        simp only [Option.some.injEq] at h
        omega
      · simp at h

/-- Digits are read by powers of ten, the last of them first: `Nat.ofDigits`. -/
theorem valueFrom_eq_some_iff {start n : Nat} {ds : List Char} :
    valueFrom 10 start ds = some n ↔ (∀ c ∈ ds, isDigit c = true) ∧
      Nat.ofDigits 10 (ds.reverse.map fun c => c.toNat - 48) + 10 ^ ds.length * start = n := by
  induction ds generalizing start with
  | nil => simp [valueFrom]
  | cons c ds ih =>
    rw [valueFrom, List.forall_mem_cons]
    by_cases hc : isDigit c = true
    · obtain ⟨hdigit, hlt⟩ := digitOf?_of_isDigit hc
      simp only [hdigit, hlt, if_true, ih, hc, true_and, List.reverse_cons, List.map_append,
        List.map_cons, List.map_nil, Nat.ofDigits_append, Nat.ofDigits_singleton, List.length_map,
        List.length_reverse, List.length_cons, Nat.pow_succ]
      rw [Nat.mul_add, Nat.mul_assoc, Nat.mul_comm start 10, Nat.add_comm (10 ^ ds.length * _),
        Nat.add_assoc]
    · refine iff_of_false (fun h => ?_) fun h => hc h.1.1
      cases hdigit : digitOf? c with
      | none => simp [hdigit] at h
      | some d =>
        by_cases hd : d < 10
        · exact hc (isDigit_of_digitOf? hdigit hd)
        · simp [hdigit, hd] at h

/-- The reader `word64?` reads what `Spells` a number, if it is below `2 ^ 64`. -/
theorem word64?_eq_some_iff {cs : List Char} {n : Nat} :
    word64? cs = some n ↔ Spells cs n ∧ n < 0x10000000000000000 := by
  have hvalue (ds : List Char) : (if ds.isEmpty then none
      else (value 10 ds).filter (· < 0x10000000000000000)) = some n ↔
      (ds ≠ [] ∧ (∀ c ∈ ds, isDigit c = true) ∧
        Nat.ofDigits 10 (ds.reverse.map fun c => c.toNat - 48) = n) ∧ n < 0x10000000000000000 := by
    cases ds with
    | nil => simp
    | cons c ds =>
      rw [List.isEmpty_cons, if_neg Bool.false_ne_true, Option.filter_eq_some_iff, value,
        valueFrom_eq_some_iff]
      simp
  -- a sign is no digit, so that a text is read with it or without in one way only
  have hplus : isDigit '+' = false := by decide
  unfold word64?
  split
  · next ds =>
    rw [hvalue]
    refine and_congr_left fun _ => ⟨fun h => ⟨ds, .inr rfl, h⟩, ?_⟩
    rintro ⟨ds', hds | hds, hne, hdigits, hn⟩
    · have hfirst := hdigits '+' (by rw [← hds]; exact List.mem_cons_self ..)
      rw [hplus] at hfirst
      cases hfirst
    · rw [(List.cons.inj hds).2]
      exact ⟨hne, hdigits, hn⟩
  · next hunsigned =>
    rw [hvalue]
    refine and_congr_left fun _ => ⟨fun h => ⟨cs, .inl rfl, h⟩, ?_⟩
    rintro ⟨ds', hds | hds, hne, hdigits, hn⟩
    · rw [hds]
      exact ⟨hne, hdigits, hn⟩
    · exact absurd hds (hunsigned ds')

theorem digitsOnto_ne_nil (base n : Nat) (done : List Char) : digitsOnto base n done ≠ [] := by
  fun_induction digitsOnto base n done with
  | case1 => exact List.cons_ne_nil _ _
  | case2 n done h ih => exact ih

/-- A number is spelled by its `digits`. -/
theorem spells_digits (n : Nat) : Spells (digits 10 n) n := by
  have hread := value_digits 10 n (by decide) (by decide)
  rw [value, valueFrom_eq_some_iff, Nat.mul_zero, Nat.add_zero] at hread
  exact ⟨_, .inl rfl, digitsOnto_ne_nil _ _ _, hread⟩

theorem dot_notMem_of_spells {cs : List Char} {n : Nat} (h : Spells cs n) : '.' ∉ cs := by
  have hno : ¬ isDigit '.' = true := by decide
  obtain ⟨ds, hcs, -, hdigits, -⟩ := h
  have hdot : '.' ∉ ds := fun hmem => hno (hdigits '.' hmem)
  rcases hcs with rfl | rfl
  · exact hdot
  · simpa using hdot

end Number

namespace Path

open Number

/-! ### Paths and their segments -/

theorem dot_notMem_of_mem_segments {cs s : List Char} (h : s ∈ segments cs) : '.' ∉ s := by
  induction cs generalizing s with
  | nil =>
    obtain rfl := List.mem_singleton.mp h
    exact List.not_mem_nil
  | cons c cs ih =>
    by_cases hc : c = '.'
    · rw [segments, if_pos hc] at h
      rcases List.mem_cons.mp h with rfl | h
      · exact List.not_mem_nil
      · exact ih h
    · obtain ⟨t, ts, htail, hcons⟩ := segments_cons_of_ne hc cs
      rw [hcons] at h
      rw [htail] at ih
      rcases List.mem_cons.mp h with rfl | h
      · exact List.not_mem_cons_of_ne_of_not_mem (Ne.symm hc) (ih (List.mem_cons_self ..))
      · exact ih (List.mem_cons_of_mem _ h)

theorem join_segments (cs : List Char) : join (segments cs) = cs := by
  induction cs with
  | nil => rfl
  | cons c cs ih =>
    by_cases hc : c = '.'
    · rw [segments, if_pos hc]
      cases hs : segments cs with
      | nil => exact absurd hs (segments_ne_nil cs)
      | cons s ss =>
        rw [hs] at ih
        rw [join, ih, hc]
        · rfl
        · simp
    · obtain ⟨s, ss, htail, hcons⟩ := segments_cons_of_ne hc cs
      rw [htail] at ih
      rw [hcons, ← ih]
      cases ss <;> rfl

theorem toList_intercalate (texts : List String) :
    (".".intercalate texts).toList = join (texts.map String.toList) := by
  induction texts with
  | nil => rfl
  | cons text texts ih =>
    cases texts with
    | nil => simp [join]
    | cons text' texts =>
      rw [String.intercalate_cons_cons, List.map_cons, List.map_cons, join]
      · rw [String.toList_append, ih]
        simp
      · simp

/-- A path has the segments `texts` exactly if it is joined from them with dots. -/
theorem segments_eq_iff {path : String} {texts : List String} (hne : texts ≠ [])
    (free : ∀ text ∈ texts, '.' ∉ text.toList) :
    segments path.toList = texts.map String.toList ↔ path = ".".intercalate texts := by
  constructor
  · intro h
    rw [← String.toList_inj, toList_intercalate, ← h, join_segments]
  · rintro rfl
    rw [toList_intercalate]
    refine segments_join (by simpa using hne) ?_
    simpa using free

/-! ### Routes -/

/-- A step down from a value: to what an object has under a `key`, or to the `position` of an array
with an index of 64 bits. -/
inductive Step where
  | key (name : String)
  | position (index : UInt64)

namespace Step

inductive Leads : Step → Json → Json → Prop
  | key {name fields v} (found : Fields.find? name fields = some v) :
      Leads (.key name) (.object fields) v
  | position {index items v} (there : items[index.toNat]? = some v) :
      Leads (.position index) (.array items) v

/-- A step as a segment of a path, positions in decimal. -/
def text : Step → String
  | key name => name
  | position index => decimal index.toNat

/-- The segment stands for the step: it is the key, or `Spells` the position. -/
def IsSpelled : Step → String → Prop
  | key name, s => s = name
  | position index, s => Spells s.toList index.toNat

def DotFree : Step → Prop
  | key name => '.' ∉ name.toList
  | position _ => True

theorem isSpelled_text (step : Step) : step.IsSpelled step.text := by
  cases step with
  | key name => rfl
  | position index =>
    have hchars : (decimal index.toNat).toList = digits 10 index.toNat := String.toList_ofList
    rw [IsSpelled, text, hchars]
    exact spells_digits index.toNat

theorem IsSpelled.dotFree_iff {step : Step} {s : String} (h : step.IsSpelled s) :
    step.DotFree ↔ '.' ∉ s.toList := by
  cases step with
  | key name =>
    obtain rfl : s = name := h
    exact Iff.rfl
  | position index => exact iff_of_true trivial (dot_notMem_of_spells h)

/-- Steps are `DotFree` exactly if the segments that stand for them have no dots. -/
theorem forall_dotFree_iff {steps : List Step} {texts : List String}
    (h : List.Forall₂ IsSpelled steps texts) :
    (∀ step ∈ steps, step.DotFree) ↔ ∀ s ∈ texts, '.' ∉ s.toList := by
  induction h with
  | nil => simp
  | cons first rest ih => rw [List.forall_mem_cons, List.forall_mem_cons, first.dotFree_iff, ih]

/-- What `child?` finds for a segment is what the steps that it spells lead to. -/
theorem child?_eq_some_iff {u v : Json} {segment : List Char} :
    child? u segment = some v ↔
      ∃ step : Step, step.IsSpelled (String.ofList segment) ∧ step.Leads u v := by
  constructor
  · intro h
    cases u with
    | object fields => exact ⟨.key (String.ofList segment), rfl, .key h⟩
    | array items =>
      obtain ⟨i, hi, hv⟩ := Option.bind_eq_some_iff.mp h
      -- an index that is read fits a word, and the word is the index
      obtain ⟨hspells, hlt⟩ := word64?_eq_some_iff.mp hi
      have hword : (UInt64.ofNat i).toNat = i := UInt64.toNat_ofNat_of_lt' hlt
      refine ⟨.position (UInt64.ofNat i), ?_, .position ?_⟩
      · rw [IsSpelled, String.toList_ofList, hword]
        exact hspells
      · rw [hword]
        exact hv
    | _ => simp [child?] at h
  · rintro ⟨step, hspelled, hleads⟩
    cases hleads with
    | @key name fields _ found =>
      obtain rfl : String.ofList segment = name := hspelled
      exact found
    | @position index items _ there =>
      rw [IsSpelled, String.toList_ofList] at hspelled
      have hread := word64?_eq_some_iff.mpr ⟨hspelled, index.toNat_lt⟩
      rw [child?, hread, Option.bind_some, there]

end Step

/-- Steps lead one after the other from a value to another. -/
inductive LeadBy : List Step → Json → Json → Prop
  | here {v} : LeadBy [] v v
  | down {u v w step steps} (first : Step.Leads step u v) (rest : LeadBy steps v w) :
      LeadBy (step :: steps) u w

/-- What `descend` finds for segments is what the steps that they spell lead to. -/
theorem descend_eq_some_iff {u v : Json} {ss : List (List Char)} :
    descend u ss = some v ↔
      ∃ steps, List.Forall₂ Step.IsSpelled steps (ss.map String.ofList) ∧ LeadBy steps u v := by
  -- induction on the segments: each one is a step, from the value where the last one led
  induction ss generalizing u with
  | nil =>
    constructor
    · intro h
      obtain rfl := Option.some.inj h
      exact ⟨[], .nil, .here⟩
    · rintro ⟨steps, hspelled, hleads⟩
      cases hspelled
      cases hleads
      rfl
  | cons s ss ih =>
    rw [descend, Option.bind_eq_some_iff]
    constructor
    · rintro ⟨w, hchild, hrest⟩
      obtain ⟨step, hspelled, hleads⟩ := Step.child?_eq_some_iff.mp hchild
      obtain ⟨steps, hspelled', hleads'⟩ := ih.mp hrest
      exact ⟨step :: steps, .cons hspelled hspelled', .down hleads hleads'⟩
    · rintro ⟨steps, hspelled, hleads⟩
      cases hspelled with
      | cons hfirst hspelled =>
        cases hleads with
        | down hleads hleads' =>
          exact ⟨_, Step.child?_eq_some_iff.mpr ⟨_, hfirst, hleads⟩, ih.mpr ⟨_, hspelled, hleads'⟩⟩

/-- A way from a context to a value in it: the key `first` of the context with which it begins, and
the `steps` from there. -/
structure Route where
  first : String
  steps : List Step

namespace Route

def allSteps (r : Route) : List Step := .key r.first :: r.steps

def LeadsTo (r : Route) (context : Fields) (v : Json) : Prop :=
  LeadBy r.allSteps (.object context) v

def DotFree (r : Route) : Prop := ∀ step ∈ r.allSteps, step.DotFree

/-- The path has a segment for each step, joined with dots. -/
def IsSpelled (r : Route) (path : String) : Prop :=
  ∃ texts, path = ".".intercalate texts ∧ List.Forall₂ Step.IsSpelled r.allSteps texts

def text (r : Route) : String := ".".intercalate (r.allSteps.map Step.text)

theorem isSpelled_text (r : Route) : r.IsSpelled r.text := by
  refine ⟨_, rfl, ?_⟩
  rw [List.forall₂_map_right_iff]
  exact List.forall₂_same.mpr fun step _ => step.isSpelled_text

end Route

/-! ### What a path finds -/

section Lookup

variable {context : Fields} {path : String} {v : Json}

/-- What `lookup` finds at a path is what the `DotFree` routes that it spells lead to. -/
theorem lookup_eq_some_iff :
    lookup context path = some v ↔
      ∃ r : Route, r.DotFree ∧ r.IsSpelled path ∧ r.LeadsTo context v := by
  rw [lookup, lookupChars, descend_eq_some_iff]
  constructor
  · rintro ⟨steps, hspelled, hleads⟩
    have hchars : segments path.toList =
        ((segments path.toList).map String.ofList).map String.toList := by
      simp [List.map_map, Function.comp_def]
    have hfree : ∀ text ∈ (segments path.toList).map String.ofList, '.' ∉ text.toList := by
      simpa using fun s hs => dot_notMem_of_mem_segments hs
    have hne : (segments path.toList).map String.ofList ≠ [] := by
      simpa using segments_ne_nil path.toList
    have hpath := (segments_eq_iff hne hfree).mp hchars
    -- a path has at least one segment, and from the context this can only be a key
    cases hleads with
    | here => exact absurd (List.forall₂_nil_left_iff.mp hspelled) hne
    | @down _ w _ step steps first rest =>
      cases first with
      | @key name _ _ found =>
        exact ⟨⟨name, steps⟩, (Step.forall_dotFree_iff hspelled).mpr hfree, ⟨_, hpath, hspelled⟩,
          .down (.key found) rest⟩
  · rintro ⟨r, hfree, ⟨texts, hpath, hspelled⟩, hleads⟩
    have hne : texts ≠ [] := by
      rintro rfl
      cases hspelled
    have hchars := (segments_eq_iff hne ((Step.forall_dotFree_iff hspelled).mp hfree)).mpr hpath
    refine ⟨r.allSteps, ?_, hleads⟩
    rw [hchars]
    simpa [List.map_map, Function.comp_def] using hspelled

/-- What is looked up further on below what has been found: in an object `lookup` of the path, in an
array the item at the position that the first segment spells and what `descend` finds in it, and
`none` anywhere else. -/
inductive Continued (below : String) : Option Json → Option Json → Prop
  | object (fields : Fields) : Continued below (some (.object fields)) (lookup fields below)
  | item {items s ss} (cut : segments below.toList = s :: ss) (index : UInt64)
      (spelled : Spells s index.toNat) :
      Continued below (some (.array items)) (items[index.toNat]?.bind (descend · ss))
  | noItem {items s ss} (cut : segments below.toList = s :: ss)
      (unspelled : ∀ index : UInt64, ¬ Spells s index.toNat) :
      Continued below (some (.array items)) none
  | scalar {v : Json} (noObject : ∀ fields, v ≠ .object fields)
      (noArray : ∀ items, v ≠ .array items) :
      Continued below (some v) none
  | nothing : Continued below none none

theorem continued_lookup (context : Fields) (path below : String) :
    Continued below (lookup context path) (lookup context (path ++ "." ++ below)) := by
  rw [lookup_below]
  cases hfound : lookup context path with
  | none => exact .nothing
  | some v =>
    rw [Option.bind_some]
    cases hcut : segments below.toList with
    | nil => exact absurd hcut (segments_ne_nil _)
    | cons s ss =>
      rw [descend]
      -- below an object the rest is looked up as a path of its own; an array asks for an index
      cases v with
      | object fields =>
        have hlookup : lookup fields below = (child? (.object fields) s).bind (descend · ss) := by
          rw [lookup, lookupChars, hcut, descend]
        rw [← hlookup]
        exact .object fields
      | array items =>
        cases hread : word64? s with
        | none =>
          have hnothing : ∀ index : UInt64, ¬ Spells s index.toNat := fun index hspells => by
            rw [word64?_eq_some_iff.mpr ⟨hspells, index.toNat_lt⟩] at hread
            cases hread
          rw [child?, hread]
          exact .noItem hcut hnothing
        | some i =>
          obtain ⟨hspells, hlt⟩ := word64?_eq_some_iff.mp hread
          have hword : (UInt64.ofNat i).toNat = i := UInt64.toNat_ofNat_of_lt' hlt
          rw [← hword] at hspells
          rw [child?, hread, Option.bind_some, ← hword]
          exact .item hcut _ hspells
      | _ => exact .scalar (by simp) (by simp)

end Lookup

/-- Dot paths address exactly the routes without a dot in a key: `lookup` finds at `r.text` what
such a route leads to, finds at any path only what the routes it spells lead to, and below a path
only what is `Continued` from the value at the path. -/
theorem paths_address_routes (context : Fields) :
    (∀ (r : Route) v, r.DotFree → r.LeadsTo context v → lookup context r.text = some v) ∧
    (∀ path v, lookup context path = some v ↔
      ∃ r : Route, r.DotFree ∧ r.IsSpelled path ∧ r.LeadsTo context v) ∧
    ∀ path below,
      Continued below (lookup context path) (lookup context (path ++ "." ++ below)) := by
  refine ⟨fun r v free leads => ?_, fun path v => lookup_eq_some_iff, continued_lookup context⟩
  exact lookup_eq_some_iff.mpr ⟨r, free, r.isSpelled_text, leads⟩

/-! ### A booking with guests -/

def bookingContext : Fields :=
  [("booking", .object [("guests", .array [.object [("name", .string "Ada")]]), ("0", .null)])]

/-- The way to the name of the first guest. -/
def guestRoute : Route := ⟨"booking", [.key "guests", .position 0, .key "name"]⟩

/-- The name of the guest is found at the path of `guestRoute`. -/
theorem guestRoute_leads :
    guestRoute.text = "booking.guests.0.name" ∧ guestRoute.DotFree ∧
      guestRoute.LeadsTo bookingContext (.string "Ada") ∧
      lookup bookingContext guestRoute.text = some (.string "Ada") := by
  have free : guestRoute.DotFree := by
    simp [Route.DotFree, Route.allSteps, guestRoute, Step.DotFree]
  have leads : guestRoute.LeadsTo bookingContext (.string "Ada") :=
    .down (.key rfl) (.down (.key rfl) (.down (.position rfl) (.down (.key rfl) .here)))
  exact ⟨by decide +kernel, free, leads, (paths_address_routes bookingContext).1 _ _ free leads⟩

end Path

end TriggerFlow
