import TriggerFlow.Json.Value
import TriggerFlow.Number.Digits
/-!
# Dot paths

A dot path names a place in a context: its text is cut at the dots (`Path.segments`), the first
segment is a key of the context, and each further one a key of the object or an index into the array
reached so far (`Path.descend`).

Segments without dots are recovered from the path that joins them (`segments_join`), and a path
splits at any dot: `segments (p ++ '.' :: q) = segments p ++ segments q` (`segments_append`).  So a
path is followed in steps (`descend_append`, `lookup_below`).
-/

namespace TriggerFlow.Path

open Number

/-! ### Segments -/

/-- The parts of a path between its dots; a path without dots is its only segment. -/
def segments : List Char → List (List Char)
  | [] => [[]]
  | c :: cs =>
    if c = '.' then [] :: segments cs
    else
      match segments cs with
      | s :: ss => (c :: s) :: ss
      | [] => [[c]]

/-- The path whose segments are given; `segments_join` cuts it again. -/
def join : List (List Char) → List Char
  | [] => []
  | [s] => s
  | s :: ss => s ++ '.' :: join ss

theorem segments_ne_nil (cs : List Char) : segments cs ≠ [] := by
  cases cs with
  | nil => simp [segments]
  | cons c cs =>
    simp only [segments]
    split
    · simp
    · split <;> simp

theorem segments_cons_of_ne {c : Char} (h : c ≠ '.') (cs : List Char) :
    ∃ s ss, segments cs = s :: ss ∧ segments (c :: cs) = (c :: s) :: ss := by
  cases hs : segments cs with
  | nil => exact absurd hs (segments_ne_nil cs)
  | cons s ss => exact ⟨s, ss, rfl, by simp [segments, h, hs]⟩

/-- A path splits at any of its dots into the `segments` of both sides. -/
theorem segments_append (p q : List Char) :
    segments (p ++ '.' :: q) = segments p ++ segments q := by
  induction p with
  | nil => simp [segments]
  | cons c p ih =>
    by_cases h : c = '.'
    · subst h
      simp [segments, ih]
    · obtain ⟨s, ss, hp, hc⟩ := segments_cons_of_ne h p
      obtain ⟨s', ss', hp', hc'⟩ := segments_cons_of_ne h (p ++ '.' :: q)
      rw [List.cons_append, hc', hc]
      rw [ih, hp] at hp'
      simp only [List.cons_append, List.cons.injEq] at hp'
      simp [hp'.1, hp'.2]

theorem segments_of_not_mem {s : List Char} (h : '.' ∉ s) : segments s = [s] := by
  induction s with
  | nil => rfl
  | cons c s ih =>
    simp only [List.mem_cons, not_or] at h
    simp [segments, Ne.symm h.1, ih h.2]

/-- The `segments` of a joined path are the ones it was joined from, if there is one and none has a
dot. -/
theorem segments_join {ss : List (List Char)} (hne : ss ≠ []) (h : ∀ s ∈ ss, '.' ∉ s) :
    segments (join ss) = ss := by
  induction ss with
  | nil => exact absurd rfl hne
  | cons s ss ih =>
    have hs := segments_of_not_mem (h s (by simp))
    cases ss with
    | nil => simpa [join] using hs
    | cons t ts =>
      rw [show join (s :: t :: ts) = s ++ '.' :: join (t :: ts) from rfl, segments_append, hs,
        ih (by simp) fun x hx => h x (List.mem_cons_of_mem _ hx)]
      rfl

/-! ### Descent -/

/-- One step down: the field `segment` of an object, or the item of an array whose index it spells
(`word64?`). -/
def child? (v : Json) (segment : List Char) : Option Json :=
  match v with
  | .object fs => Fields.find? (String.ofList segment) fs
  | .array items => (word64? segment).bind fun i => items[i]?
  | _ => none

/-- Follows segments down from `v`, each by `child?`. -/
def descend (v : Json) : List (List Char) → Option Json
  | [] => some v
  | s :: ss => (child? v s).bind fun w => descend w ss

theorem descend_append (v : Json) (xs ys : List (List Char)) :
    descend v (xs ++ ys) = (descend v xs).bind (descend · ys) := by
  induction xs generalizing v with
  | nil => rfl
  | cons s ss ih =>
    simp only [List.cons_append, descend]
    cases child? v s <;> simp [ih]

/-- The value at a path in a context: its `segments` are followed from the object that the context
is. -/
def lookupChars (context : Fields) (path : List Char) : Option Json :=
  descend (.object context) (segments path)

/-- The value at a path in a context; see `lookupChars`. -/
def lookup (context : Fields) (path : String) : Option Json :=
  lookupChars context path.toList

/-- What there is at `path ++ "." ++ below` is looked up, along `below`, in what there is at `path`.
-/
theorem lookup_below (context : Fields) (path below : String) :
    lookup context (path ++ "." ++ below) =
      (lookup context path).bind (descend · (segments below.toList)) := by
  have hchars : (path ++ "." ++ below).toList = path.toList ++ '.' :: below.toList := by simp
  rw [lookup, lookupChars, hchars, segments_append, descend_append]
  rfl

end TriggerFlow.Path
