import TriggerFlow.Proofs.Store.Rows
/-!
# Copies in hand

Authors have copies of rows in hand, and a copy may be older than the row that is stored.  Still,
some part of a row never changes, its `mark`, and an identifier, its `key`, is given out once.  So
all copies with the same `key` have the same `mark`, and so has the row (`Copied`).
-/

namespace TriggerFlow

variable {α κ : Type} {key : α → Uuid} {mark : α → κ} {rows hand given : List α}

/-- Members of `hand` with the same `key` have the same `mark`, and every member of `rows` has the
`key` and the `mark` of one in `hand`. -/
structure Copied (key : α → Uuid) (mark : α → κ) (rows hand : List α) : Prop where
  agree : ∀ a ∈ hand, ∀ a' ∈ hand, key a = key a' → mark a = mark a'
  known : ∀ a ∈ rows, ∃ a' ∈ hand, key a = key a' ∧ mark a = mark a'

namespace Copied

theorem nil : Copied key mark [] [] :=
  ⟨fun _ ha => absurd ha List.not_mem_nil, fun _ ha => absurd ha List.not_mem_nil⟩

/-- A row has the mark of every copy with its key. -/
theorem mark_eq (hc : Copied key mark rows hand) {a b : α} (ha : a ∈ rows) (hb : b ∈ hand)
    (hkey : key a = key b) : mark a = mark b := by
  obtain ⟨a', ha', hkey', hmark⟩ := hc.known a ha
  exact hmark.trans (hc.agree a' ha' b hb (hkey'.symm.trans hkey))

/-- Handing out what has the key and the mark of a copy keeps `Copied`. -/
theorem handOut (hc : Copied key mark rows hand)
    (hgiven : ∀ a ∈ given, ∃ a' ∈ hand, key a = key a' ∧ mark a = mark a') :
    Copied key mark rows (hand ++ given) := by
  have hknown : ∀ a ∈ hand ++ given, ∃ a' ∈ hand, key a = key a' ∧ mark a = mark a' := by
    intro a ha
    rcases List.mem_append.mp ha with ha | ha
    · exact ⟨a, ha, rfl, rfl⟩
    · exact hgiven a ha
  refine ⟨fun a ha b hb hkey => ?_, fun a ha => ?_⟩
  · obtain ⟨a', ha', hkey₁, hmark₁⟩ := hknown a ha
    obtain ⟨b', hb', hkey₂, hmark₂⟩ := hknown b hb
    rw [hmark₁, hmark₂]
    exact hc.agree a' ha' b' hb' (by rw [← hkey₁, ← hkey₂, hkey])
  · obtain ⟨a', ha', hsame⟩ := hc.known a ha
    exact ⟨a', List.mem_append_left _ ha', hsame⟩

/-- Removing rows keeps `Copied`. -/
theorem mono {rows' : List α} (hc : Copied key mark rows hand) (hrows : rows' ⊆ rows) :
    Copied key mark rows' hand :=
  ⟨hc.agree, fun a ha => hc.known a (hrows ha)⟩

/-- Putting what has the key and the mark of a copy in the place of a row keeps `Copied`. -/
theorem replace {row : α} (hc : Copied key mark rows hand)
    (hrow : ∃ a ∈ hand, key row = key a ∧ mark row = mark a) (p : α → Bool) :
    Copied key mark (Tables.replaceFirst p row rows) hand := by
  refine ⟨hc.agree, fun a ha => ?_⟩
  rcases Tables.mem_replaceFirst ha with rfl | ha
  · exact hrow
  · exact hc.known a ha

/-- Adding a row under a new key and handing it out keeps `Copied`. -/
theorem add (hc : Copied key mark rows hand) {row : α} (hnew : ∀ a ∈ hand, key a ≠ key row) :
    Copied key mark (rows ++ [row]) (hand ++ [row]) := by
  refine ⟨fun a ha b hb hkey => ?_, fun a ha => ?_⟩
  · rcases List.mem_append.mp ha with ha | ha <;> rcases List.mem_append.mp hb with hb | hb
    · exact hc.agree a ha b hb hkey
    · rw [List.mem_singleton.mp hb] at hkey
      exact absurd hkey (hnew a ha)
    · rw [List.mem_singleton.mp ha] at hkey
      exact absurd hkey.symm (hnew b hb)
    · rw [List.mem_singleton.mp ha, List.mem_singleton.mp hb]
  · rcases List.mem_append.mp ha with ha | ha
    · obtain ⟨a', ha', hsame⟩ := hc.known a ha
      exact ⟨a', List.mem_append_left _ ha', hsame⟩
    · exact ⟨a, List.mem_append_right _ ha, rfl, rfl⟩

end Copied

end TriggerFlow
