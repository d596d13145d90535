/-!
# Searching a text

`breakOn pattern text` cuts a text around the first place where the pattern occurs, so that
`breakOn pattern text = some (before, after)` gives back `text = before ++ pattern ++ after`
(`append_of_breakOn`).  That the place is the first one says that the pattern does not end before it
does there (`breakOn_eq_some_iff`).
-/

namespace TriggerFlow.Text

/-- What stands before and after the first occurrence of `pattern`; `none` if it does not occur. -/
def breakOn (pattern : List Char) : List Char → Option (List Char × List Char)
  | [] => if pattern.isEmpty then some ([], []) else none
  | c :: cs =>
    if pattern.isPrefixOf (c :: cs) then some ([], (c :: cs).drop pattern.length)
    else (breakOn pattern cs).map fun (before, after) => (c :: before, after)

/-- Whether `pattern` occurs in `text`; the empty pattern occurs in every text. -/
def contains (text pattern : String) : Bool :=
  (breakOn pattern.toList text.toList).isSome

theorem append_of_breakOn {pattern text before after : List Char}
    (h : breakOn pattern text = some (before, after)) : text = before ++ pattern ++ after := by
  induction text generalizing before with
  | nil =>
    simp only [breakOn, List.isEmpty_iff] at h
    split at h <;> simp_all
  | cons c cs ih =>
    simp only [breakOn] at h
    split at h
    · next hp =>
      obtain ⟨rest, hrest⟩ := List.isPrefixOf_iff_prefix.1 hp
      obtain ⟨rfl, rfl⟩ : [] = before ∧ (c :: cs).drop pattern.length = after := by simpa using h
      rw [← hrest]
      simp
    · obtain ⟨⟨b, a⟩, hb, he⟩ := Option.map_eq_some_iff.1 h
      obtain ⟨rfl, rfl⟩ : c :: b = before ∧ a = after := by simpa using he
      simp [ih hb]

/-- The part `after` an occurrence of a pattern that is not empty is shorter than the text. -/
theorem length_after_lt {pattern text before after : List Char} (hp : pattern ≠ [])
    (h : breakOn pattern text = some (before, after)) : after.length < text.length := by
  have := congrArg List.length (append_of_breakOn h)
  have := List.length_pos_iff.2 hp
  simp at *
  omega

theorem breakOn_eq_none_iff {pattern text : List Char} :
    breakOn pattern text = none ↔ ¬ pattern <:+: text := by
  induction text with
  | nil => simp [breakOn]
  | cons c cs ih =>
    rw [breakOn, List.infix_cons_iff, not_or, ← ih, ← List.isPrefixOf_iff_prefix]
    split
    · next hp => simp [hp]
    · next hp => simp [hp]

/-- What comes before the last character of an occurrence is a prefix of what comes before its end.
-/
theorem append_dropLast_isPrefix (pattern before after : List Char) :
    before ++ pattern.dropLast <+: before ++ pattern ++ after := by
  have hlast := List.dropLast_prefix pattern
  exact ((List.prefix_append_right_inj before).mpr hlast).trans (List.prefix_append _ _)

/-- An occurrence at the start ends before one after `before` does, if this is not empty. -/
theorem infix_of_start {pattern before after : List Char} (hbefore : before ≠ [])
    (h : pattern <+: before ++ pattern ++ after) : pattern <:+: before ++ pattern.dropLast := by
  have hlength := List.length_pos_iff.mpr hbefore
  refine (List.prefix_of_prefix_length_le h (append_dropLast_isPrefix ..) ?_).isInfix
  rw [List.length_append, List.length_dropLast]
  omega

/-- A pattern that is not empty is cut out by `breakOn` where all that precedes the last character
of the occurrence is free of it: that is the first occurrence. -/
theorem breakOn_eq_some_iff {pattern text before after : List Char} (hp : pattern ≠ []) :
    breakOn pattern text = some (before, after) ↔
      text = before ++ pattern ++ after ∧ ¬ pattern <:+: before ++ pattern.dropLast := by
  induction text generalizing before with
  | nil => simp [breakOn, hp]
  | cons c cs ih =>
    simp only [breakOn, List.isPrefixOf_iff_prefix]
    split
    · next hstart =>
      constructor
      · intro h
        obtain ⟨rfl, rfl⟩ : [] = before ∧ (c :: cs).drop pattern.length = after := by simpa using h
        refine ⟨(List.prefix_iff_eq_append.mp hstart).symm, fun hfree => ?_⟩
        -- no pattern is part of itself without its last character
        have := hfree.length_le
        have := List.length_pos_iff.mpr hp
        rw [List.nil_append, List.length_dropLast] at *
        omega
      · rintro ⟨heq, hfree⟩
        cases before with
        | nil => simp [heq]
        | cons x b => exact absurd (infix_of_start (List.cons_ne_nil x b) (heq ▸ hstart)) hfree
    · next hstart =>
      rw [Option.map_eq_some_iff]
      constructor
      · rintro ⟨⟨b, a⟩, hbreak, heq⟩
        obtain ⟨rfl, rfl⟩ : c :: b = before ∧ a = after := by simpa using heq
        obtain ⟨rfl, hfree⟩ := ih.mp hbreak
        refine ⟨rfl, fun h => ?_⟩
        -- an earlier place would start at `c`, or be one in the rest
        rcases List.infix_cons_iff.mp h with h | h
        · exact hstart (h.trans (append_dropLast_isPrefix pattern (c :: b) a))
        · exact hfree h
      · rintro ⟨heq, hfree⟩
        cases before with
        | nil => exact absurd (heq ▸ List.prefix_append pattern after) hstart
        | cons x b =>
          obtain ⟨rfl, rfl⟩ := List.cons.inj heq
          exact ⟨(b, after), ih.mpr ⟨rfl, fun h => hfree (List.infix_cons_iff.mpr (.inr h))⟩, rfl⟩

end TriggerFlow.Text
