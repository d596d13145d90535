import TriggerFlow.Proofs.Calendar
import TriggerFlow.Proofs.Uuid
/-!
# Instants are read back from their texts

Each part of a text is read back by the reader of that part, whatever follows it: numbers of a fixed
width (`number?_padded`), years of four digits (`year?_yearChars`), decimals
(`decimals?_decimalChars`) and the marks between them.  With the calendar (`Date.toDays_ofDays`) the
parts make up the instant again: `Timestamp.ofText?_text`.

The years are 0 to 9999, which are written with four digits and no sign, and a leap second stands
at the end of a minute (`Timestamp.IsOrdinary`).
-/

namespace TriggerFlow

namespace Timestamp

open Number

/-! ### Characters -/

theorem isBlank_of_isDigit {c : Char} (h : isDigit c = true) : Text.isBlank c = false := by
  have hlow : 48 ≤ c.toNat := by
    simp only [isDigit, Bool.and_eq_true, decide_eq_true_eq] at h
    exact h.1
  have hhigh : c.toNat ≤ 57 := by
    simp only [isDigit, Bool.and_eq_true, decide_eq_true_eq] at h
    exact h.2
  simp only [Text.isBlank, Text.blankRanges, List.any_cons, List.any_nil, Bool.or_false,
    Bool.or_eq_false_iff, Bool.and_eq_false_iff, decide_eq_false_iff_not]
  omega

theorem isDigit_of_mem_padded {width n : Nat} : ∀ c ∈ padded 10 width n, isDigit c = true := by
  have hdigits : ∀ d : Fin 10, isDigit (digitChar d) = true := by decide
  exact forall_mem_padded (p := fun c => isDigit c = true) (by decide)
    (fun d hd => hdigits ⟨d, hd⟩) width n

/-- A number of a given width begins with a digit. -/
theorem exists_padded_eq_cons {width n : Nat} (hwidth : 0 < width) (h : n < 10 ^ width) :
    ∃ c cs, padded 10 width n = c :: cs ∧ isDigit c = true := by
  have hlength := length_padded (by decide) hwidth h
  have hall : ∀ c ∈ padded 10 width n, isDigit c = true := isDigit_of_mem_padded
  cases hcs : padded 10 width n with
  | nil =>
    rw [hcs, List.length_nil] at hlength
    omega
  | cons c cs =>
    rw [hcs] at hall
    exact ⟨c, cs, rfl, hall c List.mem_cons_self⟩

theorem takeWhile_padded_append (width n : Nat) {rest : List Char}
    (hrest : rest.takeWhile isDigit = []) :
    (padded 10 width n ++ rest).takeWhile isDigit = padded 10 width n := by
  rw [List.takeWhile_append_of_pos isDigit_of_mem_padded, hrest, List.append_nil]

theorem skipBlank_padded {width n : Nat} (hwidth : 0 < width) (h : n < 10 ^ width)
    (rest : List Char) : skipBlank (padded 10 width n ++ rest) = padded 10 width n ++ rest := by
  obtain ⟨c, cs, hcs, hc⟩ := exists_padded_eq_cons hwidth h
  rw [hcs, List.cons_append, skipBlank, List.dropWhile_cons_of_neg]
  simp [isBlank_of_isDigit hc]

/-! ### Parts of a text -/

/-- The reader `number? width` undoes `padded 10 width`, whatever follows. -/
theorem number?_padded {width n : Nat} (hwidth : 0 < width) (h : n < 10 ^ width)
    (rest : List Char) : number? width (padded 10 width n ++ rest) = some (n, rest) := by
  have hlength := length_padded (by decide) hwidth h
  have hdigits : ((padded 10 width n ++ rest).take width).takeWhile isDigit =
      padded 10 width n := by
    rw [List.take_left' hlength]
    simpa using takeWhile_padded_append width n (List.takeWhile_nil (p := isDigit))
  have hne : padded 10 width n ≠ [] := by
    intro hnil
    rw [hnil, List.length_nil] at hlength
    omega
  rw [number?, skipBlank_padded hwidth h]
  simp only [hdigits]
  rw [if_neg hne, value_padded (by decide) (by decide), List.drop_left]
  rfl

theorem mark?_cons {mark : Char} (h : Text.isBlank mark = false) (rest : List Char) :
    mark? mark (mark :: rest) = some rest := by
  rw [mark?, skipBlank, List.dropWhile_cons_of_neg (by simp [h])]
  exact if_pos rfl

theorem year?_yearChars {y : Int} (h0 : 0 ≤ y) (h9 : y ≤ 9999) (rest : List Char) :
    year? (yearChars y ++ rest) = some (y, rest) := by
  have hlt : y.toNat < 10 ^ 4 := by omega
  obtain ⟨c, cs, hcs, hc⟩ := exists_padded_eq_cons (by decide : 0 < 4) hlt
  have hminus : c ≠ '-' := by
    rintro rfl
    exact absurd hc (by decide)
  have hplus : c ≠ '+' := by
    rintro rfl
    exact absurd hc (by decide)
  have hnumber := number?_padded (by decide) hlt rest
  rw [yearChars, if_pos ⟨h0, h9⟩, year?, skipBlank_padded (by decide) hlt]
  rw [hcs, List.cons_append] at hnumber ⊢
  dsimp only
  split
  · next heq => exact absurd (List.cons.inj heq).1 hminus
  · next heq => exact absurd (List.cons.inj heq).1 hplus
  · rw [hnumber, Option.map_some, Int.toNat_of_nonneg h0]

theorem decimals?_padded {width n : Nat} (hwidth : 0 < width) (h9 : width ≤ 9)
    (h : n < 10 ^ width) {rest : List Char} (hrest : rest.takeWhile isDigit = []) :
    decimals? ('.' :: padded 10 width n ++ rest) = some (n * 10 ^ (9 - width), rest) := by
  have hlength := length_padded (by decide) hwidth h
  have hne : padded 10 width n ≠ [] := by
    intro hnil
    rw [hnil, List.length_nil] at hlength
    omega
  rw [List.cons_append, decimals?]
  simp only [takeWhile_padded_append width n hrest]
  rw [if_neg hne, List.take_of_length_le (by omega), value_padded (by decide) (by decide),
    List.drop_left, hlength]
  rfl

/-- The reader `decimals?` undoes `decimalChars`, which writes as few decimals as may be. -/
theorem decimals?_decimalChars {nanos : Nat} (h : nanos < 1000000000) :
    decimals? (decimalChars nanos ++ ['Z']) = some (nanos, ['Z']) := by
  have hend : ['Z'].takeWhile isDigit = [] := by decide
  unfold decimalChars
  split_ifs with hzero hmillis hmicros
  · rw [hzero]
    rfl
  · rw [decimals?_padded (by decide) (by decide) (by omega) hend]
    congr 2
    omega
  · rw [decimals?_padded (by decide) (by decide) (by omega) hend]
    congr 2
    omega
  · rw [decimals?_padded (by decide) (by decide) (by omega) hend]
    congr 2
    omega

/-! ### Instants -/

/-- The instant falls into a year of four digits, and if it is in a leap second, then in one at the
end of a minute. -/
structure IsOrdinary (t : Timestamp) : Prop where
  year_nonneg : 0 ≤ (Date.ofDays (t.seconds / 86400)).year
  year_le : (Date.ofDays (t.seconds / 86400)).year ≤ 9999
  leap : 1000000000 ≤ t.nanos → t.seconds % 60 = 59

theorem IsOrdinary.isInRange {t : Timestamp} (h : t.IsOrdinary) : t.isInRange = true := by
  have hdays := Date.days_bounds_of_year_bounds h.year_nonneg h.year_le
  have hmin : minSeconds = -8334601228800 := by decide
  have hmax : maxSeconds = 8210266876799 := by decide
  simp only [Timestamp.isInRange, hmin, hmax, Bool.and_eq_true, decide_eq_true_eq]
  omega

theorem IsOrdinary.isValid {t : Timestamp} (h : t.IsOrdinary) :
    (Date.ofDays (t.seconds / 86400)).isValid = true := by
  have hbounds := Date.ofDays_bounds (t.seconds / 86400)
  have h0 := h.year_nonneg
  have h9 := h.year_le
  have hmin : Date.minYear = -262143 := rfl
  have hmax : Date.maxYear = 262142 := rfl
  simp only [Date.isValid, Bool.and_eq_true, decide_eq_true_eq]
  omega

/-- The parts of an instant, as they are written, make it up again. -/
theorem IsOrdinary.ofParts? {t : Timestamp} (h : t.IsOrdinary) :
    Timestamp.ofParts? (Date.ofDays (t.seconds / 86400)) ((t.seconds % 86400).toNat / 3600)
      ((t.seconds % 86400).toNat / 60 % 60)
      ((t.seconds % 86400).toNat % 60 + if t.nanos < 1000000000 then 0 else 1)
      (t.nanos % 1000000000) 0 = some t := by
  have hnanos := t.nanos_lt
  have hleap := h.leap
  have hhour : (t.seconds % 86400).toNat / 3600 < 24 := by omega
  have hminute : (t.seconds % 86400).toNat / 60 % 60 < 60 := by omega
  have hsecond : (t.seconds % 86400).toNat % 60 + (if t.nanos < 1000000000 then 0 else 1) ≤ 60 := by
    split <;> omega
  -- the second is 60 in a leap second only, which is where the nanoseconds need one more
  have htotal : t.nanos % 1000000000 + (if (t.seconds % 86400).toNat % 60 +
      (if t.nanos < 1000000000 then 0 else 1) = 60 then 1000000000 else 0) = t.nanos := by
    split_ifs <;> omega
  have hseconds : (Date.ofDays (t.seconds / 86400)).toDays * 86400 +
      ((t.seconds % 86400).toNat / 3600 : Nat) * 3600 +
      ((t.seconds % 86400).toNat / 60 % 60 : Nat) * 60 +
      (min ((t.seconds % 86400).toNat % 60 + if t.nanos < 1000000000 then 0 else 1) 59 : Nat) - 0 =
        t.seconds := by
    rw [Date.toDays_ofDays]
    split <;> omega
  rw [Timestamp.ofParts?, h.isValid, if_pos (by simp [hhour, hminute, hsecond])]
  simp only [htotal, hseconds, hnanos, ↓reduceDIte, h.isInRange, ↓reduceIte]

theorem bind_of_eq_some {α β : Type} {o : Option α} {a : α} (h : o = some a)
    (f : α → Option β) : o.bind f = f a := by
  rw [h, Option.bind_some]

/-- A text is read by the readers of its parts, one after the other. -/
theorem ofChars?_of_parts {cs r₀ r₁ r₂ r₃ r₄ r₅ r₆ r₇ r₈ r₉ r₁₀ r₁₁ : List Char} {year : Int}
    {month day hour minute second nanos : Nat} {offset : Int}
    (hyear : year? cs = some (year, r₀)) (hmark : mark? '-' r₀ = some r₁)
    (hmonth : number? 2 r₁ = some (month, r₂))
    (hmark' : mark? '-' r₂ = some r₃)
    (hday : number? 2 r₃ = some (day, r₄))
    (hseparator : separator? r₄ = some r₅)
    (hhour : number? 2 r₅ = some (hour, r₆))
    (hcolon : mark? ':' r₆ = some r₇)
    (hminute : number? 2 r₇ = some (minute, r₈))
    (hcolon' : mark? ':' r₈ = some r₉)
    (hsecond : number? 2 r₉ = some (second, r₁₀))
    (hdecimals : decimals? r₁₀ = some (nanos, r₁₁))
    (hoffset : offset? (skipBlank r₁₁) = some (offset, [])) :
    ofChars? cs = Timestamp.ofParts? ⟨year, month, day⟩ hour minute second nanos offset := by
  rw [ofChars?]
  refine (bind_of_eq_some hyear _).trans ?_
  refine (bind_of_eq_some hmark _).trans ?_
  refine (bind_of_eq_some hmonth _).trans ?_
  refine (bind_of_eq_some hmark' _).trans ?_
  refine (bind_of_eq_some hday _).trans ?_
  refine (bind_of_eq_some hseparator _).trans ?_
  refine (bind_of_eq_some hhour _).trans ?_
  refine (bind_of_eq_some hcolon _).trans ?_
  refine (bind_of_eq_some hminute _).trans ?_
  refine (bind_of_eq_some hcolon' _).trans ?_
  refine (bind_of_eq_some hsecond _).trans ?_
  refine (bind_of_eq_some hdecimals _).trans ?_
  exact (bind_of_eq_some hoffset _).trans (if_pos rfl)

/-- An instant that `IsOrdinary` is read back from its text. -/
theorem ofText?_text {t : Timestamp} (h : t.IsOrdinary) : ofText? t.text = some t := by
  obtain ⟨⟨hmonth1, hmonth12⟩, hday1, hday⟩ := Date.ofDays_bounds (t.seconds / 86400)
  have hday31 := Date.daysInMonth_le (Date.ofDays (t.seconds / 86400)).year
    (Date.ofDays (t.seconds / 86400)).month
  have hsecond : (t.seconds % 86400).toNat % 60 + (if t.nanos < 1000000000 then 0 else 1) <
      10 ^ 2 := by
    split <;> omega
  have hblank : Text.isBlank '-' = false ∧ Text.isBlank ':' = false := by decide
  rw [ofText?, text, String.toList_ofList, chars]
  simp only [List.append_assoc, List.cons_append]
  rw [ofChars?_of_parts (year?_yearChars h.year_nonneg h.year_le _) (mark?_cons hblank.1 _)
    (number?_padded (by decide) (by omega) _) (mark?_cons hblank.1 _)
    (number?_padded (by decide) (by omega) _) rfl
    (number?_padded (by decide) (by omega) _) (mark?_cons hblank.2 _)
    (number?_padded (by decide) (by omega) _) (mark?_cons hblank.2 _)
    (number?_padded (by decide) hsecond _) (decimals?_decimalChars (by omega))
    (show offset? (skipBlank ['Z']) = some (0, []) by decide)]
  exact h.ofParts?

theorem ofJson?_toJson {t : Timestamp} (h : t.IsOrdinary) : ofJson? t.toJson = some t :=
  ofText?_text h

end Timestamp

end TriggerFlow
