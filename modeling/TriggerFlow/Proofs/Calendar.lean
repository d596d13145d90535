import Mathlib.Tactic.IntervalCases
import TriggerFlow.Timestamp
/-!
# Days of the calendar

Days are counted in eras of 400 years, and a day of an era is cut into a century, a cycle of four
years, a year and a day of the year (`Cycles`); years start in March here, so that the leap day is
the last one of its year.  The day that `Date.ofDays` finds is one of the calendar
(`ofDays_bounds`), and it stands as far from the start of 1970 as it should (`toDays_ofDays`).
-/

namespace TriggerFlow

namespace Date

/-! ### Eras -/

/-- The day `d` of an era is day `s` of year `r` in cycle `q` of century `c`, all counted from zero.
-/
structure Cycles (d c q r s : Nat) : Prop where
  days : d = 36524 * c + 1461 * q + 365 * r + s
  century : c ≤ 3
  cycle : q ≤ 24
  year : r ≤ 3
  day : s ≤ 365
  /-- The leap day, `s = 365`, ends the last year of a cycle; the last cycles of the first three
  centuries have none. -/
  leap : s = 365 → r = 3 ∧ (q = 24 → c = 3)

theorem exists_cycles {d : Nat} (h : d < 146097) : ∃ c q r s, Cycles d c q r s := by
  let c := min 3 (d / 36524)
  let q := (d - 36524 * c) / 1461
  let r := min 3 ((d - 36524 * c - 1461 * q) / 365)
  refine ⟨c, q, r, d - 36524 * c - 1461 * q - 365 * r, ?_⟩
  constructor <;> omega

section

variable {d c q r s : Nat} (h : Cycles d c q r s)

include h

theorem Cycles.yearOfEra :
    (d - d / 1460 + d / 36524 - d / 146096) / 365 = 100 * c + 4 * q + r := by
  obtain ⟨rfl, hc, hq, hr, hs, hleap⟩ := h
  by_cases hlast : 1461 * q + 365 * r + s < 36524
  · have hcentury : (36524 * c + 1461 * q + 365 * r + s) / 36524 = c := by omega
    have hera : (36524 * c + 1461 * q + 365 * r + s) / 146096 = 0 := by omega
    -- the leap days that are taken off may be one too many, but not on the first day of a year
    have hcycle : (36524 * c + 1461 * q + 365 * r + s) / 1460 = 25 * c + q ∨
        (36524 * c + 1461 * q + 365 * r + s) / 1460 = 25 * c + q + 1 ∧ 1 ≤ s := by omega
    rw [hcentury, hera]
    rcases hcycle with hcycle | ⟨hcycle, hlate⟩
    · rw [hcycle]
      omega
    · rw [hcycle]
      omega
  · -- only the last day of an era is left
    obtain ⟨rfl, rfl, rfl, rfl⟩ : c = 3 ∧ q = 24 ∧ r = 3 ∧ s = 365 := by omega
    rfl

theorem Cycles.dayOfYear :
    d - (365 * (100 * c + 4 * q + r) + (100 * c + 4 * q + r) / 4 - (100 * c + 4 * q + r) / 100) =
      s := by
  obtain ⟨rfl, hc, hq, hr, hs, hleap⟩ := h
  omega

/-- The year after has a leap day in February exactly if this one ends with it. -/
theorem Cycles.isLeapYear_iff (era : Int) :
    isLeapYear (era * 400 + (100 * c + 4 * q + r : Nat) + 1) = true ↔ r = 3 ∧ (q = 24 → c = 3) := by
  obtain ⟨-, hc, hq, hr, -, -⟩ := h
  simp only [isLeapYear, Bool.and_eq_true, Bool.or_eq_true, beq_iff_eq, bne_iff_ne]
  omega

end

/-! ### Days and dates -/

/-- The date `ofDays n` in terms of the era of the day `n` and its `Cycles`. -/
theorem exists_eq_ofDays (n : Int) : ∃ (era : Int) (d c q r s : Nat), Cycles d c q r s ∧
    n = 146097 * era + d - 719468 ∧
    ofDays n =
      let m := (5 * s + 2) / 153
      let month := if m < 10 then m + 3 else m - 9
      { year := era * 400 + (100 * c + 4 * q + r : Nat) + (if month ≤ 2 then 1 else 0)
        month := month
        day := s - (153 * m + 2) / 5 + 1 } := by
  have hd : ((n + 719468) % 146097).toNat < 146097 := by omega
  obtain ⟨c, q, r, s, h⟩ := exists_cycles hd
  refine ⟨(n + 719468) / 146097, _, c, q, r, s, h, by omega, ?_⟩
  simp only [ofDays, h.yearOfEra, h.dayOfYear]

/-- The date that is found for a number of days is that many days after 1 January 1970: `(ofDays
n).toDays = n`. -/
theorem toDays_ofDays (n : Int) : (ofDays n).toDays = n := by
  obtain ⟨era, d, c, q, r, s, ⟨hd, hc, hq, hr, hs, hleap⟩, hn, hdate⟩ := exists_eq_ofDays n
  obtain ⟨m, hm⟩ : ∃ m, m = (5 * s + 2) / 153 := ⟨_, rfl⟩
  rw [hdate, ← hm]
  simp only [toDays, daysBeforeYear]
  by_cases hlate : m < 10
  · rw [if_pos hlate, if_neg (by omega), if_neg (by omega), if_neg (by omega)]
    omega
  · rw [if_neg hlate, if_pos (by omega), if_pos (by omega), if_pos (by omega)]
    omega

/-- The date that is found for a number of days is one of the calendar. -/
theorem ofDays_bounds (n : Int) :
    (1 ≤ (ofDays n).month ∧ (ofDays n).month ≤ 12) ∧ 1 ≤ (ofDays n).day ∧
      (ofDays n).day ≤ daysInMonth (ofDays n).year (ofDays n).month := by
  obtain ⟨era, d, c, q, r, s, h, -, hdate⟩ := exists_eq_ofDays n
  have hs := h.day
  obtain ⟨m, hm⟩ : ∃ m, m = (5 * s + 2) / 153 := ⟨_, rfl⟩
  have hm11 : m ≤ 11 := by omega
  rw [hdate, ← hm]
  refine ⟨?_, ?_, ?_⟩
  · dsimp only
    split <;> omega
  · exact Nat.le_add_left 1 _
  · by_cases hfebruary : m = 11
    · subst hfebruary
      have hleap := h.isLeapYear_iff era
      simp only [daysInMonth, show ¬ 11 < 10 by decide, show 11 - 9 ≤ 2 by decide, ↓reduceIte]
      split
      · omega
      · next hcommon =>
        have hne : s ≠ 365 := fun heq => hcommon (hleap.2 (h.leap heq))
        omega
    · -- any other month lasts until the day before the next one begins
      have hend : s < (153 * (m + 1) + 2) / 5 := by omega
      interval_cases m <;> simp [daysInMonth] <;> omega

theorem daysInMonth_le (year : Int) (month : Nat) : daysInMonth year month ≤ 31 := by
  unfold daysInMonth
  split_ifs <;> omega

/-- The years 0 to 9999 begin within the era before the year zero and end within the 25th after it.
-/
theorem days_bounds_of_year_bounds {n : Int} (h0 : 0 ≤ (ofDays n).year)
    (h9 : (ofDays n).year ≤ 9999) :
    -146097 ≤ n + 719468 ∧ n + 719468 < 25 * 146097 := by
  obtain ⟨era, d, c, q, r, s, ⟨hd, hc, hq, hr, hs, hleap⟩, hn, hdate⟩ := exists_eq_ofDays n
  rw [hdate] at h0 h9
  dsimp only at h0 h9
  split at h0 <;> split at h9 <;> omega

end Date

end TriggerFlow
