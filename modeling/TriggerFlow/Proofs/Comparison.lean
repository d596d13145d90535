import TriggerFlow.Condition
import TriggerFlow.Proofs.Json.Equality
/-!
# Laws of comparison

`Json.looseEq` is reflexive and symmetric, and `b.looseCompare a` is `a.looseCompare b` turned.  The
two are computed apart from each other, and they agree but in one case: two strings are equal only
if they are the same, and yet they are ordered as numbers if both spell one, so that two spellings
of one number (`TwoSpellings`) are neither equal nor one of them greater
(`looseCompare_eq_some_eq_iff`).  From these come the laws of the operators that conditions use,
`operators_are_lawful` and `order_matches_equality`.

Every comparison that is defined is one of two numbers or one of two texts
(`looseCompare_eq_some_iff`), and the laws of the order go by these two cases.
-/

namespace TriggerFlow

/-! ### Numbers -/

/-- Rounding a fraction gives a number. -/
theorem Double.isNaN_ofFraction (negative : Bool) (num den : Nat) :
    (ofFraction negative num den).isNaN = false :=
  decide_eq_false (Nat.not_lt.mpr (nearest_le num den))

theorem JsonNumber.isNaN_toDouble (n : JsonNumber) : n.toDouble.isNaN = false := by
  cases n with
  | int i => exact Double.isNaN_ofFraction _ _ _
  | double d => exact d.isNaN_eq_false

namespace Json

variable {a b : Json} {x y : Double} {o : Ordering}

/-! ### Equality -/

@[simp] theorem looseEq_null_left (v : Json) : looseEq null v = v.isBlank := rfl

@[simp] theorem looseEq_null_right (v : Json) : looseEq v null = v.isBlank := by
  cases v <;> rfl

@[simp] theorem looseEq_bool_left (b : Bool) (v : Json) :
    looseEq (bool b) v = (b == !v.isBlank) := by
  cases v with
  | null => cases b <;> rfl
  | _ => rfl

@[simp] theorem looseEq_bool_right (b : Bool) (v : Json) :
    looseEq v (bool b) = (b == !v.isBlank) := by
  cases v with
  | null => cases b <;> rfl
  | bool c => cases b <;> cases c <;> rfl
  | _ => rfl

theorem equalAsNumbers_comm (a b : Json) : equalAsNumbers a b = equalAsNumbers b a := by
  unfold equalAsNumbers
  cases a.toNumber with
  | none => cases b.toNumber <;> exact Bool.beq_comm
  | some x =>
    cases b.toNumber with
    | none => exact Bool.beq_comm
    | some y => exact x.equal_comm y

theorem looseEq_comm (a b : Json) : looseEq a b = looseEq b a := by
  cases a with
  | null => rw [looseEq_null_left, looseEq_null_right]
  | bool x => rw [looseEq_bool_left, looseEq_bool_right]
  | number m =>
    -- a number and a string are compared as numbers in either order; all else is equality
    cases b with
    | null => rw [looseEq_null_left, looseEq_null_right]
    | bool y => rw [looseEq_bool_left, looseEq_bool_right]
    | number n => exact Double.equal_comm _ _
    | string t => exact equalAsNumbers_comm _ _
    | _ => rfl
  | string s =>
    cases b with
    | null => rw [looseEq_null_left, looseEq_null_right]
    | bool y => rw [looseEq_bool_left, looseEq_bool_right]
    | number n => exact equalAsNumbers_comm _ _
    | _ => exact equal_comm _ _
  | array vs =>
    cases b with
    | null => rw [looseEq_null_left, looseEq_null_right]
    | bool y => rw [looseEq_bool_left, looseEq_bool_right]
    | _ => exact equal_comm _ _
  | object fs =>
    cases b with
    | null => rw [looseEq_null_left, looseEq_null_right]
    | bool y => rw [looseEq_bool_left, looseEq_bool_right]
    | _ => exact equal_comm _ _

theorem looseEq_self (a : Json) : looseEq a a = true := by
  cases a with
  | null => rfl
  | bool x => cases x <;> rfl
  | number n =>
    change n.toDouble.equal n.toDouble = true
    rw [Double.equal_self, n.isNaN_toDouble, Bool.not_false]
  | string s => exact equal_self _
  | array vs => exact equal_self _
  | object fs => exact equal_self _

theorem looseEq_string_iff {s t : String} : looseEq (string s) (string t) = true ↔ s = t :=
  beq_iff_eq

/-- Where not both are strings, values that both stand for numbers are `looseEq` as these are
`equal`. -/
theorem looseEq_of_numbers (ha : a.toNumber = some x) (hb : b.toNumber = some y)
    (h : ∀ s t, a = string s → b ≠ string t) : looseEq a b = x.equal y := by
  cases a with
  | number m =>
    obtain rfl := Option.some.inj ha
    cases b with
    | number n =>
      obtain rfl := Option.some.inj hb
      rfl
    | string t =>
      change equalAsNumbers (number m) (string t) = _
      rw [equalAsNumbers, ha, hb]
    | _ => simp [toNumber] at hb
  | string s =>
    cases b with
    | number n =>
      change equalAsNumbers (string s) (number n) = _
      rw [equalAsNumbers, ha, hb]
    | string t => exact absurd rfl (h s t rfl)
    | _ => simp [toNumber] at hb
  | _ => simp [toNumber] at ha

/-! ### Order -/

theorem compareText_swap (s t : String) : compareText t s = (compareText s t).swap := by
  change compare t s = (compare s t).swap
  exact Std.OrientedOrd.eq_swap

theorem compareText_eq_iff {s t : String} : compareText s t = .eq ↔ s = t := by
  change compare s t = .eq ↔ s = t
  exact Std.compare_eq_iff_eq

theorem looseCompare_of_numbers (ha : a.toNumber = some x) (hb : b.toNumber = some y) :
    looseCompare a b = x.compare? y := by
  unfold looseCompare
  rw [ha, hb]

theorem looseCompare_of_texts (h : a.toNumber = none ∨ b.toNumber = none) :
    looseCompare a b = some o ↔
      ∃ s t, a = string s ∧ b = string t ∧ compareText s t = o := by
  unfold looseCompare
  split
  · next ha hb => simp [ha, hb] at h
  · split
    · next s t => simp
    · next hother =>
      simp only [reduceCtorEq, false_iff]
      rintro ⟨s, t, rfl, rfl, -⟩
      exact hother s t rfl rfl

/-- What `looseCompare` compares are the numbers of `toNumber` where both values have one, and else
two strings as texts. -/
theorem looseCompare_eq_some_iff :
    looseCompare a b = some o ↔
      (∃ x y, a.toNumber = some x ∧ b.toNumber = some y ∧ x.compare? y = some o) ∨
      ((a.toNumber = none ∨ b.toNumber = none) ∧
        ∃ s t, a = string s ∧ b = string t ∧ compareText s t = o) := by
  cases ha : a.toNumber with
  | none =>
    rw [looseCompare_of_texts (.inl ha)]
    simp
  | some x =>
    cases hb : b.toNumber with
    | none =>
      rw [looseCompare_of_texts (.inr hb)]
      simp
    | some y =>
      rw [looseCompare_of_numbers ha hb]
      simp

theorem looseCompare_turned (h : looseCompare a b = some o) :
    looseCompare b a = some o.swap := by
  rcases looseCompare_eq_some_iff.mp h with ⟨x, y, ha, hb, hcompare⟩ | ⟨hnone, s, t, rfl, rfl, rfl⟩
  · refine looseCompare_eq_some_iff.mpr (.inl ⟨y, x, hb, ha, ?_⟩)
    rw [Double.compare?_swap x y, hcompare, Option.map_some]
  · exact looseCompare_eq_some_iff.mpr
      (.inr ⟨hnone.symm, t, s, rfl, rfl, compareText_swap s t⟩)

theorem looseCompare_swap (a b : Json) :
    looseCompare b a = (looseCompare a b).map Ordering.swap := by
  cases h : looseCompare a b with
  | some o => exact looseCompare_turned h
  | none =>
    cases h' : looseCompare b a with
    | none => rfl
    | some o =>
      rw [looseCompare_turned h'] at h
      cases h

/-! ### Order and equality -/

/-- Two strings that differ and spell the same number. -/
def TwoSpellings (a b : Json) : Prop :=
  ∃ s t x y, a = string s ∧ b = string t ∧ s ≠ t ∧
    a.toNumber = some x ∧ b.toNumber = some y ∧ x.equal y = true

theorem TwoSpellings.looseEq (h : TwoSpellings a b) : looseEq a b = false := by
  obtain ⟨s, t, x, y, rfl, rfl, hne, -⟩ := h
  exact Bool.eq_false_iff.mpr fun heq => hne (looseEq_string_iff.mp heq)

/-- Where `looseCompare` is defined, it is `.eq` exactly if the values are `looseEq` or
`TwoSpellings` of one number. -/
theorem looseCompare_eq_some_eq_iff (defined : (looseCompare a b).isSome = true) :
    looseCompare a b = some .eq ↔ looseEq a b = true ∨ TwoSpellings a b := by
  obtain ⟨o, hcompare⟩ := Option.isSome_iff_exists.mp defined
  rcases looseCompare_eq_some_iff.mp hcompare with
    ⟨x, y, ha, hb, hnumbers⟩ | ⟨hnone, s, t, rfl, rfl, htexts⟩
  · -- both are numbers, and only two strings may spell one number in two ways
    rw [hcompare, ← hnumbers, Double.compare?_eq_some_eq_iff]
    by_cases hstrings : ∃ s t, a = string s ∧ b = string t
    · obtain ⟨s, t, rfl, rfl⟩ := hstrings
      rw [looseEq_string_iff]
      constructor
      · intro hequal
        by_cases hst : s = t
        · exact .inl hst
        · exact .inr ⟨s, t, x, y, rfl, rfl, hst, ha, hb, hequal⟩
      · rintro (rfl | ⟨s', t', x', y', -, -, -, ha', hb', hequal⟩)
        · -- a string that is compared with itself spells a number
          obtain rfl := Option.some.inj (ha.symm.trans hb)
          have hnumber := ((Double.compare?_isSome_iff x x).mp (by rw [hnumbers]; rfl)).1
          rw [Double.equal_self, hnumber, Bool.not_false]
        · obtain rfl := Option.some.inj (ha.symm.trans ha')
          obtain rfl := Option.some.inj (hb.symm.trans hb')
          exact hequal
    · rw [looseEq_of_numbers ha hb fun s t hs ht => hstrings ⟨s, t, hs, ht⟩]
      refine (or_iff_left ?_).symm
      rintro ⟨s, t, -, -, hs, ht, -⟩
      exact hstrings ⟨s, t, hs, ht⟩
  · -- two strings of which one is no number are compared as texts
    rw [hcompare, Option.some.injEq, ← htexts, compareText_eq_iff, looseEq_string_iff]
    refine (or_iff_left ?_).symm
    rintro ⟨s', t', x, y, -, -, -, ha, hb, -⟩
    rcases hnone with hnone | hnone
    · rw [ha] at hnone
      cases hnone
    · rw [hb] at hnone
      cases hnone

end Json

/-! ### Operators -/

namespace Operator

variable {a b : Json} {o : Ordering}

/-- The three operators by which one value can stand to another. -/
def comparisons : List Operator := [equals, greaterThan, lessThan]

/-- The `comparisons` that hold of `a` and `b`. -/
def holding (a b : Json) : List Operator := comparisons.filter fun o => o.apply a b

theorem holding_of_none (h : a.looseCompare b = none) :
    holding a b = if a.looseEq b then [equals] else [] := by
  simp [holding, comparisons, List.filter_cons, apply, h]

theorem holding_of_some (h : a.looseCompare b = some o) :
    holding a b =
      (if a.looseEq b then [equals] else []) ++ match o with
        | .lt => [lessThan]
        | .eq => []
        | .gt => [greaterThan] := by
  cases o <;> cases heq : a.looseEq b <;> simp [holding, comparisons, apply, h, heq]

/-- Where values are `looseEq` and `looseCompare` is defined, it is `.eq`. -/
theorem eq_of_looseEq (heq : a.looseEq b = true) (h : a.looseCompare b = some o) : o = .eq := by
  have hsame := (Json.looseCompare_eq_some_eq_iff (by rw [h]; rfl)).mpr (.inl heq)
  exact Option.some.inj (h.symm.trans hsame)

theorem length_holding_le (a b : Json) : (holding a b).length ≤ 1 := by
  cases h : a.looseCompare b with
  | none =>
    rw [holding_of_none h]
    split <;> simp
  | some o =>
    rw [holding_of_some h]
    cases heq : a.looseEq b with
    | true =>
      obtain rfl := eq_of_looseEq heq h
      simp
    | false => cases o <;> simp

/-- The operators obey these laws for all values: `equals` is reflexive and symmetric;
`looseCompare` turns when its arguments do, so that `greaterThan` is `lessThan` the other way round;
at most one of the `comparisons` holds; and `isEmpty` holds exactly if a value `equals` null,
exactly if it `equals` false, and exactly if it does not equal true. -/
theorem operators_are_lawful (a b : Json) :
    (equals.apply a a = true ∧ equals.apply a b = equals.apply b a) ∧
    (b.looseCompare a = (a.looseCompare b).map Ordering.swap ∧
      greaterThan.apply a b = lessThan.apply b a) ∧
    (holding a b).length ≤ 1 ∧
    isEmpty.apply a b = equals.apply a .null ∧
    isEmpty.apply a b = equals.apply a (.bool false) ∧
    isEmpty.apply a b = notEquals.apply a (.bool true) := by
  refine ⟨⟨Json.looseEq_self a, Json.looseEq_comm a b⟩, ⟨Json.looseCompare_swap a b, ?_⟩,
    length_holding_le a b, ?_, ?_, ?_⟩
  · rw [apply, apply, Json.looseCompare_swap a b]
    cases a.looseCompare b with
    | none => rfl
    | some o => cases o <;> rfl
  · exact (Json.looseEq_null_right a).symm
  · change a.isBlank = a.looseEq (.bool false)
    rw [Json.looseEq_bool_right]
    cases a.isBlank <;> rfl
  · change a.isBlank = !a.looseEq (.bool true)
    rw [Json.looseEq_bool_right]
    cases a.isBlank <;> rfl

/-- Where `looseCompare` is defined and the values are not `TwoSpellings` of one number, it is `.eq`
exactly if they are `looseEq`, and exactly one of the `comparisons` holds.  Of two spellings it is
`.eq`, they are not `looseEq`, and no comparison holds. -/
theorem order_matches_equality (a b : Json) (defined : (a.looseCompare b).isSome = true) :
    (¬ Json.TwoSpellings a b →
      (a.looseCompare b = some .eq ↔ a.looseEq b = true) ∧ (holding a b).length = 1) ∧
    (Json.TwoSpellings a b →
      a.looseCompare b = some .eq ∧ a.looseEq b = false ∧ holding a b = []) := by
  have hsame := Json.looseCompare_eq_some_eq_iff defined
  constructor
  · intro hspellings
    rw [or_iff_left hspellings] at hsame
    refine ⟨hsame, ?_⟩
    obtain ⟨o, h⟩ := Option.isSome_iff_exists.mp defined
    rw [holding_of_some h]
    -- equal values leave `=` alone, and others the one operator that `o` decides
    cases heq : a.looseEq b with
    | true =>
      obtain rfl := eq_of_looseEq heq h
      rfl
    | false =>
      cases o with
      | eq => simp [hsame.mp h] at heq
      | _ => rfl
  · intro hspellings
    have horder := hsame.mpr (.inr hspellings)
    have hequality := hspellings.looseEq
    refine ⟨horder, hequality, ?_⟩
    rw [holding_of_some horder, hequality]
    rfl

theorem twoSpellings_five : Json.TwoSpellings (.string "5") (.string "5.0") :=
  ⟨"5", "5.0", .ofInt 5, .ofInt 5, rfl, rfl, by decide, by decide +kernel, by decide +kernel,
    by decide +kernel⟩

/-- The number 5 and the string `" 5e0 "` stand to each other by `equals`; the strings `"5"` and
`"5.0"` are the same in order, and no comparison holds of them. -/
theorem five_matches_text :
    ((Json.number (.int 5)).looseCompare (.string " 5e0 ") = some .eq ∧
      holding (.number (.int 5)) (.string " 5e0 ") = [equals]) ∧
    (Json.string "5").looseCompare (.string "5.0") = some .eq ∧
      holding (.string "5") (.string "5.0") = [] := by
  constructor
  · have defined : ((Json.number (.int 5)).looseCompare (.string " 5e0 ")).isSome = true := by
      decide +kernel
    have hspellings : ¬ Json.TwoSpellings (.number (.int 5)) (.string " 5e0 ") := by
      rintro ⟨s, t, x, y, hs, -⟩
      cases hs
    obtain ⟨hsame, -⟩ := (order_matches_equality _ _ defined).1 hspellings
    have hequal : (Json.number (.int 5)).looseEq (.string " 5e0 ") = true := by decide +kernel
    have horder := hsame.mpr hequal
    rw [holding_of_some horder, hequal]
    exact ⟨horder, rfl⟩
  · have defined : ((Json.string "5").looseCompare (.string "5.0")).isSome = true := by
      decide +kernel
    obtain ⟨horder, -, hholding⟩ := (order_matches_equality _ _ defined).2 twoSpellings_five
    exact ⟨horder, hholding⟩

/-- The strings `"5"` and `"5.0"` are the same in order, but they are not equal. -/
theorem five_spelled_twice :
    ((Json.string "5").looseCompare (.string "5.0")).isSome = true ∧
    ¬ ((Json.string "5").looseCompare (.string "5.0") = some .eq ↔
      (Json.string "5").looseEq (.string "5.0") = true) ∧
    holding (.string "5") (.string "5.0") = [] := by
  decide +kernel

end Operator

end TriggerFlow
