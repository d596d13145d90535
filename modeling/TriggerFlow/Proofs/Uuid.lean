import Mathlib.Algebra.Order.Ring.Nat
import TriggerFlow.Uuid
/-!
# Identifiers are told apart by their texts

An identifier is read back from its text (`ofHyphenated?_chars`, `ofText?_text`), so that no two
identifiers share one (`text_injective`).  There is no dot in it (`dot_notMem_chars`), so that it
can be a segment of a path.
-/

namespace TriggerFlow

/-! ### Digits of a given width -/

namespace Number

theorem length_digitsOnto_le {base n k : Nat} (hbase : 2 ≤ base) (hk : 0 < k) (h : n < base ^ k)
    (done : List Char) : (digitsOnto base n done).length ≤ k + done.length := by
  induction k generalizing n done with
  | zero => omega
  | succ k ih =>
    rw [digitsOnto]
    split
    · simp only [List.length_cons]
      omega
    · next hn =>
      -- there is a digit more to write, so that one power less bounds the quotient
      have hpos : 0 < k := by
        rcases Nat.eq_zero_or_pos k with rfl | hpos
        · simp only [Nat.zero_add, Nat.pow_one] at h
          omega
        · exact hpos
      have hquotient : n / base < base ^ k := by
        rw [Nat.div_lt_iff_lt_mul (by omega)]
        rwa [Nat.pow_succ] at h
      have hlength := ih hpos hquotient (digitChar (n % base) :: done)
      rw [List.length_cons] at hlength
      omega

theorem length_digits_le {base n k : Nat} (hbase : 2 ≤ base) (hk : 0 < k) (h : n < base ^ k) :
    (digits base n).length ≤ k := by
  simpa [digits] using length_digitsOnto_le hbase hk h []

theorem length_padded {base n k : Nat} (hbase : 2 ≤ base) (hk : 0 < k) (h : n < base ^ k) :
    (padded base k n).length = k := by
  have hdigits := length_digits_le hbase hk h
  simp only [padded, List.length_append, List.length_replicate]
  omega

theorem valueFrom_zeros {base : Nat} (hbase : 2 ≤ base) (k : Nat) (cs : List Char) :
    valueFrom base 0 (List.replicate k '0' ++ cs) = valueFrom base 0 cs := by
  have hzero : digitOf? '0' = some 0 := by decide
  induction k with
  | zero => rfl
  | succ k ih =>
    rw [List.replicate_succ, List.cons_append, valueFrom, hzero]
    dsimp only
    rw [if_pos (by omega), Nat.zero_mul, Nat.zero_add, ih]

/-- Zeros on the left do not change the `value` of digits. -/
theorem value_padded {base : Nat} (hbase : 2 ≤ base) (h36 : base ≤ 36) (width n : Nat) :
    value base (padded base width n) = some n := by
  rw [value, padded, valueFrom_zeros hbase]
  exact value_digits base n hbase h36

theorem forall_mem_digitsOnto {base : Nat} {p : Char → Prop} (hbase : 2 ≤ base)
    (hdigit : ∀ d < base, p (digitChar d)) (n : Nat) {done : List Char} (hdone : ∀ c ∈ done, p c) :
    ∀ c ∈ digitsOnto base n done, p c := by
  induction n using Nat.strongRecOn generalizing done with
  | _ n ih =>
    rw [digitsOnto]
    split
    · next hn =>
      exact List.forall_mem_cons.2 ⟨hdigit n (by omega), hdone⟩
    · next hn =>
      have hmod : n % base < base := Nat.mod_lt n (by omega)
      exact ih (n / base) (Nat.div_lt_self (by omega) (by omega))
        (List.forall_mem_cons.2 ⟨hdigit _ hmod, hdone⟩)

/-- Whatever holds of the digits of a base holds of the characters of a padded number. -/
theorem forall_mem_padded {base : Nat} {p : Char → Prop} (hbase : 2 ≤ base)
    (hdigit : ∀ d < base, p (digitChar d)) (width n : Nat) : ∀ c ∈ padded base width n, p c := by
  intro c hc
  rcases List.mem_append.1 hc with hzero | hdigits
  · rw [List.eq_of_mem_replicate hzero]
    exact hdigit 0 (by omega)
  · exact forall_mem_digitsOnto hbase hdigit n (by simp) c hdigits

end Number

/-! ### Identifiers -/

namespace Uuid

open Number

theorem unhyphenate?_hyphenate {n : Nat} {ns : List Nat} {ds : List Char}
    (h : ds.length = (n :: ns).sum) :
    unhyphenate? (n :: ns) (hyphenate (n :: ns) ds) = some ds := by
  induction ns generalizing n ds with
  | nil =>
    have hn : ds.length = n := by simpa using h
    rw [hyphenate, unhyphenate?, List.take_of_length_le (Nat.le_of_eq hn), if_pos hn]
  | cons m ns ih =>
    rw [List.sum_cons] at h
    have htake : (ds.take n).length = n := by
      rw [List.length_take]
      omega
    have hdrop : (ds.drop n).length = (m :: ns).sum := by
      rw [List.length_drop]
      omega
    have hread := ih hdrop
    have hwritten : hyphenate (n :: m :: ns) ds =
        ds.take n ++ '-' :: hyphenate (m :: ns) (ds.drop n) := by
      rw [hyphenate]
      simp
    rw [hwritten, unhyphenate?, List.drop_left' htake]
    · simp [hread, List.take_left' htake]
    · simp

/-- The reader `ofHyphenated?` undoes `chars`. -/
theorem ofHyphenated?_chars (u : Uuid) : ofHyphenated? u.chars = some u := by
  have hlt : u.toNat < 16 ^ 32 := u.toNat_lt
  have hlength : (padded 16 32 u.toNat).length = 32 :=
    length_padded (by decide) (by decide) hlt
  rw [ofHyphenated?, chars, groups, unhyphenate?_hyphenate hlength, Option.bind_some, ofDigits?,
    if_pos hlength, value_padded (by decide) (by decide), Option.bind_some, dif_pos u.toNat_lt]

theorem text_injective {a b : Uuid} (h : a.text = b.text) : a = b := by
  have hchars : a.chars = b.chars := String.ofList_injective h
  have hread := congrArg ofHyphenated? hchars
  rw [ofHyphenated?_chars, ofHyphenated?_chars] at hread
  exact Option.some.inj hread

theorem forall_mem_hyphenate {p : Char → Prop} (hyphen : p '-') {ns : List Nat} {ds : List Char}
    (h : ∀ c ∈ ds, p c) : ∀ c ∈ hyphenate ns ds, p c := by
  induction ns generalizing ds with
  | nil => simp [hyphenate]
  | cons n ns ih =>
    have htake : ∀ c ∈ ds.take n, p c := fun c hc => h c (List.mem_of_mem_take hc)
    have hdrop : ∀ c ∈ ds.drop n, p c := fun c hc => h c (List.mem_of_mem_drop hc)
    cases ns with
    | nil => exact htake
    | cons m ns =>
      intro c hc
      rcases List.mem_append.mp hc with hfirst | hrest
      · exact htake c hfirst
      · exact List.forall_mem_cons.mpr ⟨hyphen, ih hdrop⟩ c hrest

theorem dot_notMem_chars (u : Uuid) : '.' ∉ u.chars := by
  have hdigit : ∀ d : Fin 16, Number.digitChar d ≠ '.' := by decide
  have hpadded : ∀ c ∈ Number.padded 16 32 u.toNat, c ≠ '.' :=
    Number.forall_mem_padded (by decide) (fun d hd => hdigit ⟨d, hd⟩) 32 u.toNat
  exact fun h => forall_mem_hyphenate (by decide) hpadded _ h rfl

theorem length_hyphenate {n : Nat} {ns : List Nat} {ds : List Char}
    (h : ds.length = (n :: ns).sum) :
    (hyphenate (n :: ns) ds).length = (n :: ns).sum + ns.length := by
  induction ns generalizing n ds with
  | nil =>
    have hn : ds.length = n := by simpa using h
    simp [hyphenate, hn]
  | cons m ns ih =>
    rw [List.sum_cons] at h ⊢
    have hdrop : (ds.drop n).length = (m :: ns).sum := by
      rw [List.length_drop]
      omega
    have hrest := ih hdrop
    simp only [hyphenate, List.length_append, List.length_cons, List.length_take, hrest]
    omega

/-- An identifier begins with a digit, which neither a brace nor a URN does. -/
theorem exists_chars_eq_cons (u : Uuid) :
    ∃ d rest, d < 16 ∧ u.chars = digitChar d :: rest := by
  have hlength : (padded 16 32 u.toNat).length = 32 :=
    length_padded (by decide) (by decide) u.toNat_lt
  have hall : ∀ c ∈ padded 16 32 u.toNat, ∃ d < 16, c = digitChar d :=
    forall_mem_padded (by decide) (fun d hd => ⟨d, hd, rfl⟩) 32 u.toNat
  cases hdigits : padded 16 32 u.toNat with
  | nil => simp [hdigits] at hlength
  | cons c cs =>
    rw [hdigits] at hall
    obtain ⟨d, hd, hc⟩ := hall c List.mem_cons_self
    refine ⟨d, cs.take 7 ++ '-' :: hyphenate [4, 4, 4, 12] (cs.drop 7), hd, ?_⟩
    rw [chars, hdigits, groups, hyphenate, hc]
    · rfl
    · simp

/-- An identifier is read back from its text among all the forms in which one may be written. -/
theorem ofText?_text (u : Uuid) : ofText? u.text = some u := by
  have hlength : u.chars.length = 36 := @length_hyphenate 8 [4, 4, 4, 12] _
    (length_padded (by decide) (by decide) u.toNat_lt)
  obtain ⟨d, rest, hd, hchars⟩ := exists_chars_eq_cons u
  have hplain : u.chars.length ≠ 32 := by omega
  have hdigit : ∀ d : Fin 16, (digitChar d).toLower ≠ 'u' ∧ digitChar d ≠ '\x7b' := by decide
  have hurn : (u.chars.take urnScheme.length).map Char.toLower ≠ urnScheme := by
    rw [hchars]
    intro heq
    exact (hdigit ⟨d, hd⟩).1 (List.cons.inj heq).1
  rw [ofText?, text, String.toList_ofList, ofChars?, if_neg hplain, if_neg hurn]
  · exact ofHyphenated?_chars u
  · intro _ heq
    rw [hchars] at heq
    exact (hdigit ⟨d, hd⟩).2 (List.cons.inj heq).1

theorem ofJson?_toJson (u : Uuid) : ofJson? u.toJson = some u := ofText?_text u

end Uuid

end TriggerFlow
