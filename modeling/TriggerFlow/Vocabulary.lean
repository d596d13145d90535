import TriggerFlow.Json.Record
/-!
# Vocabularies

A vocabulary is a finite type each of whose members is written as one word: trigger types, states,
kinds of nodes.  Reading goes its own way, and so a vocabulary comes with the law that a word is
read as the member that is written so, and nothing else is read (`ofText?_eq_some_iff`).
-/

namespace TriggerFlow

/-- A finite type whose members are written as different words: `all` lists them, `text` writes one
and `ofText?` reads it. -/
class Vocabulary (α : Type) where
  all : List α
  /-- What a member is called in messages (`UnknownWord.message`). -/
  noun : String
  text : α → String
  /-- The member that a word stands for; `ofText?_eq_some_iff` says which. -/
  ofText? : String → Option α
  mem_all : ∀ a, a ∈ all
  ofText?_eq_some_iff {s : String} {a : α} : ofText? s = some a ↔ text a = s

/-- A word that is not in a vocabulary, and the `noun` of its members. -/
structure UnknownWord where
  noun : String
  word : String
deriving DecidableEq

namespace UnknownWord

def message (u : UnknownWord) : String := "Invalid " ++ u.noun ++ ": " ++ u.word

end UnknownWord

namespace Vocabulary

variable {α : Type} [Vocabulary α]

/-- The `text` of all members, in the order of `all`. -/
def words (α : Type) [Vocabulary α] : List String := (all : List α).map text

/-- The member that the word `s` stands for, and else `UnknownWord`. -/
def parse (s : String) : Except UnknownWord α :=
  match ofText? s with
  | some a => .ok a
  | none => .error ⟨noun α, s⟩

/-- Reads a member from `Record.word v`. -/
def ofJson? (v : Json) : Option α := (Record.word v).bind ofText?

def toJson (a : α) : Json := .string (text a)

theorem ofText?_text (a : α) : ofText? (text a) = some a := ofText?_eq_some_iff.2 rfl

theorem text_injective (a b : α) (h : text a = text b) : a = b := by
  have ha := ofText?_text a
  rw [h, ofText?_text] at ha
  exact (Option.some.inj ha).symm

theorem mem_words_iff {word : String} : word ∈ words α ↔ ∃ a : α, text a = word := by
  simp [words, mem_all]

theorem exists_map_eq_iff {value : Option String} :
    (∃ o : Option α, o.map text = value) ↔ ∀ word ∈ value, word ∈ words α := by
  cases value with
  | none => simp
  | some word =>
    simp only [Option.map_eq_some_iff, Option.mem_some, forall_eq', mem_words_iff]
    constructor
    · rintro ⟨-, a, -, hword⟩
      exact ⟨a, hword⟩
    · rintro ⟨a, hword⟩
      exact ⟨some a, a, rfl, hword⟩

end Vocabulary

end TriggerFlow
