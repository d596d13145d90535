import Mathlib.Logic.ExistsUnique
import TriggerFlow.Template
/-!
# The grammar of templates

A template is cut into pieces, each a literal text with a placeholder after it, and a tail
(`Template.Decomposition`).  The cut is right if each pair of marks that opens or closes a
placeholder is the first one there could be, and if there is no placeholder in the tail.  Every
template has exactly one such cut, and it is rendered by putting values into the pieces of this cut
(`render_follows_grammar`).  What is put in is therefore not looked at again, and marks that are
never closed stay in the tail as they are.

Both ways of reading a text come down to two equations of `Template.parse`, one for a piece in front
(`parse_piece`) and one for the tail (`parse_tail`).
-/

namespace TriggerFlow.Template

/-! ### Pairs of marks -/

/-- A text that a pair of marks can follow so that the pair is the first: there is no pair in it,
and no mark at its end. -/
structure Unmarked (mark : Char) (text : List Char) : Prop where
  noPair : ¬ [mark, mark] <:+: text
  noEnd : ¬ [mark] <:+ text

variable {mark : Char} {chars before after : List Char}

theorem unmarked_iff : Unmarked mark chars ↔ ¬ [mark, mark] <:+: chars ++ [mark] := by
  have hend : [mark, mark] <:+ chars ++ [mark] ↔ [mark] <:+ chars :=
    @List.suffix_append_self_iff _ [mark] chars [mark]
  rw [List.infix_concat_iff, hend, not_or, and_comm]
  exact ⟨fun h => ⟨h.noPair, h.noEnd⟩, fun h => ⟨h.1, h.2⟩⟩

/-- The search `breakOn` cuts a text at its first pair of marks: what is before it is `Unmarked`. -/
theorem breakOn_pair_iff :
    Text.breakOn [mark, mark] chars = some (before, after) ↔
      chars = before ++ [mark, mark] ++ after ∧ Unmarked mark before := by
  rw [Text.breakOn_eq_some_iff (List.cons_ne_nil _ _), unmarked_iff]
  rfl

/-! ### Decompositions -/

/-- A literal text with a placeholder after it. -/
@[ext]
structure Piece where
  literal : List Char
  path : List Char
deriving DecidableEq

/-- A template in pieces, with what comes after the last of them. -/
structure Decomposition where
  pieces : List Piece
  tail : List Char
deriving DecidableEq

/-- The text of a piece, marks included. -/
def Piece.text (p : Piece) : List Char := p.literal ++ opening ++ p.path ++ closing

/-- The marks of a piece are the first ones there could be. -/
structure Piece.Proper (p : Piece) : Prop where
  literal : Unmarked '\x7b' p.literal
  path : Unmarked '\x7d' p.path

/-- There is no placeholder in a text: no marks open one, or none come after the first of those that
could close it. -/
def Unclosed (text : List Char) : Prop :=
  ¬ opening <:+: text ∨
    ∃ before after, text = before ++ opening ++ after ∧ Unmarked '\x7b' before ∧
      ¬ closing <:+: after

namespace Decomposition

/-- The template that is decomposed. -/
def text (d : Decomposition) : List Char := d.pieces.flatMap Piece.text ++ d.tail

/-- The template is `d.text`, cut at proper pieces, with no placeholder in the tail. -/
structure Splits (d : Decomposition) (template : List Char) : Prop where
  text_eq : d.text = template
  proper : ∀ p ∈ d.pieces, p.Proper
  unclosed : Unclosed d.tail

/-- What `parse` gives for a decomposition: the literals and placeholders of the pieces, in order,
and the tail. -/
def parts (d : Decomposition) : List Part :=
  d.pieces.flatMap (fun p => [.literal p.literal, .placeholder p.path]) ++ [.literal d.tail]

end Decomposition

/-- What a path stands for: the text of the value at the path, without white space around it, or
nothing if there is none. -/
def value (context : Fields) (path : List Char) : List Char :=
  match Path.lookup context (Text.trim (String.ofList path)) with
  | some v => v.text.toList
  | none => []

/-- The pieces with a `value` in the place of each placeholder, and the tail. -/
def Decomposition.fill (context : Fields) (d : Decomposition) : List Char :=
  d.pieces.flatMap (fun p => p.literal ++ value context p.path) ++ d.tail

/-! ### What is parsed -/

variable {p : Piece} {rest tail template : List Char} {d d' : Decomposition}

theorem parse_piece (hp : p.Proper) (rest : List Char) :
    parse (p.text ++ rest) = .literal p.literal :: .placeholder p.path :: parse rest := by
  have hopen : Text.breakOn opening (p.text ++ rest) =
      some (p.literal, p.path ++ closing ++ rest) := by
    refine breakOn_pair_iff.mpr ⟨?_, hp.literal⟩
    simp only [Piece.text, opening, List.append_assoc]
  have hclose : Text.breakOn closing (p.path ++ closing ++ rest) = some (p.path, rest) :=
    breakOn_pair_iff.mpr ⟨rfl, hp.path⟩
  rw [parse]
  split
  · next hnone => cases hopen.symm.trans hnone
  · next hsome =>
    cases hopen.symm.trans hsome
    split
    · next hnone => cases hclose.symm.trans hnone
    · next hsome =>
      cases hclose.symm.trans hsome
      rfl

theorem Unclosed.breakOn_closing (h : Unclosed tail)
    (hopen : Text.breakOn opening tail = some (before, after)) :
    Text.breakOn closing after = none := by
  rcases h with hnone | ⟨before', after', rfl, hbefore, hclose⟩
  · rw [← Text.breakOn_eq_none_iff, hopen] at hnone
    cases hnone
  · cases hopen.symm.trans (breakOn_pair_iff.mpr ⟨rfl, hbefore⟩)
    exact Text.breakOn_eq_none_iff.mpr hclose

theorem parse_tail (h : Unclosed tail) : parse tail = [.literal tail] := by
  rw [parse]
  split
  · rfl
  · next hopen =>
    split
    · rfl
    · next hclose => cases hclose.symm.trans (h.breakOn_closing hopen)

/-! ### What decompositions say -/

theorem render_placeholder (context : Fields) (path : List Char) :
    Part.render context (.placeholder path) = value context path := by
  have hlookup : Path.lookup context (Text.trim (String.ofList path)) =
      Path.lookupChars context (Text.trimChars path) := by
    rw [Path.lookup, Text.trim, String.toList_ofList, String.toList_ofList]
  rw [value, hlookup]
  rfl

namespace Decomposition

variable {ps : List Piece}

theorem text_cons : text ⟨p :: ps, tail⟩ = p.text ++ text ⟨ps, tail⟩ := by
  rw [text, text, List.flatMap_cons, List.append_assoc]

theorem parts_cons :
    parts ⟨p :: ps, tail⟩ = .literal p.literal :: .placeholder p.path :: parts ⟨ps, tail⟩ :=
  rfl

theorem Splits.parse_eq (h : d.Splits template) : parse template = d.parts := by
  obtain ⟨pieces, tail⟩ := d
  obtain ⟨rfl, proper, unclosed⟩ := h
  induction pieces with
  | nil => exact parse_tail unclosed
  | cons p ps ih =>
    obtain ⟨hp, hps⟩ := List.forall_mem_cons.mp proper
    rw [text_cons, parse_piece hp, ih hps unclosed, parts_cons]

theorem parts_injective (h : d.parts = d'.parts) : d = d' := by
  obtain ⟨pieces, tail⟩ := d
  obtain ⟨pieces', tail'⟩ := d'
  induction pieces generalizing pieces' with
  | nil =>
    cases pieces' with
    | nil => simpa [parts] using h
    | cons p' ps' => simp [parts] at h
  | cons p ps ih =>
    cases pieces' with
    | nil => simp [parts] at h
    | cons p' ps' =>
      simp only [parts_cons, List.cons.injEq, Part.literal.injEq, Part.placeholder.injEq] at h
      obtain ⟨hliteral, hpath, hrest⟩ := h
      obtain ⟨rfl, rfl⟩ := Decomposition.mk.inj (ih ps' hrest)
      rw [Piece.ext hliteral hpath]

theorem flatMap_render_parts (context : Fields) (d : Decomposition) :
    d.parts.flatMap (Part.render context) = d.fill context := by
  have hpiece : ∀ p : Piece, [Part.literal p.literal, .placeholder p.path].flatMap
      (Part.render context) = p.literal ++ value context p.path := fun p => by
    rw [List.flatMap_cons, List.flatMap_singleton, Part.render, render_placeholder]
  rw [parts, fill, List.flatMap_append, List.flatMap_assoc, List.flatMap_singleton, Part.render]
  simp only [hpiece]

theorem Splits.render_eq {template : String} (h : d.Splits template.toList) (context : Fields) :
    render template context = String.ofList (d.fill context) := by
  rw [render, h.parse_eq, flatMap_render_parts]

end Decomposition

/-! ### What is rendered -/

theorem exists_splits (template : List Char) : ∃ d : Decomposition, d.Splits template := by
  fun_induction parse template with
  | case1 template hnone =>
    exact ⟨⟨[], template⟩, rfl, by simp, .inl (Text.breakOn_eq_none_iff.mp hnone)⟩
  | case2 template before after hopen hnone =>
    obtain ⟨rfl, hbefore⟩ := breakOn_pair_iff.mp hopen
    refine ⟨⟨[], _⟩, rfl, by simp, .inr ⟨before, after, rfl, hbefore, ?_⟩⟩
    exact Text.breakOn_eq_none_iff.mp hnone
  | case3 template before after hopen path rest hclose ih =>
    obtain ⟨rfl, hbefore⟩ := breakOn_pair_iff.mp hopen
    obtain ⟨rfl, hpath⟩ := breakOn_pair_iff.mp hclose
    obtain ⟨⟨pieces, tail⟩, rfl, proper, unclosed⟩ := ih
    refine ⟨⟨⟨before, path⟩ :: pieces, tail⟩, ?_, ?_, unclosed⟩
    · simp only [Decomposition.text_cons, Piece.text, opening, closing, List.append_assoc]
    · exact List.forall_mem_cons.mpr ⟨⟨hbefore, hpath⟩, proper⟩

/-- Every template has exactly one decomposition that `Splits` it, and for every context `render`
fills the pieces of this one. -/
theorem render_follows_grammar (template : String) :
    (∃! d : Decomposition, d.Splits template.toList) ∧
    ∀ d : Decomposition, d.Splits template.toList →
      ∀ context, render template context = String.ofList (d.fill context) := by
  constructor
  · obtain ⟨d, hd⟩ := exists_splits template.toList
    exact ⟨d, hd, fun d' hd' => Decomposition.parts_injective (hd'.parse_eq.symm.trans hd.parse_eq)⟩
  · exact fun d hd context => hd.render_eq context

end TriggerFlow.Template
