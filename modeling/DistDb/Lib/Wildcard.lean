import Mathlib

/-! # Wildcard patterns

A token of a pattern is a class of characters, or stands for any sequence. A text matches if it can be split into
pieces, one for each token in turn. -/

namespace DistDb.Lib.Wildcard

variable {α : Type} {token : Option (α → Bool)} {pattern segment : List (Option (α → Bool))} {text suffix : List α}
  {p : α → Bool}

/-- A test covers one element that passes it, a wildcard any piece. -/
def Covers : Option (α → Bool) → List α → Prop
  | some p, piece => ∃ a, piece = [a] ∧ p a = true
  | none, _ => True

/-- The text splits into pieces that the pattern covers one by one. -/
def Matches (pattern : List (Option (α → Bool))) (text : List α) : Prop :=
  ∃ pieces : List (List α), pieces.flatten = text ∧ List.Forall₂ Covers pattern pieces

@[simp] theorem matches_nil_iff : Matches ([] : List (Option (α → Bool))) text ↔ text = [] := by
  constructor
  · rintro ⟨pieces, rfl, hcovers⟩
    cases hcovers
    rfl
  · rintro rfl
    exact ⟨[], rfl, .nil⟩

theorem matches_cons_iff :
    Matches (token :: pattern) text ↔
      ∃ piece rest, text = piece ++ rest ∧ Covers token piece ∧ Matches pattern rest := by
  constructor
  · rintro ⟨pieces, rfl, hcovers⟩
    cases hcovers with
    | cons hpiece hrest => exact ⟨_, _, List.flatten_cons, hpiece, _, rfl, hrest⟩
  · rintro ⟨piece, rest, rfl, hpiece, pieces, rfl, hrest⟩
    exact ⟨piece :: pieces, List.flatten_cons, .cons hpiece hrest⟩

@[simp] theorem matches_class_nil_iff : ¬ Matches (some p :: pattern) [] := by
  rw [matches_cons_iff]
  rintro ⟨piece, rest, htext, ⟨a, rfl, -⟩, -⟩
  simp at htext

@[simp] theorem matches_class_cons_iff {a : α} :
    Matches (some p :: pattern) (a :: text) ↔ p a = true ∧ Matches pattern text := by
  rw [matches_cons_iff]
  constructor
  · rintro ⟨_, rest, htext, ⟨b, rfl, hb⟩, hrest⟩
    obtain ⟨rfl, rfl⟩ := List.cons.inj htext
    exact ⟨hb, hrest⟩
  · rintro ⟨ha, hrest⟩
    exact ⟨[a], text, rfl, ⟨a, rfl, ha⟩, hrest⟩

theorem matches_any_iff : Matches (none :: pattern) text ↔ ∃ suffix, suffix <:+ text ∧ Matches pattern suffix := by
  rw [matches_cons_iff]
  constructor
  · rintro ⟨piece, rest, rfl, -, hrest⟩
    exact ⟨rest, List.suffix_append piece rest, hrest⟩
  · rintro ⟨suffix, ⟨piece, rfl⟩, hsuffix⟩
    exact ⟨piece, suffix, rfl, trivial, hsuffix⟩

theorem matches_any_of_suffix (h : Matches (none :: pattern) suffix) (hsuffix : suffix <:+ text) :
    Matches (none :: pattern) text := by
  obtain ⟨rest, hrest, hmatches⟩ := matches_any_iff.mp h
  exact matches_any_iff.mpr ⟨rest, hrest.trans hsuffix, hmatches⟩

theorem matches_drop_of_segment (hsegment : none ∉ segment) (h : Matches (segment ++ pattern) text) :
    segment.length ≤ text.length ∧ Matches pattern (text.drop segment.length) := by
  induction segment generalizing text with
  | nil => exact ⟨Nat.zero_le _, h⟩
  | cons token segment ih =>
    cases token with
    | none => exact absurd List.mem_cons_self hsegment
    | some p =>
      cases text with
      | nil => exact absurd h matches_class_nil_iff
      | cons a text =>
        obtain ⟨hle, hrest⟩ := ih (List.not_mem_of_not_mem_cons hsegment) (matches_class_cons_iff.mp h).2
        exact ⟨Nat.succ_le_succ hle, hrest⟩

theorem exists_suffix_iff (P : List α → Prop) :
    (∃ suffix, suffix <:+ text ∧ P suffix) ↔ P text ∨ ∃ suffix, suffix <:+ text.tail ∧ P suffix := by
  constructor
  · rintro ⟨suffix, hsuffix, hP⟩
    cases text with
    | nil => exact .inr ⟨suffix, hsuffix, hP⟩
    | cons a text =>
      rcases List.suffix_cons_iff.mp hsuffix with rfl | hsuffix
      · exact .inl hP
      · exact .inr ⟨suffix, hsuffix, hP⟩
  · rintro (hP | ⟨suffix, hsuffix, hP⟩)
    · exact ⟨text, List.suffix_rfl, hP⟩
    · exact ⟨suffix, hsuffix.trans (List.tail_suffix text), hP⟩

theorem matches_chars_append_iff [BEq α] [LawfulBEq α] (chars : List α) :
    Matches (chars.map (fun c => some (· == c)) ++ pattern) text ↔
      ∃ rest, text = chars ++ rest ∧ Matches pattern rest := by
  induction chars generalizing text with
  | nil => simp
  | cons c chars ih =>
    cases text with
    | nil => simp
    | cons a text =>
      simp only [List.map_cons, List.cons_append, matches_class_cons_iff, ih, beq_iff_eq, List.cons.injEq]
      constructor
      · rintro ⟨rfl, rest, rfl, hrest⟩
        exact ⟨rest, ⟨rfl, rfl⟩, hrest⟩
      · rintro ⟨rest, ⟨rfl, rfl⟩, hrest⟩
        exact ⟨rfl, rest, rfl, hrest⟩

end DistDb.Lib.Wildcard
