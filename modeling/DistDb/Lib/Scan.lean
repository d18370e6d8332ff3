import Mathlib

/-! # Scanning a list piece by piece

A reader takes one value off the front of a list; a scan repeats it until it fails, and can be resumed where it
stopped. -/

namespace DistDb.Lib

variable {α β : Type*} {next : List α → Option (β × List α)}

/-- A reader whose values depend only on the piece they are read from. -/
def Delimited (next : List α → Option (β × List α)) : Prop :=
  ∀ input x rest, next input = some (x, rest) →
    ∃ piece, piece ≠ [] ∧ input = piece ++ rest ∧ ∀ rest', next (piece ++ rest') = some (x, rest')

def scan (next : List α → Option (β × List α)) : (fuel : Nat) → List α → List β × List α
  | 0, input => ([], input)
  | fuel + 1, input =>
    match next input with
    | none => ([], input)
    | some (x, rest) => (x :: (scan next fuel rest).1, (scan next fuel rest).2)

inductive Scanned (next : List α → Option (β × List α)) : List α → List β → List α → Prop where
  | stop {input} (h : next input = none) : Scanned next input [] input
  | read {input x rest xs left} (h : next input = some (x, rest)) (hs : Scanned next rest xs left) :
      Scanned next input (x :: xs) left

theorem Delimited.nil (hd : Delimited next) : next [] = none := by
  cases h : next [] with
  | none => rfl
  | some read =>
    obtain ⟨piece, hne, hpiece, -⟩ := hd _ _ _ h
    exact absurd (List.append_eq_nil_iff.mp hpiece.symm).1 hne

theorem Delimited.length_lt (hd : Delimited next) {input rest : List α} {x : β}
    (h : next input = some (x, rest)) : rest.length < input.length := by
  obtain ⟨piece, hne, rfl, -⟩ := hd _ _ _ h
  have := List.length_pos_iff.mpr hne
  rw [List.length_append]
  omega

theorem Delimited.scanned (hd : Delimited next) : ∀ {fuel : Nat} {input : List α}, input.length ≤ fuel →
      Scanned next input (scan next fuel input).1 (scan next fuel input).2 := by
  intro fuel
  induction fuel with
  | zero =>
    intro input hfuel
    rw [List.length_eq_zero_iff.mp (Nat.le_zero.mp hfuel)]
    exact .stop hd.nil
  | succ fuel ih =>
    intro input hfuel
    rw [scan]
    cases h : next input with
    | none => exact .stop h
    | some read =>
      obtain ⟨x, rest⟩ := read
      have := hd.length_lt h
      exact .read h (ih (by omega))

namespace Scanned

variable {input input' left left' : List α} {xs ys : List β}

theorem unique (h : Scanned next input xs left) (h' : Scanned next input ys left') : xs = ys ∧ left = left' := by
  induction h generalizing ys with
  | stop hstop =>
    cases h' with
    | stop => exact ⟨rfl, rfl⟩
    | read hread => exact absurd (hstop.symm.trans hread) (by simp)
  | read hread _ ih =>
    cases h' with
    | stop hstop => exact absurd (hstop.symm.trans hread) (by simp)
    | read hread' hs =>
      obtain ⟨rfl, rfl⟩ := Prod.mk.inj (Option.some.inj (hread.symm.trans hread'))
      obtain ⟨rfl, rfl⟩ := ih hs
      exact ⟨rfl, rfl⟩

end Scanned

/-! ## Whole pieces -/

def ReadsPiece (next : List α → Option (β × List α)) (x : β) (piece : List α) : Prop :=
  ∀ rest, next (piece ++ rest) = some (x, rest)

theorem ReadsPiece.take_eq_none (hd : Delimited next) {x : β} {piece : List α}
    (h : ReadsPiece next x piece) {n : Nat} (hn : n < piece.length) : next (piece.take n) = none := by
  cases hread : next (piece.take n) with
  | none => rfl
  | some read =>
    obtain ⟨y, rest⟩ := read
    obtain ⟨start, -, hstart, hrest⟩ := hd _ _ _ hread
    have hcut : start ++ (rest ++ piece.drop n) = piece ++ [] := by
      rw [← List.append_assoc, ← hstart, List.take_append_drop, List.append_nil]
    have hwhole := (hrest (rest ++ piece.drop n)).symm.trans (hcut ▸ h [])
    have hnil := (Prod.mk.inj (Option.some.inj hwhole)).2
    have hdrop := List.drop_eq_nil_iff.mp (List.append_eq_nil_iff.mp hnil).2
    omega

/-- How many pieces of these lengths end within the first `n` elements. -/
def wholePieces : List Nat → Nat → Nat
  | [], _ => 0
  | length :: lengths, n => if length ≤ n then wholePieces lengths (n - length) + 1 else 0

theorem lt_wholePieces_iff {lengths : List Nat} {n i : Nat} (hi : i < lengths.length) :
    i < wholePieces lengths n ↔ (lengths.take (i + 1)).sum ≤ n := by
  induction lengths generalizing n i with
  | nil => cases hi
  | cons length lengths ih =>
    rw [wholePieces, List.take_succ_cons, List.sum_cons]
    split_ifs with hle
    · cases i with
      | zero => simpa using hle
      | succ i =>
        rw [Nat.add_lt_add_iff_right, ih (by simpa using hi)]
        omega
    · omega

theorem wholePieces_append (lengths lengths' : List Nat) (n : Nat) :
    wholePieces (lengths ++ lengths') (lengths.sum + n) = lengths.length + wholePieces lengths' n := by
  induction lengths with
  | nil => simp
  | cons length lengths ih =>
    have hrest : length + lengths.sum + n - length = lengths.sum + n := by omega
    rw [List.cons_append, wholePieces, List.sum_cons, if_pos (by omega), hrest, ih, List.length_cons]
    omega

/-- Cut anywhere, a list of whole pieces reads as the values whose pieces end before the cut. -/
theorem Scanned.take_flatten (hd : Delimited next) {xs : List β} {pieces : List (List α)}
    (h : List.Forall₂ (ReadsPiece next) xs pieces) (n : Nat) :
    ∃ left, Scanned next (pieces.flatten.take n) (xs.take (wholePieces (pieces.map List.length) n)) left := by
  induction h generalizing n with
  | nil => exact ⟨_, .stop (by simpa using hd.nil)⟩
  | @cons x piece xs pieces hpiece _ ih =>
    rw [List.flatten_cons, List.take_append, List.map_cons, wholePieces]
    split_ifs with hn
    · obtain ⟨left, hscan⟩ := ih (n - piece.length)
      rw [List.take_of_length_le hn]
      exact ⟨left, .read (hpiece _) hscan⟩
    · have hshort : n - piece.length = 0 := by omega
      rw [hshort, List.take_zero, List.append_nil]
      exact ⟨_, .stop (hpiece.take_eq_none hd (by omega))⟩

end DistDb.Lib
