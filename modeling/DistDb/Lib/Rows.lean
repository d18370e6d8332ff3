import Mathlib

/-! # Lists of rows

Rows without duplicates, and windows of rows. -/

namespace DistDb.Lib

variable {α β κ : Type}

/-! ## Duplicates -/

def uniqueBy [DecidableEq κ] (key : α → κ) : List κ → List α → List α
  | _, [] => []
  | seen, a :: as => if key a ∈ seen then uniqueBy key seen as else a :: uniqueBy key (key a :: seen) as

theorem map_uniqueBy [DecidableEq κ] {f : α → β} {key : β → κ} {seen : List κ} {as : List α} :
    (uniqueBy (fun a => key (f a)) seen as).map f = uniqueBy key seen (as.map f) := by
  induction as generalizing seen with
  | nil => rfl
  | cons a as ih =>
    simp only [List.map_cons, uniqueBy]
    split <;> simp [ih]

theorem uniqueBy_subset [DecidableEq κ] {key : α → κ} {seen : List κ} {as : List α} : uniqueBy key seen as ⊆ as := by
  induction as generalizing seen with
  | nil => simp [uniqueBy]
  | cons a as ih =>
    rw [uniqueBy]
    split
    · exact fun b hb => List.mem_cons_of_mem _ (ih hb)
    · exact List.cons_subset_cons _ ih

theorem uniqueBy_congr {κ' : Type} [DecidableEq κ] [DecidableEq κ'] {key : α → κ} {key' : α → κ'}
    (before : List α) {as : List α} (h : ∀ a ∈ before ++ as, ∀ b ∈ before ++ as, key a = key b ↔ key' a = key' b) :
    uniqueBy key (before.map key) as = uniqueBy key' (before.map key') as := by
  induction as generalizing before with
  | nil => rfl
  | cons a as ih =>
    have hseen : key a ∈ before.map key ↔ key' a ∈ before.map key' := by
      simp only [List.mem_map]
      exact exists_congr fun b => and_congr_right fun hb =>
        h b (List.mem_append_left _ hb) a (List.mem_append_right _ List.mem_cons_self)
    rw [uniqueBy, uniqueBy]
    simp only [hseen]
    split
    · exact ih before fun b hb c hc => h b (by grind) c (by grind)
    · congr 1
      rw [← List.map_cons, ← List.map_cons]
      exact ih (a :: before) fun b hb c hc => h b (by grind) c (by grind)

/-! ## Set operations -/

section SetOperations

variable {ν : Type} [DecidableEq κ] [DecidableEq ν] {key : α → κ} {val : α → ν}

theorem mem_map_uniqueBy {seen : List κ} {as : List α} {k : κ} :
    k ∈ (uniqueBy key seen as).map key ↔ k ∈ as.map key ∧ k ∉ seen := by
  induction as generalizing seen with
  | nil => simp [uniqueBy]
  | cons a as ih =>
    rw [uniqueBy]
    split
    · rename_i hseen
      rw [ih, List.map_cons, List.mem_cons]
      constructor
      · exact fun ⟨hmem, hnot⟩ => ⟨.inr hmem, hnot⟩
      · rintro ⟨rfl | hmem, hnot⟩
        · exact absurd hseen hnot
        · exact ⟨hmem, hnot⟩
    · rename_i hseen
      rw [List.map_cons, List.mem_cons, ih, List.map_cons, List.mem_cons, List.mem_cons]
      by_cases hk : k = key a
      · simp [hk, hseen]
      · simp [hk]

theorem nodup_map_uniqueBy {seen : List κ} {as : List α} : ((uniqueBy key seen as).map key).Nodup := by
  induction as generalizing seen with
  | nil => exact List.nodup_nil
  | cons a as ih =>
    rw [uniqueBy]
    split
    · exact ih
    · rw [List.map_cons, List.nodup_cons, mem_map_uniqueBy]
      exact ⟨fun ⟨_, hnot⟩ => hnot List.mem_cons_self, ih⟩

theorem perm_map_uniqueBy_iff {as : List α} (h : ∀ a ∈ as, ∀ b ∈ as, key a = key b → val a = val b) :
    ((uniqueBy val [] as).map val).Perm ((uniqueBy key [] as).map val) ↔
      ∀ a ∈ as, ∀ b ∈ as, val a = val b → key a = key b := by
  constructor
  · intro hperm a ha b hb hval
    have hnodup : ((uniqueBy key [] as).map val).Nodup := hperm.nodup nodup_map_uniqueBy
    have hkept : ∀ c ∈ as, ∃ d ∈ uniqueBy key [] as, key d = key c ∧ val d = val c := by
      intro c hc
      have hmem : key c ∈ (uniqueBy key [] as).map key :=
        mem_map_uniqueBy.mpr ⟨List.mem_map_of_mem hc, List.not_mem_nil⟩
      obtain ⟨d, hd, hkey⟩ := List.mem_map.mp hmem
      exact ⟨d, hd, hkey, h d (uniqueBy_subset hd) c hc hkey⟩
    obtain ⟨a', ha', hkeya, hvala⟩ := hkept a ha
    obtain ⟨b', hb', hkeyb, hvalb⟩ := hkept b hb
    have hsame : a' = b' :=
      List.inj_on_of_nodup_map hnodup ha' hb' (hvala.trans (hval.trans hvalb.symm))
    rw [← hkeya, ← hkeyb, hsame]
  · intro hinj
    have hkeys : uniqueBy val [] as = uniqueBy key [] as :=
      uniqueBy_congr [] (by simpa using fun a ha b hb => ⟨hinj a ha b hb, h a ha b hb⟩)
    rw [hkeys]

end SetOperations

/-! ## Order -/

section Sorting

variable {le : α → α → Bool}

theorem pairwise_mergeSort_of_mem (le : α → α → Bool) {as : List α}
    (trans : ∀ a ∈ as, ∀ b ∈ as, ∀ c ∈ as, le a b = true → le b c = true → le a c = true)
    (total : ∀ a ∈ as, ∀ b ∈ as, le a b = true ∨ le b a = true) :
    (as.mergeSort le).Pairwise fun a b => le a b = true := by
  let le' : {a // a ∈ as} → {a // a ∈ as} → Bool := fun a b => le a b
  have hsort : (as.attach.mergeSort le').map Subtype.val = (as.attach.map Subtype.val).mergeSort le :=
    List.map_mergeSort fun _ _ _ _ => rfl
  have trans' : ∀ a b c : {a // a ∈ as}, le' a b = true → le' b c = true → le' a c = true :=
    fun a b c => trans a a.2 b b.2 c c.2
  have total' : ∀ a b : {a // a ∈ as}, (le' a b || le' b a) = true :=
    fun a b => (Bool.or_eq_true _ _).mpr (total a a.2 b b.2)
  rw [List.attach_map_subtype_val] at hsort
  rw [← hsort, List.pairwise_map]
  exact List.pairwise_mergeSort trans' total' as.attach

theorem pairwise_insertionSort_of_mem (le : α → α → Bool) {as : List α}
    (trans : ∀ a ∈ as, ∀ b ∈ as, ∀ c ∈ as, le a b = true → le b c = true → le a c = true)
    (total : ∀ a ∈ as, ∀ b ∈ as, le a b = true ∨ le b a = true) :
    (as.insertionSort fun a b => le a b = true).Pairwise fun a b => le a b = true := by
  let r : {a // a ∈ as} → {a // a ∈ as} → Prop := fun a b => le a b = true
  have htrans : IsTrans _ r := ⟨fun a b c => trans a a.2 b b.2 c c.2⟩
  have htotal : Std.Total r := ⟨fun a b => total a a.2 b b.2⟩
  have hsort : (as.attach.insertionSort r).map Subtype.val = as.insertionSort fun a b => le a b = true := by
    rw [List.map_insertionSort r (fun a b => le a b = true) Subtype.val as.attach fun _ _ _ _ => Iff.rfl,
      List.attach_map_subtype_val]
  rw [← hsort, List.pairwise_map]
  exact List.pairwise_insertionSort r as.attach

end Sorting

/-! ## Windows -/

def window (limit : Option Nat) (offset : Nat) (as : List α) : List α :=
  (as.drop offset).take (limit.getD as.length)

theorem map_window {f : α → β} {limit : Option Nat} {offset : Nat} {as : List α} :
    (window limit offset as).map f = window limit offset (as.map f) := by
  simp [window, List.map_take, List.map_drop]

end DistDb.Lib
