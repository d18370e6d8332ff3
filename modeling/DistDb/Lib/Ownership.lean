import Mathlib

/-! # Ownership kept in two maps

A map from keys to their owner and a map from owners to the keys they hold, kept inverse to each
other by giving, taking and clearing keys. -/

namespace DistDb.Lib

variable {κ ο : Type*} [DecidableEq ο]

def holdings (ownedBy : Finmap fun _ : ο => List κ) (o : ο) : List κ := (ownedBy.lookup o).getD []

section holdings

variable {ownedBy : Finmap fun _ : ο => List κ}

theorem mem_holdings {k : κ} {o : ο} : k ∈ holdings ownedBy o ↔ ∃ ks, ownedBy.lookup o = some ks ∧ k ∈ ks := by
  cases h : ownedBy.lookup o <;> simp [holdings, h]

@[simp] theorem holdings_insert (o : ο) (ks : List κ) : holdings (ownedBy.insert o ks) o = ks := by
  simp [holdings]

theorem holdings_insert_of_ne {o o' : ο} (h : o' ≠ o) (ks : List κ) :
    holdings (ownedBy.insert o ks) o' = holdings ownedBy o' := by
  simp only [holdings, Finmap.lookup_insert_of_ne _ h]

@[simp] theorem holdings_erase (o : ο) : holdings (ownedBy.erase o) o = [] := by
  simp [holdings]

theorem holdings_erase_of_ne {o o' : ο} (h : o' ≠ o) : holdings (ownedBy.erase o) o' = holdings ownedBy o' := by
  simp only [holdings, Finmap.lookup_erase_ne h]

end holdings

variable [DecidableEq κ]

def disown (o : ο) (ownerOf : Finmap fun _ : κ => ο) (k : κ) : Finmap fun _ : κ => ο :=
  if ownerOf.lookup k = some o then ownerOf.erase k else ownerOf

/-- A key has the owner `o` exactly when it is listed for `o`. -/
def Inverse (ownerOf : Finmap fun _ : κ => ο) (ownedBy : Finmap fun _ : ο => List κ) : Prop :=
  ∀ k o, ownerOf.lookup k = some o ↔ k ∈ holdings ownedBy o

variable {ownerOf : Finmap fun _ : κ => ο} {ownedBy : Finmap fun _ : ο => List κ}

/-! ## Disowning -/

theorem lookup_disown (o : ο) (k k' : κ) : (disown o ownerOf k).lookup k' =
      if k' = k ∧ ownerOf.lookup k = some o then none else ownerOf.lookup k' := by
  unfold disown
  by_cases hk : k' = k
  · subst hk
    by_cases ho : ownerOf.lookup k' = some o <;> simp [ho]
  · by_cases ho : ownerOf.lookup k = some o <;> simp [ho, hk, Finmap.lookup_erase_ne hk]

theorem lookup_foldl_disown (o : ο) (ks : List κ) (k o') : (ks.foldl (disown o) ownerOf).lookup k = some o' ↔
      ownerOf.lookup k = some o' ∧ (k ∈ ks → o' ≠ o) := by
  induction ks generalizing ownerOf with
  | nil => simp
  | cons k' ks ih =>
    rw [List.foldl_cons, ih, lookup_disown, List.mem_cons]
    by_cases hk : k = k'
    · subst hk
      by_cases ho : ownerOf.lookup k = some o
      · simp only [ho, and_self, if_true, reduceCtorEq, false_and, Option.some.injEq, true_or,
          forall_const, false_iff, not_and, not_not]
        exact Eq.symm
      · simp only [ho, and_false, if_false, true_or, forall_const]
        constructor
        · rintro ⟨howner, -⟩
          exact ⟨howner, fun h => ho (h ▸ howner)⟩
        · rintro ⟨howner, hne⟩
          exact ⟨howner, fun _ => hne⟩
    · simp [hk]

/-! ## Operations that keep the maps inverse -/

namespace Inverse

theorem empty : Inverse (∅ : Finmap fun _ : κ => ο) (∅ : Finmap fun _ : ο => List κ) := by
  intro k o
  simp [holdings]

theorem entry (h : Inverse ownerOf ownedBy) (o : ο) : Inverse ownerOf (ownedBy.insert o (holdings ownedBy o)) := by
  intro k o'
  by_cases ho : o' = o
  · subst ho
    simpa using h k o'
  · rw [holdings_insert_of_ne ho]
    exact h k o'

theorem give (h : Inverse ownerOf ownedBy) {o : ο} {k : κ} (hfree : ∀ o', ownerOf.lookup k = some o' → o' = o) :
    Inverse (ownerOf.insert k o) (ownedBy.insert o ((holdings ownedBy o).insert k)) := by
  intro k' o'
  by_cases hk : k' = k
  · subst hk
    by_cases ho : o' = o
    · subst ho
      simp
    · rw [Finmap.lookup_insert, holdings_insert_of_ne ho, ← h]
      constructor
      · intro heq
        exact absurd (Option.some.inj heq).symm ho
      · intro howner
        exact absurd (hfree o' howner) ho
  · rw [Finmap.lookup_insert_of_ne _ hk]
    by_cases ho : o' = o
    · subst ho
      rw [holdings_insert, List.mem_insert_iff, h]
      simp [hk]
    · rw [holdings_insert_of_ne ho]
      exact h k' o'

theorem take (h : Inverse ownerOf ownedBy) (o : ο) (k : κ) :
    Inverse (disown o ownerOf k) (ownedBy.insert o ((holdings ownedBy o).filter (· ≠ k))) := by
  intro k' o'
  rw [lookup_disown]
  by_cases ho : o' = o
  · subst ho
    rw [holdings_insert, List.mem_filter, ← h]
    by_cases hk : k' = k
    · subst hk
      by_cases howner : ownerOf.lookup k' = some o' <;> simp [howner]
    · simp [hk]
  · rw [holdings_insert_of_ne ho, ← h]
    split
    · rename_i hcase
      obtain ⟨rfl, howner⟩ := hcase
      simp [howner, Ne.symm ho]
    · rfl

theorem clear (h : Inverse ownerOf ownedBy) (o : ο) :
    Inverse ((holdings ownedBy o).foldl (disown o) ownerOf) (ownedBy.erase o) := by
  intro k o'
  rw [lookup_foldl_disown]
  by_cases ho : o' = o
  · subst ho
    rw [holdings_erase, ← h]
    simp
  · rw [holdings_erase_of_ne ho, and_iff_left fun _ => ho]
    exact h k o'

theorem eraseNil (h : Inverse ownerOf ownedBy) {o : ο} (hnil : holdings ownedBy o = []) :
    Inverse ownerOf (ownedBy.erase o) := by
  intro k o'
  by_cases ho : o' = o
  · subst ho
    rw [holdings_erase, h, hnil]
  · rw [holdings_erase_of_ne ho]
    exact h k o'

end Inverse

end DistDb.Lib
