import Mathlib

/-! # Increasing lists of naturals

Where in such a list a number stands: never behind the position that is the number itself, and at it
exactly if no smaller number is missing. -/

namespace DistDb.Lib

variable {xs : List ℕ} {i j k m n : ℕ}

theorem lt_of_getElem?_of_lt (h : xs.Pairwise (· < ·)) (hm : xs[i]? = some m) (hn : xs[j]? = some n)
    (hlt : i < j) : m < n := by
  obtain ⟨hi, rfl⟩ := List.getElem?_eq_some_iff.mp hm
  obtain ⟨hj, rfl⟩ := List.getElem?_eq_some_iff.mp hn
  exact List.pairwise_iff_getElem.mp h i j hi hj hlt

theorem add_le_of_getElem? (h : xs.Pairwise (· < ·)) (hm : xs[i]? = some m) (d : ℕ)
    (hn : xs[i + d]? = some n) : m + d ≤ n := by
  induction d generalizing n with
  | zero => exact (Option.some.inj (hm.symm.trans hn)).le
  | succ d ih =>
    obtain ⟨hlt, -⟩ := List.getElem?_eq_some_iff.mp hn
    have hprevious := List.getElem?_eq_getElem (show i + d < xs.length by omega)
    have hle := ih hprevious
    have hnext := lt_of_getElem?_of_lt h hprevious hn (Nat.lt_succ_self _)
    omega

theorem le_of_getElem? (h : xs.Pairwise (· < ·)) (hk : xs[i]? = some k) : i ≤ k := by
  obtain ⟨hlt, -⟩ := List.getElem?_eq_some_iff.mp hk
  have hfirst := List.getElem?_eq_getElem (show 0 < xs.length by omega)
  have hle := add_le_of_getElem? h hfirst i (by rwa [Nat.zero_add])
  omega

theorem getElem?_of_dense (h : xs.Pairwise (· < ·)) (hdense : ∀ j < k, j ∈ xs) : ∀ j < k, xs[j]? = some j := by
  intro j
  induction j using Nat.strong_induction_on with
  | _ j ih =>
    intro hj
    obtain ⟨i, hi⟩ := List.mem_iff_getElem?.mp (hdense j hj)
    rcases (le_of_getElem? h hi).lt_or_eq with hlt | rfl
    · have hself := ih i hlt (hlt.trans hj)
      have heq : i = j := Option.some.inj (hself.symm.trans hi)
      omega
    · exact hi

theorem getElem?_self_iff (h : xs.Pairwise (· < ·)) (hk : k ∈ xs) : xs[k]? = some k ↔ ∀ j < k, j ∈ xs := by
  constructor
  · intro hself j hj
    obtain ⟨hlt, -⟩ := List.getElem?_eq_some_iff.mp hself
    have hget := List.getElem?_eq_getElem (show j < xs.length by omega)
    have hle := le_of_getElem? h hget
    have hgap := add_le_of_getElem? h hget (k - j) (by rwa [Nat.add_sub_cancel' hj.le])
    have heq : xs[j] = j := by omega
    exact heq ▸ List.getElem_mem _
  · intro hdense
    obtain ⟨i, hi⟩ := List.mem_iff_getElem?.mp hk
    rcases (le_of_getElem? h hi).lt_or_eq with hlt | rfl
    · have hself := getElem?_of_dense h hdense i hlt
      have heq : i = k := Option.some.inj (hself.symm.trans hi)
      omega
    · exact hi

end DistDb.Lib
