import Mathlib

/-! # Inverted indexes

The ids of things by their keys, as a map that is changed at one key at a time. An index lists some ids if each of
them stands once under its key and under no other. -/

namespace DistDb.Lib

abbrev Inverted (κ ι : Type) := κ → List ι

namespace Inverted

variable {ι κ μ ρ : Type} [DecidableEq ι] [DecidableEq κ] [DecidableEq μ]

def modify (index : Inverted κ ι) (key : Option κ) (f : List ι → List ι) : Inverted κ ι :=
  match key with
  | some k => Function.update index k (f (index k))
  | none => index

/-- Each of these ids stands once under its key, and under no other. -/
def Lists (index : Inverted κ ι) (ids : Set ι) (keyOf : ι → Option κ) : Prop :=
  ∀ i ∈ ids, ∀ k, (index k).count i = if keyOf i = some k then 1 else 0

/-- The keys that have ids, each once. -/
def Listed (index : Inverted κ ι) (order : List κ) : Prop := order.Nodup ∧ ∀ k, k ∈ order ↔ index k ≠ []

variable {index : Inverted κ ι} {ids : Set ι} {keyOf keyOf' : ι → Option κ} {i j : ι} {k : κ} {key : Option κ}
  {order : List κ}

theorem Lists.mem_iff (h : index.Lists ids keyOf) (hi : i ∈ ids) : i ∈ index k ↔ keyOf i = some k := by
  rw [← List.count_pos_iff, h i hi k]
  split <;> simp [*]

/-! ## Changes -/

theorem count_modify_append :
    (index.modify key (· ++ [i]) k).count j = (index k).count j + if j = i ∧ key = some k then 1 else 0 := by
  cases key with
  | none => simp [modify]
  | some k' =>
    by_cases hk : k = k'
    · subst hk
      by_cases hj : j = i
      · simp [modify, hj]
      · simp [modify, hj, Ne.symm hj]
    · simp [modify, hk, Ne.symm hk]

theorem count_modify_filter :
    (index.modify key (·.filter (· ≠ i)) k).count j = if j = i ∧ key = some k then 0 else (index k).count j := by
  cases key with
  | none => simp [modify]
  | some k' =>
    by_cases hk : k = k'
    · subst hk
      by_cases hj : j = i
      · simp [modify, hj, List.count_eq_zero]
      · simp [modify, hj, List.count_filter]
    · simp [modify, hk, Ne.symm hk]

theorem Lists.append_iff (h : index.Lists (ids \ {i}) keyOf) (hkey : keyOf' i = key)
    (hother : ∀ j, j ≠ i → keyOf' j = keyOf j) :
    (index.modify key (· ++ [i])).Lists (insert i ids) keyOf' ↔ ∀ k, i ∉ index k := by
  constructor
  · intro hlists k
    have hcount := hlists i (Set.mem_insert i ids) k
    rw [count_modify_append, hkey] at hcount
    rw [← List.count_eq_zero]
    simpa using hcount
  · rintro hnew j hj k
    rw [count_modify_append]
    by_cases heq : j = i
    · subst heq
      simp [hkey, List.count_eq_zero.mpr (hnew k)]
    · rw [h j ⟨Set.mem_of_mem_insert_of_ne hj heq, heq⟩ k, hother j heq]
      simp [heq]

theorem Lists.append_univ_iff (h : index.Lists Set.univ keyOf) (hkey : keyOf' i = key)
    (hother : ∀ j, j ≠ i → keyOf' j = keyOf j) :
    (index.modify key (· ++ [i])).Lists Set.univ keyOf' ↔ keyOf i = none := by
  have hiff : (index.modify key (· ++ [i])).Lists (insert i Set.univ) keyOf' ↔ ∀ k, i ∉ index k :=
    Lists.append_iff (fun j _ => h j trivial) hkey hother
  rw [Set.eq_univ_of_univ_subset (Set.subset_insert i Set.univ)] at hiff
  simp only [hiff, h.mem_iff trivial, Option.eq_none_iff_forall_ne_some]

theorem Lists.filter (h : index.Lists ids keyOf) (hother : ∀ j, j ≠ i → keyOf' j = keyOf j) :
    (index.modify key (·.filter (· ≠ i))).Lists (ids \ {i}) keyOf' := by
  intro j hj k
  have hne : j ≠ i := hj.2
  rw [count_modify_filter, if_neg fun heq => hne heq.1, h j hj.1 k, hother j hne]

theorem Lists.filter_iff (h : index.Lists Set.univ keyOf) (key : Option κ) (hkey : keyOf' i = none)
    (hother : ∀ j, j ≠ i → keyOf' j = keyOf j) :
    (index.modify key (·.filter (· ≠ i))).Lists Set.univ keyOf' ↔ ∀ k, keyOf i = some k → key = some k := by
  constructor
  · intro hlists k hk
    by_contra hne
    have hcount := hlists i trivial k
    rw [count_modify_filter, if_neg fun heq => hne heq.2, h i trivial k, hkey] at hcount
    simp [hk] at hcount
  · intro hremoves j _ k
    by_cases heq : j = i
    · subst heq
      rw [count_modify_filter, h j trivial k, hkey]
      by_cases hk : keyOf j = some k
      · simp [hremoves k hk]
      · simp [hk]
    · exact h.filter hother j ⟨trivial, heq⟩ k

/-! ## Builds -/

def group (rows : List (ι × ρ)) (keyOf : ρ → Option κ) : Inverted κ ι := fun k =>
  (rows.filter fun row => keyOf row.2 = some k).map Prod.fst

theorem lists_group {rows : List (ι × ρ)} (hnodup : (rows.map Prod.fst).Nodup) (keyOf : ρ → Option κ) :
    (group rows keyOf).Lists Set.univ fun i => (rows.lookup i).bind keyOf := by
  intro i _ k
  dsimp only
  induction rows with
  | nil => simp [group]
  | cons row rows ih =>
    obtain ⟨id, fields⟩ := row
    obtain ⟨hnew, hnodup⟩ := List.nodup_cons.mp hnodup
    have hgroup : group ((id, fields) :: rows) keyOf k =
        if keyOf fields = some k then id :: group rows keyOf k else group rows keyOf k := by
      by_cases hk : keyOf fields = some k <;> simp [group, hk]
    by_cases hi : i = id
    · subst hi
      have hcount : (group rows keyOf k).count i = 0 :=
        List.count_eq_zero.mpr fun hmem => hnew ((List.filter_sublist.map Prod.fst).subset hmem)
      by_cases hk : keyOf fields = some k <;> simp [hgroup, hk, hcount]
    · have hlookup : ((id, fields) :: rows).lookup i = rows.lookup i := by rw [List.lookup_cons, beq_false_of_ne hi]
      simp only [hlookup, ← ih hnodup, hgroup]
      split
      · rw [List.count_cons_of_ne (Ne.symm hi)]
      · rfl

def regroup (index : Inverted κ ι) (fold : κ → μ) (order : List κ) : Inverted μ ι :=
  order.foldl (fun folded k => Function.update folded (fold k) (index k)) fun _ => []

omit [DecidableEq ι] [DecidableEq κ] in
theorem regroup_apply (index : Inverted κ ι) (fold : κ → μ) (order : List κ) (m : μ) :
    (∃ k ∈ order, fold k = m ∧ index.regroup fold order m = index k) ∨
      (∀ k ∈ order, fold k ≠ m) ∧ index.regroup fold order m = [] := by
  induction order using List.reverseRecOn with
  | nil => exact .inr ⟨fun _ hk => absurd hk List.not_mem_nil, rfl⟩
  | append_singleton order last ih =>
    rw [regroup, List.foldl_concat]
    by_cases hlast : fold last = m
    · refine .inl ⟨last, by simp, hlast, ?_⟩
      rw [hlast, Function.update_self]
    · rw [Function.update_of_ne (Ne.symm hlast)]
      rcases ih with ⟨k, hk, hfold, heq⟩ | ⟨hnone, heq⟩
      · exact .inl ⟨k, List.mem_append_left _ hk, hfold, heq⟩
      · refine .inr ⟨fun k hk => ?_, heq⟩
        rcases List.mem_append.mp hk with hk | hk
        · exact hnone k hk
        · rwa [List.mem_singleton.mp hk]

theorem Lists.regroup_iff (h : index.Lists Set.univ keyOf) (hlisted : index.Listed order) (fold : κ → μ) :
    (index.regroup fold order).Lists Set.univ (fun i => (keyOf i).map fold) ↔
      ∀ i j k k', keyOf i = some k → keyOf j = some k' → fold k = fold k' → k = k' := by
  constructor
  · intro hlists i j k k' hi hj hfold
    rcases regroup_apply index fold order (fold k) with ⟨last, -, -, heq⟩ | ⟨hnone, -⟩
    · have hmem : ∀ i, (keyOf i).map fold = some (fold k) → keyOf i = some last := by
        intro i hi
        rw [← h.mem_iff trivial, ← heq]
        exact (hlists.mem_iff trivial).mpr hi
      have hk := hmem i (by simp [hi])
      have hk' := hmem j (by simp [hj, hfold])
      exact Option.some.inj (hi.symm.trans (hk.trans (hk'.symm.trans hj)))
    · exact absurd rfl (hnone k ((hlisted.2 k).mpr (List.ne_nil_of_mem ((h.mem_iff trivial).mpr hi))))
  · intro hinjective i _ m
    rcases regroup_apply index fold order m with ⟨last, hlast, rfl, heq⟩ | ⟨hnone, heq⟩
    · rw [heq, h i trivial last]
      obtain ⟨j, hj⟩ := List.exists_mem_of_ne_nil _ ((hlisted.2 last).mp hlast)
      have hiff : keyOf i = some last ↔ (keyOf i).map fold = some (fold last) := by
        refine ⟨fun hi => by simp [hi], fun hi => ?_⟩
        obtain ⟨k, hk, hfold⟩ := Option.map_eq_some_iff.mp hi
        rw [hk, hinjective i j k last hk ((h.mem_iff trivial).mp hj) hfold]
      simp only [hiff]
    · rw [heq, List.count_nil, if_neg]
      intro hi
      obtain ⟨k, hk, hfold⟩ := Option.map_eq_some_iff.mp hi
      exact hnone k ((hlisted.2 k).mpr (List.ne_nil_of_mem ((h.mem_iff trivial).mpr hk))) hfold

/-! ## Enumerations -/

omit [DecidableEq ι] in
theorem sum_map_ite_some (order : List κ) (k : κ) :
    (order.map fun k' => if some k = some k' then 1 else 0).sum = order.count k := by
  induction order with
  | nil => rfl
  | cons k' order ih =>
    rw [List.map_cons, List.sum_cons, ih, List.count_cons, add_comm]
    by_cases heq : k = k'
    · simp [heq]
    · simp [heq, Ne.symm heq]

theorem Lists.count_flatMap (h : index.Lists ids keyOf) (hlisted : index.Listed order) (hi : i ∈ ids) (p : κ → Bool) :
    ((order.filter p).flatMap index).count i = if (keyOf i).any p = true then 1 else 0 := by
  rw [List.count_flatMap]
  have hcounts : (order.filter p).map (List.count i ∘ index) =
      (order.filter p).map fun k => if keyOf i = some k then 1 else 0 :=
    List.map_congr_left fun k _ => h i hi k
  rw [hcounts]
  cases hkey : keyOf i with
  | none => simp
  | some k =>
    have hmem : k ∈ order := (hlisted.2 k).mpr (List.ne_nil_of_mem ((h.mem_iff hi).mpr hkey))
    rw [sum_map_ite_some, List.Nodup.count (hlisted.1.filter p)]
    simp [hmem]

theorem notMem_of_count_append (hlisted : (index.modify key (· ++ [i])).Listed order)
    (hcount : (order.flatMap (index.modify key (· ++ [i]))).count i = if key.isSome = true then 1 else 0) (k : κ) :
    i ∉ index k := by
  have hsplit : (order.flatMap (index.modify key (· ++ [i]))).count i =
      (order.map fun k => (index k).count i).sum + (order.map fun k => if key = some k then 1 else 0).sum := by
    rw [List.count_flatMap, ← List.sum_map_add]
    refine congrArg List.sum (List.map_congr_left fun k _ => ?_)
    exact count_modify_append.trans (by simp)
  have hadded : (order.map fun k => if key = some k then 1 else 0).sum = if key.isSome = true then 1 else 0 := by
    cases key with
    | none => simp
    | some k' =>
      have hmem : k' ∈ order := (hlisted.2 k').mpr (by simp [modify])
      rw [sum_map_ite_some, List.Nodup.count hlisted.1, if_pos hmem]
      rfl
  have hzero : (order.map fun k => (index k).count i).sum = 0 := by omega
  intro hi
  have hmem : k ∈ order := by
    have hpos : 0 < (index.modify key (· ++ [i]) k).count i := by
      rw [count_modify_append]
      exact Nat.add_pos_left (List.count_pos_iff.mpr hi) _
    exact (hlisted.2 k).mpr (List.ne_nil_of_mem (List.count_pos_iff.mp hpos))
  have hle := List.single_le_sum (fun _ _ => Nat.zero_le _) _
    (List.mem_map_of_mem (f := fun k => (index k).count i) hmem)
  rw [hzero] at hle
  exact absurd (List.count_pos_iff.mpr hi) (by omega)

omit [DecidableEq ι] [DecidableEq κ] in
theorem exists_listed (h : {k | index k ≠ []}.Finite) : ∃ order, index.Listed order :=
  ⟨h.toFinset.toList, Finset.nodup_toList _, fun k => by simp⟩

omit [DecidableEq ι] in
theorem finite_modify {f : List ι → List ι} (h : {k | index k ≠ []}.Finite) (key : Option κ) :
    {k | index.modify key f k ≠ []}.Finite := by
  cases key with
  | none => exact h
  | some k =>
    refine (h.insert k).subset fun k' hk' => ?_
    by_cases heq : k' = k
    · exact .inl heq
    · exact .inr (by simpa [modify, heq] using hk')

omit [DecidableEq ι] in
theorem finite_group (rows : List (ι × ρ)) (keyOf : ρ → Option κ) : {k | group rows keyOf k ≠ []}.Finite := by
  refine (rows.filterMap fun row => keyOf row.2).toFinset.finite_toSet.subset fun k hk => ?_
  obtain ⟨i, hi⟩ := List.exists_mem_of_ne_nil _ hk
  obtain ⟨row, hrow, -⟩ := List.mem_map.mp hi
  obtain ⟨hrow, hkey⟩ := List.mem_filter.mp hrow
  simp only [Finset.mem_coe, List.mem_toFinset, List.mem_filterMap]
  exact ⟨row, hrow, of_decide_eq_true hkey⟩

/-! ## Other orders -/

def Agrees (index index' : Inverted κ ι) : Prop := ∀ k, (index k).Perm (index' k)

variable {index' : Inverted κ ι} {order' : List κ} {fold : κ → μ} {m : μ}

omit [DecidableEq ι] [DecidableEq κ] in
theorem rel_agrees_self : ∀ index : Option (Inverted κ ι), Option.Rel Agrees index index
  | none => .none
  | some _ => .some fun _ => .refl _

omit [DecidableEq ι] [DecidableEq κ] in
theorem Listed.perm (h : index.Listed order) (horder : order'.Perm order) : index.Listed order' :=
  ⟨horder.nodup_iff.mpr h.1, fun k => horder.mem_iff.trans (h.2 k)⟩

omit [DecidableEq ι] [DecidableEq κ] in
theorem eq_nil_iff_of_perm (h : (index k).Perm (index' k)) : index k = [] ↔ index' k = [] := by
  rw [← List.length_eq_zero_iff, h.length_eq, List.length_eq_zero_iff]

omit [DecidableEq ι] [DecidableEq κ] in
theorem flatMap_perm {p : κ → Bool} (h : ∀ k, p k = true → (index k).Perm (index' k)) (hlisted : index.Listed order)
    (hlisted' : index'.Listed order') : ((order.filter p).flatMap index).Perm ((order'.filter p).flatMap index') := by
  have horder : (order.filter p).Perm (order'.filter p) := by
    refine (List.perm_ext_iff_of_nodup (hlisted.1.filter p) (hlisted'.1.filter p)).mpr fun k => ?_
    rw [List.mem_filter, List.mem_filter, hlisted.2, hlisted'.2]
    exact and_congr_left fun hp => not_congr (eq_nil_iff_of_perm (h k hp))
  exact (horder.flatMap_right index).trans (List.Perm.flatMap_left _ fun k hk => h k (List.mem_filter.mp hk).2)

omit [DecidableEq ι] [DecidableEq κ] in
theorem Agrees.regroup_perm (h : index.Agrees index') (hlisted : index.Listed order) (hlisted' : index'.Listed order')
    (hone : ∀ k k', index k ≠ [] → index k' ≠ [] → fold k = m → fold k' = m → k = k') :
    (index.regroup fold order m).Perm (index'.regroup fold order' m) := by
  have hmem : ∀ k, k ∈ order ↔ k ∈ order' := by
    intro k
    rw [hlisted.2, hlisted'.2]
    exact not_congr (eq_nil_iff_of_perm (h k))
  rcases regroup_apply index fold order m with ⟨k, hk, hfold, heq⟩ | ⟨hnone, heq⟩ <;>
    rcases regroup_apply index' fold order' m with ⟨k', hk', hfold', heq'⟩ | ⟨hnone', heq'⟩
  · obtain rfl := hone k k' ((hlisted.2 k).mp hk) ((hlisted.2 k').mp ((hmem k').mpr hk')) hfold hfold'
    rw [heq, heq']
    exact h k
  · exact absurd hfold (hnone' k ((hmem k).mp hk))
  · exact absurd hfold' (hnone k' ((hmem k').mpr hk'))
  · rw [heq, heq']

omit [DecidableEq ι] [DecidableEq κ] in
theorem regroup_concat : index.regroup fold (order ++ [k]) (fold k) = index k := by simp [regroup]

omit [DecidableEq ι] [DecidableEq κ] in
theorem exists_listed_regroup (index : Inverted κ ι) (fold : κ → μ) (order : List κ) :
    ∃ keys, (index.regroup fold order).Listed keys := by
  refine exists_listed ((order.map fold).toFinset.finite_toSet.subset fun m hm => ?_)
  rcases regroup_apply index fold order m with ⟨k, hk, rfl, -⟩ | ⟨-, heq⟩
  · simpa using ⟨k, hk, rfl⟩
  · exact absurd heq hm

theorem Agrees.exists_orders (h : index.Agrees index') (hlists : index.Lists Set.univ keyOf)
    (hfinite : {k | index k ≠ []}.Finite) {k' : κ} (hi : keyOf i = some k) (hj : keyOf j = some k') (hne : k ≠ k')
    (hfold : fold k = fold k') :
    ∃ order order', index.Listed order ∧ index'.Listed order' ∧ i ∈ index.regroup fold order (fold k) ∧
      ∀ m, i ∉ index'.regroup fold order' m := by
  obtain ⟨base, hbase⟩ := exists_listed hfinite
  have hmem : ∀ {i k}, keyOf i = some k → k ∈ base := fun hi =>
    (hbase.2 _).mpr (List.ne_nil_of_mem ((hlists.mem_iff trivial).mpr hi))
  have hlast : ∀ {k}, k ∈ base → (base.erase k ++ [k]).Perm base := fun hk =>
    (List.perm_append_singleton _ _).trans (List.perm_cons_erase hk).symm
  have hkey : ∀ {k}, i ∈ index' k → keyOf i = some k := fun hi => (hlists.mem_iff trivial).mp ((h _).mem_iff.mpr hi)
  have hbase' : index'.Listed base := ⟨hbase.1, fun k => (hbase.2 k).trans (not_congr (eq_nil_iff_of_perm (h k)))⟩
  refine ⟨base.erase k ++ [k], base.erase k' ++ [k'], hbase.perm (hlast (hmem hi)),
    hbase'.perm (hlast (hmem hj)), ?_, ?_⟩
  · rw [regroup_concat]
    exact (hlists.mem_iff trivial).mpr hi
  · intro m hm
    rcases regroup_apply index' fold (base.erase k' ++ [k']) m with ⟨last, -, rfl, heq⟩ | ⟨-, heq⟩
    · obtain rfl : k = last := Option.some.inj (hi.symm.trans (hkey (heq ▸ hm)))
      rw [hfold, regroup_concat] at hm
      exact hne (Option.some.inj (hi.symm.trans (hkey hm)))
    · rw [heq] at hm
      exact List.not_mem_nil hm

end Inverted

end DistDb.Lib
