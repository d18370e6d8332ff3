import DistDb.Lib.BinarySearch

/-! # Key-sorted logs

A log keeps its entries non-decreasing by key. Merging an entry puts it after every entry whose key
is not larger, unless it equals the latest entry with its own key. -/

namespace DistDb.Lib
open List

variable {α κ : Type*} [LinearOrder κ] {key : α → κ}

def classOf (key : α → κ) (k : κ) (xs : List α) : List α := xs.filter fun x => key x = k

def atMost (key : α → κ) (k : κ) (xs : List α) : List α := xs.filter fun x => key x ≤ k

def above (key : α → κ) (k : κ) (xs : List α) : List α := xs.filter fun x => k < key x

/-- No element with this key comes behind it. -/
def IsLatest (key : α → κ) (r : α) (xs : List α) : Prop := (classOf key (key r) xs).getLast? = some r

instance [DecidableEq α] (r : α) (xs : List α) : Decidable (IsLatest key r xs) :=
  inferInstanceAs (Decidable (_ = _))

variable {xs ys : List α} {r : α} {k : κ}

theorem IsLatest.mem (h : IsLatest key r xs) : r ∈ xs :=
  (mem_filter.mp (mem_of_getLast? h)).1

/-- No element comes back after a different one with the same key. -/
def NoReturn (key : α → κ) (xs : List α) : Prop :=
  ∀ r x, [r, x, r] <+ xs → key x = key r → x = r

omit [LinearOrder κ] in
theorem NoReturn.sublist (h : NoReturn key ys) (hs : xs <+ ys) : NoReturn key xs :=
  fun r x hr => h r x (hr.trans hs)

/-! ## Splitting a sorted list at a key -/

theorem mem_classOf {x : α} : x ∈ classOf key k xs ↔ x ∈ xs ∧ key x = k := by
  simp [classOf]

@[simp] theorem classOf_append : classOf key k (xs ++ ys) = classOf key k xs ++ classOf key k ys := filter_append ..

theorem classOf_concat :
    classOf key k (xs ++ [r]) = if key r = k then classOf key k xs ++ [r] else classOf key k xs := by
  by_cases h : key r = k <;> simp [classOf, h]

theorem classOf_cons : classOf key k (r :: xs) = if key r = k then r :: classOf key k xs else classOf key k xs := by
  by_cases h : key r = k <;> simp [classOf, h]

theorem eq_of_classOf_eq (hxs : SortedBy key xs) (hys : SortedBy key ys)
    (h : ∀ k, classOf key k xs = classOf key k ys) : xs = ys := by
  induction xs generalizing ys with
  | nil =>
    cases ys with
    | nil => rfl
    | cons y ys =>
      have hy : y ∈ classOf key (key y) [] := h (key y) ▸ mem_classOf.mpr ⟨mem_cons_self, rfl⟩
      simp [classOf] at hy
  | cons x xs ih =>
    have hx : x ∈ ys := (mem_classOf.mp (h (key x) ▸ mem_classOf.mpr ⟨mem_cons_self, rfl⟩)).1
    cases ys with
    | nil => cases hx
    | cons y ys =>
      obtain ⟨hxle, hxtail⟩ := pairwise_cons.mp hxs
      obtain ⟨hyle, hytail⟩ := pairwise_cons.mp hys
      have hy : y ∈ x :: xs := (mem_classOf.mp ((h (key y)).symm ▸ mem_classOf.mpr ⟨mem_cons_self, rfl⟩)).1
      have hkey : key x = key y := by
        refine le_antisymm ?_ ?_
        · rcases mem_cons.mp hy with rfl | hy
          · exact le_refl _
          · exact hxle y hy
        · rcases mem_cons.mp hx with rfl | hx
          · exact le_refl _
          · exact hyle x hx
      have hhead := h (key x)
      rw [classOf_cons, classOf_cons, if_pos rfl, if_pos hkey.symm] at hhead
      obtain ⟨rfl, htail⟩ := cons.inj hhead
      congr 1
      refine ih hxtail hytail fun k => ?_
      by_cases hk : key x = k
      · rw [← hk]
        exact htail
      · simpa [classOf_cons, hk] using h k

theorem atMost_append_above (hs : SortedBy key xs) : atMost key k xs ++ above key k xs = xs := by
  induction xs with
  | nil => rfl
  | cons x xs ih =>
    obtain ⟨hx, hs⟩ := pairwise_cons.mp hs
    by_cases hle : key x ≤ k
    · simpa [atMost, above, hle, not_lt.mpr hle] using ih hs
    · have hnone : atMost key k xs = [] :=
        filter_eq_nil_iff.mpr fun y hy => by
          simpa using lt_of_lt_of_le (not_le.mp hle) (hx y hy)
      have hrest : above key k xs = xs := by simpa [hnone] using ih hs
      have hfront : atMost key k (x :: xs) = [] := by simpa [atMost, hle] using hnone
      have hback : above key k (x :: xs) = x :: above key k xs :=
        filter_cons_of_pos (by simpa using hle)
      rw [hfront, hback, hrest, nil_append]

theorem split_eq {a b : List α} (ha : ∀ x ∈ a, key x ≤ k) (hb : ∀ x ∈ b, k < key x) :
    atMost key k (a ++ b) = a ∧ above key k (a ++ b) = b := by
  have h₁ : b.filter (fun x => key x ≤ k) = [] :=
    filter_eq_nil_iff.mpr fun x hx => by simpa using hb x hx
  have h₂ : a.filter (fun x => k < key x) = [] :=
    filter_eq_nil_iff.mpr fun x hx => by simpa using ha x hx
  simp only [atMost, above, filter_append, h₁, h₂, append_nil, nil_append]
  exact ⟨filter_eq_self.mpr fun x hx => by simpa using ha x hx, filter_eq_self.mpr fun x hx => by simpa using hb x hx⟩

theorem sortedBy_insert (hs : SortedBy key xs) : SortedBy key (atMost key (key r) xs ++ r :: above key (key r) xs) := by
  refine pairwise_append.mpr ⟨hs.filter _, pairwise_cons.mpr ⟨?_, hs.filter _⟩, ?_⟩
  · intro x hx
    exact le_of_lt (by simpa using (mem_filter.mp hx).2)
  · intro x hx y hy
    have hxr : key x ≤ key r := by simpa using (mem_filter.mp hx).2
    rcases mem_cons.mp hy with rfl | hy
    · exact hxr
    · exact hxr.trans (le_of_lt (by simpa using (mem_filter.mp hy).2))

/-! ## Logs -/

variable (α key) in
@[ext] structure KeyedLog where
  entries : List α
  sorted : SortedBy key entries

namespace KeyedLog

def empty : KeyedLog α key := ⟨[], Pairwise.nil⟩

@[simp] theorem empty_entries : (empty : KeyedLog α key).entries = [] := rfl

variable [DecidableEq α]

def merge (log : KeyedLog α key) (r : α) : KeyedLog α key :=
  if IsLatest key r log.entries then log
  else ⟨atMost key (key r) log.entries ++ r :: above key (key r) log.entries,
    sortedBy_insert log.sorted⟩

def mergeAll (log : KeyedLog α key) (rs : List α) : KeyedLog α key := rs.foldl merge log

variable {log : KeyedLog α key} {r : α} {rs : List α}

@[simp] theorem mergeAll_nil : log.mergeAll [] = log := rfl

@[simp] theorem mergeAll_cons : log.mergeAll (r :: rs) = (log.merge r).mergeAll rs := rfl

theorem mergeAll_append {rs' : List α} : log.mergeAll (rs ++ rs') = (log.mergeAll rs).mergeAll rs' := foldl_append ..

theorem merge_of_isLatest (h : IsLatest key r log.entries) : log.merge r = log := if_pos h

theorem merge_entries_of_not (h : ¬ IsLatest key r log.entries) :
    (log.merge r).entries = atMost key (key r) log.entries ++ r :: above key (key r) log.entries := by
  rw [merge, if_neg h]

theorem merge_perm (h : ¬ IsLatest key r log.entries) : (log.merge r).entries ~ r :: log.entries := by
  rw [merge_entries_of_not h]
  refine perm_middle.trans (Perm.cons r ?_)
  rw [atMost_append_above log.sorted]

theorem sublist_merge : log.entries <+ (log.merge r).entries := by
  by_cases h : IsLatest key r log.entries
  · rw [merge_of_isLatest h]
  · rw [merge_entries_of_not h]
    conv_lhs => rw [← atMost_append_above (k := key r) log.sorted]
    exact (Sublist.refl _).append (sublist_cons_self ..)

theorem length_merge (h : ¬ IsLatest key r log.entries) : (log.merge r).entries.length = log.entries.length + 1 := by
  simpa using (merge_perm h).length_eq

theorem mem_merge {x : α} : x ∈ (log.merge r).entries ↔ x ∈ log.entries ∨ x = r := by
  by_cases h : IsLatest key r log.entries
  · rw [merge_of_isLatest h]
    exact ⟨Or.inl, fun hx => hx.elim id fun hx => hx ▸ h.mem⟩
  · rw [(merge_perm h).mem_iff, mem_cons, or_comm]

theorem mem_mergeAll {x : α} : x ∈ (log.mergeAll rs).entries ↔ x ∈ log.entries ∨ x ∈ rs := by
  induction rs generalizing log with
  | nil => simp
  | cons r rs ih => rw [mergeAll_cons, ih, mem_merge, mem_cons, or_assoc]

theorem sublist_mergeAll (log : KeyedLog α key) (rs : List α) : log.entries <+ (log.mergeAll rs).entries := by
  induction rs generalizing log with
  | nil => exact Sublist.refl _
  | cons r rs ih => exact sublist_merge.trans (ih _)

theorem merge_of_gt (h : ∀ x ∈ log.entries, key x < key r) : (log.merge r).entries = log.entries ++ [r] := by
  have hnot : ¬ IsLatest key r log.entries := fun hl => lt_irrefl _ (h r hl.mem)
  obtain ⟨h₁, h₂⟩ := split_eq (b := []) (fun x hx => le_of_lt (h x hx)) (fun x hx => by simp at hx)
  rw [append_nil] at h₁ h₂
  rw [merge_entries_of_not hnot, h₁, h₂]

theorem mergeAll_eq_self_iff : (log.mergeAll rs).entries = log.entries ↔ ∀ r ∈ rs, IsLatest key r log.entries := by
  induction rs with
  | nil => simp
  | cons r rs ih =>
    by_cases h : IsLatest key r log.entries
    · rw [mergeAll_cons, merge_of_isLatest h, ih]
      simp [h]
    · refine iff_of_false (fun heq => ?_) (fun hall => h (hall r (mem_cons_self ..)))
      have hle := (sublist_mergeAll (log.merge r) rs).length_le
      rw [← mergeAll_cons, heq, length_merge h] at hle
      omega

/-! ## Duplicates -/

theorem classOf_merge {k : κ} : classOf key k (log.merge r).entries =
    if key r = k ∧ ¬ IsLatest key r log.entries then classOf key k log.entries ++ [r]
    else classOf key k log.entries := by
  by_cases h : IsLatest key r log.entries
  · rw [merge_of_isLatest h, if_neg fun hc => hc.2 h]
  · have hsplit := atMost_append_above (k := key r) log.sorted
    have happend : classOf key k log.entries =
        classOf key k (atMost key (key r) log.entries) ++ classOf key k (above key (key r) log.entries) := by
      rw [← classOf_append, hsplit]
    by_cases hk : key r = k
    · have hnil : classOf key k (above key (key r) log.entries) = [] :=
        filter_eq_nil_iff.mpr fun x hx => by
          have : key r < key x := by simpa using (mem_filter.mp hx).2
          simpa [← hk] using this.ne'
      rw [if_pos ⟨hk, h⟩, happend, hnil, merge_entries_of_not h, append_nil, append_cons,
        classOf_append, classOf_concat, if_pos hk, hnil, append_nil]
    · rw [if_neg fun hc => hk hc.1, happend, merge_entries_of_not h, append_cons, classOf_append,
        classOf_concat, if_neg hk]

theorem getLast?_classOf_merge {k : κ} : (classOf key k (log.merge r).entries).getLast? =
    if key r = k then some r else (classOf key k log.entries).getLast? := by
  rw [classOf_merge]
  by_cases hk : key r = k
  · by_cases h : IsLatest key r log.entries
    · rw [if_neg fun hc => hc.2 h, if_pos hk, ← hk]
      exact h
    · rw [if_pos ⟨hk, h⟩, if_pos hk, getLast?_concat]
  · rw [if_neg fun hc => hk hc.1, if_neg hk]

theorem getLast?_classOf_mergeAll {k : κ} : (classOf key k (log.mergeAll rs).entries).getLast? =
      (classOf key k (log.entries ++ rs)).getLast? := by
  induction rs using List.reverseRecOn with
  | nil => simp
  | append_singleton rs r ih =>
    rw [mergeAll_append, mergeAll_cons, mergeAll_nil, getLast?_classOf_merge, ← append_assoc, classOf_concat, ih]
    split <;> simp

theorem isLatest_mergeAll : IsLatest key r (log.mergeAll rs).entries ↔ IsLatest key r (log.entries ++ rs) := by
  rw [IsLatest, getLast?_classOf_mergeAll, IsLatest]

theorem mergeAll_skip {rs' : List α} (h : IsLatest key r (log.entries ++ rs)) :
    log.mergeAll (rs ++ r :: rs') = log.mergeAll (rs ++ rs') := by
  rw [mergeAll_append, mergeAll_append, mergeAll_cons, merge_of_isLatest (isLatest_mergeAll.mpr h)]

theorem nodup_merge_iff : (log.merge r).entries.Nodup ↔
    log.entries.Nodup ∧ (r ∈ log.entries → IsLatest key r log.entries) := by
  by_cases h : IsLatest key r log.entries
  · simp [merge_of_isLatest h, h]
  · rw [(merge_perm h).nodup_iff, nodup_cons, and_comm]
    simp [h]

end KeyedLog

theorem noReturn_concat [DecidableEq α] :
    NoReturn key (xs ++ [r]) ↔ NoReturn key xs ∧ (r ∈ xs → IsLatest key r xs) := by
  constructor
  · refine fun h => ⟨h.sublist (sublist_append_left ..), fun hr => ?_⟩
    have hmem : r ∈ classOf key (key r) xs := mem_classOf.mpr ⟨hr, rfl⟩
    obtain ⟨zs, y, hy⟩ := eq_nil_or_concat' (classOf key (key r) xs) |>.resolve_left (ne_nil_of_mem hmem)
    have hky : key y = key r := (mem_classOf.mp (hy ▸ mem_append_right zs (mem_singleton_self y))).2
    suffices hyr : y = r by rw [IsLatest, hy, getLast?_concat, hyr]
    rw [hy] at hmem
    rcases mem_append.mp hmem with hz | hz
    · refine h r y ?_ hky
      have hsub : [r, y] <+ xs := by
        refine Sublist.trans ?_ (filter_sublist (l := xs) (p := fun x => key x = key r))
        rw [← classOf, hy]
        exact (singleton_sublist.mpr hz).append (Sublist.refl [y])
      exact hsub.append (Sublist.refl [r])
    · exact (mem_singleton.mp hz).symm
  · rintro ⟨h, hlast⟩ a x hsub hk
    obtain ⟨l₁, l₂, heq, h₁, h₂⟩ := sublist_append_iff.mp hsub
    rcases sublist_singleton.mp h₂ with rfl | rfl
    · rw [append_nil] at heq
      exact h a x (heq ▸ h₁) hk
    · obtain ⟨rfl, har⟩ : [a, x] = l₁ ∧ a = r := by
        have : [a, x] ++ [a] = l₁ ++ [r] := heq
        simpa using append_inj' this rfl
      subst har
      have hcls : [a, x] <+ classOf key (key a) xs := by
        have := h₁.filter (fun y => key y = key a)
        rw [classOf]
        simpa [hk] using this
      obtain ⟨zs, hzs⟩ := getLast?_eq_some_iff.mp (hlast (h₁.subset (mem_cons_self ..)))
      -- Either `x` stands before the last occurrence of `a`, or it is that occurrence.
      rw [hzs] at hcls
      obtain ⟨l₁, l₂, heq, hz, hlast'⟩ := sublist_append_iff.mp hcls
      rcases sublist_singleton.mp hlast' with rfl | rfl
      · rw [append_nil] at heq
        have hret : [a, x] ++ [a] <+ classOf key (key a) xs :=
          hzs ▸ (heq ▸ hz).append (Sublist.refl [a])
        exact h a x (hret.trans filter_sublist) hk
      · have : [a] ++ [x] = l₁ ++ [a] := heq
        exact (by simpa using (append_inj' this rfl).2 : x = a)

namespace KeyedLog

theorem nodup_mergeAll_iff [DecidableEq α] {rs : List α} :
    (empty.mergeAll rs : KeyedLog α key).entries.Nodup ↔ NoReturn key rs := by
  induction rs using List.reverseRecOn with
  | nil => exact iff_of_true nodup_nil fun r x h => by simp at h
  | append_singleton rs r ih =>
    rw [mergeAll_append, mergeAll_cons, mergeAll_nil, nodup_merge_iff, ih, noReturn_concat,
      isLatest_mergeAll, mem_mergeAll, empty_entries, nil_append]
    simp

end KeyedLog

end DistDb.Lib
