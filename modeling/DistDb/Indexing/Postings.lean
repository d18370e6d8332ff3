import DistDb.Lib.Maps
import DistDb.Table.RuntimeIndex

/-! # Postings of the runtime indexes

An index keeps one reference in the entry of a key and several in its postings. Rows may be indexed by any
key that is made of their values. -/

namespace DistDb
open Lib

namespace RuntimeIndexState

variable {state state' : RuntimeIndexState} {key k : KeyTuple} {refs : Finset UInt64} {rowRef : UInt64}

/-! ## One key -/

/-- The forms in which a key has its references. -/
inductive Posted (state : RuntimeIndexState) (key : KeyTuple) : Finset UInt64 → Prop
  | absent (entry : state.entries.lookup key = none) (postings : state.nonUniqueRowRefs.lookup key = none) :
      Posted state key ∅
  | single (rowRef : UInt64) (entry : state.entries.lookup key = some (some rowRef))
      (postings : state.nonUniqueRowRefs.lookup key = none) : Posted state key {rowRef}
  | many (refs : Finset UInt64) (entry : state.entries.lookup key = some none)
      (postings : state.nonUniqueRowRefs.lookup key = some refs) (card : 2 ≤ refs.card) :
      Posted state key refs

namespace Posted

theorem congr (h : Posted state key refs) (hentries : state'.entries.lookup key = state.entries.lookup key)
    (hpostings : state'.nonUniqueRowRefs.lookup key = state.nonUniqueRowRefs.lookup key) :
    Posted state' key refs := by
  cases h with
  | absent entry postings => exact absent (hentries.trans entry) (hpostings.trans postings)
  | single rowRef entry postings => exact single rowRef (hentries.trans entry) (hpostings.trans postings)
  | many refs entry postings card => exact many refs (hentries.trans entry) (hpostings.trans postings) card

theorem rowRefsForKey_eq (h : Posted state key refs)
    (hunique : state.index.elim false (·.isUniqueKey) = true → refs.card ≤ 1) :
    state.rowRefsForKey key = refs := by
  unfold rowRefsForKey
  cases h with
  | absent entry postings => simp [entry, postings]
  | single rowRef entry postings => simp [entry]
  | many refs entry postings card =>
    have hnot : ¬ state.index.elim false (·.isUniqueKey) = true := fun h => by
      have := hunique h
      omega
    simp [entry, postings, hnot]

theorem postings_eq_none (h : Posted state key refs) (hcard : refs.card ≤ 1) :
    state.nonUniqueRowRefs.lookup key = none := by
  cases h with
  | absent entry postings => exact postings
  | single rowRef entry postings => exact postings
  | many refs entry postings card => omega

theorem insert (h : Posted state key refs) (hfits : rowRef.toNat + 1 < 2 ^ 64) (hnew : rowRef ∉ refs)
    (hunique : state.isUniqueKey = true → refs = ∅) :
    Posted (state.insertWithRowRef key (some rowRef)) key (insert rowRef refs) := by
  have hpack : (some rowRef).bind packRowRef = some rowRef := if_pos hfits
  unfold insertWithRowRef
  rw [hpack]
  by_cases hkey : state.isUniqueKey = true
  · obtain rfl := hunique hkey
    rw [if_pos hkey, insert_empty_eq]
    exact single rowRef (by simp) (h.postings_eq_none (by simp))
  · rw [if_neg hkey]
    cases h with
    | absent entry postings =>
      simp only [entry, insert_empty_eq]
      exact single rowRef (by simp) postings
    | single existing entry postings =>
      have hother : existing ≠ rowRef := fun heq => hnew (by simp [heq])
      simp only [entry, if_neg hother]
      refine many _ (by simp) ?_ ?_
      · simp [Finset.pair_comm]
      · rw [Finset.card_insert_of_notMem hnew, Finset.card_singleton]
    | many refs entry postings card =>
      simp only [entry, postings, Option.getD_some]
      refine many _ entry (by simp) ?_
      rw [Finset.card_insert_of_notMem hnew]
      omega

theorem insert_ne (h : Posted state k refs) (hk : k ≠ key) :
    Posted (state.insertWithRowRef key (some rowRef)) k refs := by
  refine h.congr ?_ ?_
  all_goals
    unfold insertWithRowRef
    repeat' split
    all_goals first | rfl | exact Finmap.lookup_insert_of_ne _ hk

theorem replace (hentry : state.entries.lookup key = some none) (hne : refs ≠ ∅) :
    Posted (state.replacePostings key refs) key refs := by
  unfold replacePostings
  split
  · rename_i hsort
    refine absurd ?_ hne
    rw [← toFinset_sortRowRefs refs, hsort, List.toFinset_nil]
  · rename_i last hsort
    obtain rfl : refs = {last} := by
      rw [← toFinset_sortRowRefs refs, hsort]
      simp
    exact single last (by simp) (Finmap.lookup_erase ..)
  · rename_i hnone hone
    refine many _ hentry (by simp) ?_
    have hpos := Finset.card_pos.mpr (Finset.nonempty_iff_ne_empty.mpr hne)
    by_contra hlt
    have hlength : (sortRowRefs refs).length = 1 := by
      rw [sortRowRefs, Finset.length_sort]
      omega
    obtain ⟨last, hlast⟩ := List.length_eq_one_iff.mp hlength
    exact hone last hlast

theorem remove (h : Posted state key refs) (hfits : rowRef.toNat + 1 < 2 ^ 64) (hmem : rowRef ∈ refs)
    (hunique : state.isUniqueKey = true → refs.card ≤ 1) :
    Posted (state.removeWithRowRef key (some rowRef)) key (refs.erase rowRef) := by
  have hpack : packRowRef rowRef = some rowRef := if_pos hfits
  unfold removeWithRowRef
  cases h with
  | absent entry postings => simp at hmem
  | single existing entry postings =>
    obtain rfl := Finset.mem_singleton.mp hmem
    have herased : Posted { state with entries := state.entries.erase key } key
        (({rowRef} : Finset UInt64).erase rowRef) := by
      rw [Finset.erase_singleton]
      exact absent (Finmap.lookup_erase ..) postings
    split
    · exact herased
    · simpa [entry, hpack] using herased
  | many refs entry postings card =>
    have hne : refs.erase rowRef ≠ ∅ := fun hempty => by
      have := Finset.card_erase_of_mem hmem
      rw [hempty, Finset.card_empty] at this
      omega
    rw [if_neg fun hkey => by have := hunique hkey; omega]
    simp only [entry, Option.bind_some, hpack, postings]
    exact replace entry hne

theorem remove_ne (h : Posted state k refs) (hk : k ≠ key) (rowRef : Option UInt64) :
    Posted (state.removeWithRowRef key rowRef) k refs := by
  refine h.congr ?_ ?_
  all_goals
    unfold removeWithRowRef replacePostings removeKey
    repeat' split
    all_goals first
      | rfl
      | exact Finmap.lookup_erase_ne hk
      | exact Finmap.lookup_insert_of_ne _ hk

theorem removeAll (h : Posted state key refs) (hunique : state.isUniqueKey = true → refs.card ≤ 1) :
    Posted (state.removeWithRowRef key none) key ∅ := by
  unfold removeWithRowRef
  split
  · rename_i hkey
    exact absent (Finmap.lookup_erase ..) (h.postings_eq_none (hunique hkey))
  · cases h with
    | absent entry postings =>
      simp only [entry]
      exact absent entry postings
    | single existing entry postings =>
      simp only [entry, Option.elim_none, ↓reduceIte]
      exact absent (Finmap.lookup_erase ..) postings
    | many refs entry postings card =>
      simp only [entry, Option.bind_none]
      exact absent (Finmap.lookup_erase ..) (Finmap.lookup_erase ..)

end Posted

/-! ## All keys -/

theorem index_insertWithRowRef (rowRef : Option UInt64) : (state.insertWithRowRef key rowRef).index = state.index := by
  unfold insertWithRowRef
  repeat' split
  all_goals rfl

theorem index_removeWithRowRef (rowRef : Option UInt64) : (state.removeWithRowRef key rowRef).index = state.index := by
  unfold removeWithRowRef replacePostings removeKey
  repeat' split
  all_goals rfl

variable {keyOf : RowMap → KeyTuple} {rows : List (UInt64 × RowMap)} {row : UInt64 × RowMap}

def refsBy (keyOf : RowMap → KeyTuple) (rows : List (UInt64 × RowMap)) (key : KeyTuple) : Finset UInt64 :=
  ((rows.filter fun row => keyOf row.2 = key).map Prod.fst).toFinset

theorem mem_refsBy : rowRef ∈ refsBy keyOf rows key ↔ ∃ row ∈ rows, keyOf row.2 = key ∧ row.1 = rowRef := by
  simp [refsBy, and_assoc]

theorem refsBy_concat_eq :
    refsBy keyOf (rows ++ [row]) (keyOf row.2) = insert row.1 (refsBy keyOf rows (keyOf row.2)) := by
  ext rowRef
  simp only [mem_refsBy, Finset.mem_insert, List.mem_append, List.mem_singleton, or_and_right, exists_or]
  rw [or_comm]
  simp [eq_comm]

theorem refsBy_concat_ne (hk : k ≠ keyOf row.2) : refsBy keyOf (rows ++ [row]) k = refsBy keyOf rows k := by
  ext rowRef
  simp only [mem_refsBy, List.mem_append, List.mem_singleton, or_and_right, exists_or, exists_eq_left]
  simp [hk.symm]

theorem refsBy_filter (keep : UInt64 → Bool) :
    refsBy keyOf (rows.filter fun row => keep row.1) k = (refsBy keyOf rows k).filter (keep · = true) := by
  ext rowRef
  simp only [mem_refsBy, Finset.mem_filter, List.mem_filter]
  constructor
  · rintro ⟨row, ⟨hrow, hkeep⟩, hkey, rfl⟩
    exact ⟨⟨row, hrow, hkey, rfl⟩, hkeep⟩
  · rintro ⟨⟨row, hrow, hkey, rfl⟩, hkeep⟩
    exact ⟨row, ⟨hrow, hkeep⟩, hkey, rfl⟩

theorem notMem_refsBy (h : row.1 ∉ rows.map Prod.fst) (key : KeyTuple) : row.1 ∉ refsBy keyOf rows key := by
  intro hmem
  obtain ⟨other, hother, -, heq⟩ := mem_refsBy.mp hmem
  exact h (heq ▸ List.mem_map_of_mem hother)

theorem keyOf_eq_of_mem_refsBy (hnodup : (rows.map Prod.fst).Nodup) (hmem : row ∈ rows)
    (hin : row.1 ∈ refsBy keyOf rows key) : keyOf row.2 = key := by
  obtain ⟨other, hother, hkey, heq⟩ := mem_refsBy.mp hin
  rw [← hkey, List.inj_on_of_nodup_map hnodup hother hmem heq]

def numberRows : UInt64 → List RowMap → List (UInt64 × RowMap)
  | _, [] => []
  | id, row :: rows => (id, row) :: numberRows (RuntimeIndexStore.nextRowRef id) rows

def PostedAll (state : RuntimeIndexState) (keyOf : RowMap → KeyTuple) (rows : List (UInt64 × RowMap)) : Prop :=
  ∀ key, Posted state key (refsBy keyOf rows key)

namespace PostedAll

theorem congr (h : PostedAll state keyOf rows) (hentries : state'.entries = state.entries)
    (hpostings : state'.nonUniqueRowRefs = state.nonUniqueRowRefs) : PostedAll state' keyOf rows :=
  fun key => (h key).congr (by rw [hentries]) (by rw [hpostings])

theorem empty (hentries : state.entries = ∅) (hpostings : state.nonUniqueRowRefs = ∅) :
    PostedAll state keyOf [] := fun key =>
  .absent (by rw [hentries]; exact Finmap.lookup_empty _) (by rw [hpostings]; exact Finmap.lookup_empty _)

theorem insert (h : PostedAll state keyOf rows) (hfits : row.1.toNat + 1 < 2 ^ 64) (hnew : row.1 ∉ rows.map Prod.fst)
    (hunique : state.isUniqueKey = true → refsBy keyOf rows (keyOf row.2) = ∅) :
    PostedAll (state.insertWithRowRef (keyOf row.2) (some row.1)) keyOf (rows ++ [row]) := by
  intro key
  by_cases hkey : key = keyOf row.2
  · subst hkey
    rw [refsBy_concat_eq]
    exact (h _).insert hfits (notMem_refsBy hnew _) hunique
  · rw [refsBy_concat_ne hkey]
    exact (h key).insert_ne hkey

theorem remove (h : PostedAll state keyOf rows) (hfits : row.1.toNat + 1 < 2 ^ 64) (hmem : row ∈ rows)
    (hnodup : (rows.map Prod.fst).Nodup)
    (hunique : state.isUniqueKey = true → (refsBy keyOf rows (keyOf row.2)).card ≤ 1) :
    PostedAll (state.removeWithRowRef (keyOf row.2) (some row.1)) keyOf (rows.filter fun other => other.1 ≠ row.1) := by
  intro key
  have hrefs : refsBy keyOf (rows.filter fun other => other.1 ≠ row.1) key = (refsBy keyOf rows key).erase row.1 := by
    refine (refsBy_filter fun id => decide (id ≠ row.1)).trans ?_
    ext rowRef
    simp [and_comm]
  rw [hrefs]
  by_cases hkey : key = keyOf row.2
  · subst hkey
    exact (h _).remove hfits (mem_refsBy.mpr ⟨row, hmem, rfl, rfl⟩) hunique
  · rw [Finset.erase_eq_of_notMem fun hin => hkey (keyOf_eq_of_mem_refsBy hnodup hmem hin).symm]
    exact (h key).remove_ne hkey _

end PostedAll

end RuntimeIndexState

end DistDb
