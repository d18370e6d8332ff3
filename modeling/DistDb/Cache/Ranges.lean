import DistDb.Cache.Accessors
import DistDb.Cache.Lemmas.Answers

/-! # Ranges on a cache entry

The answer to a range is stored under a text of its bounds, which no other range has, and dropped with the next change
of a row. -/

namespace DistDb.Cache
open Lib Mutation Query

/-! ## Keys of ranges -/

theorem digitChar_injective : ∀ m < 16, ∀ n < 16, Nat.digitChar m = Nat.digitChar n → m = n := by decide

theorem digitChar_ne_bar : ∀ n < 16, '|' ≠ Nat.digitChar n := by decide

theorem hexByte_injective : Function.Injective hexByte := by
  intro b b' h
  have hb : b.toNat < 256 := b.toNat_lt
  have hb' : b'.toNat < 256 := b'.toNat_lt
  obtain ⟨hhigh, hlow⟩ : Nat.digitChar (b.toNat / 16) = Nat.digitChar (b'.toNat / 16) ∧
      Nat.digitChar (b.toNat % 16) = Nat.digitChar (b'.toNat % 16) := by simpa [hexByte] using h
  have hhigh' := digitChar_injective _ (by omega) _ (by omega) hhigh
  have hlow' := digitChar_injective _ (by omega) _ (by omega) hlow
  exact UInt8.toNat_inj.mp (by omega)

theorem flatMap_hexByte_injective :
    ∀ {bytes bytes' : Bytes}, bytes.flatMap hexByte = bytes'.flatMap hexByte → bytes = bytes'
  | [], [], _ => rfl
  | [], _ :: _, h => by simp [hexByte] at h
  | _ :: _, [], h => by simp [hexByte] at h
  | b :: bytes, b' :: bytes', h => by
    rw [List.flatMap_cons, List.flatMap_cons] at h
    obtain ⟨hhead, htail⟩ := List.append_inj h rfl
    rw [hexByte_injective hhead, flatMap_hexByte_injective htail]

theorem appendBoundKey_injective (label : Char) : Function.Injective (appendBoundKey label) := by
  rintro (_ | ⟨value, inclusive⟩) (_ | ⟨value', inclusive'⟩) h
  · rfl
  · cases inclusive' <;> simp [appendBoundKey] at h
  · cases inclusive <;> simp [appendBoundKey] at h
  · obtain ⟨hinclusive, hvalue⟩ : (if inclusive then '1' else '0') = (if inclusive' then '1' else '0') ∧
        value.flatMap hexByte = value'.flatMap hexByte := by simpa [appendBoundKey] using h
    rw [flatMap_hexByte_injective hvalue]
    cases inclusive <;> cases inclusive' <;> simp_all

theorem bar_notMem_appendBoundKey {label : Char} (h : '|' ≠ label) (bound : Option RangeBound) :
    '|' ∉ appendBoundKey label bound := by
  cases bound with
  | none => simp [appendBoundKey, h]
  | some bound =>
    have hhex : '|' ∉ bound.value.flatMap hexByte := by
      intro hmem
      obtain ⟨b, -, hb⟩ := List.mem_flatMap.mp hmem
      have hlt : b.toNat < 256 := b.toNat_lt
      simp only [hexByte, List.mem_cons, List.not_mem_nil, or_false] at hb
      rcases hb with hb | hb
      · exact digitChar_ne_bar _ (by omega) hb
      · exact digitChar_ne_bar _ (by omega) hb
    cases hinclusive : bound.inclusive <;> simpa [appendBoundKey, h, hinclusive] using hhex

theorem append_cons_cancel {α : Type} {x : α} {a a' b b' : List α} (hb : x ∉ b) (hb' : x ∉ b')
    (h : a ++ x :: b = a' ++ x :: b') : a = a' ∧ b = b' := by
  rcases List.append_eq_append_iff.mp h with ⟨c, rfl, hc⟩ | ⟨c, rfl, hc⟩
  · cases c with
    | nil => simpa using hc
    | cons y c => exact absurd (by simp [(List.cons.inj hc).2]) hb
  · cases c with
    | nil => simpa [eq_comm] using hc
    | cons y c => exact absurd (by simp [(List.cons.inj hc).2]) hb'

/-- Two ranges have the same key only if they are the same. A field may have any name: the bounds have no bar. -/
theorem rangeBoundsCacheKey_injective : Function.Injective rangeBoundsCacheKey := by
  rintro ⟨fieldName, lower, upper⟩ ⟨fieldName', lower', upper'⟩ h
  have hupper : ∀ bound, '|' ∉ appendBoundKey 'u' bound := bar_notMem_appendBoundKey (by decide)
  have hlower : ∀ bound, '|' ∉ appendBoundKey 'l' bound := bar_notMem_appendBoundKey (by decide)
  have hchars := String.ofList_injective h
  rw [← List.cons_append, ← List.append_assoc, ← List.cons_append, ← List.append_assoc] at hchars
  obtain ⟨hhead, hu⟩ := append_cons_cancel (hupper _) (hupper _) hchars
  obtain ⟨hname, hl⟩ := append_cons_cancel (hlower _) (hlower _) hhead
  obtain rfl : fieldName = fieldName' := String.toList_injective hname
  obtain rfl : lower = lower' := appendBoundKey_injective 'l' hl
  obtain rfl : upper = upper' := appendBoundKey_injective 'u' hu
  rfl

namespace AccessorEntry

variable {prims : ValuePrimitives} {entry : AccessorEntry} {rowId : UInt64} {row : RowMap} {fieldName : String}
  {filters : List RangeFilterBounds} {filter : RangeFilterBounds} {values : List Bytes}

/-! ## Answers -/

def rowsWithin (prims : ValuePrimitives) (entry : AccessorEntry) (filters : List RangeFilterBounds) : List LiveRow :=
  entry.rowsById.filter fun row => filters.all (matchesFilter prims row.2)

/-- Range lookups give the rows within the ranges. -/
def AnswersRanges (prims : ValuePrimitives) (entry : AccessorEntry) : Prop :=
  ∀ filters values, (∀ filter ∈ filters.head?, (entry.rowIdsByFieldValue filter.fieldName).isSome = true ∧
      entry.ListedValues filter.fieldName values) →
    (entry.rowsForRangeFilters prims filters values).2.Perm (entry.rowsWithin prims filters)

/-- Postings are right about the ids that have rows, and stored answers are those of the postings. -/
structure Ranged (prims : ValuePrimitives) (entry : AccessorEntry) : Prop where
  nodup : (entry.rowsById.map Prod.fst).Nodup
  finite : ∀ fieldName, ∀ postings ∈ entry.rowIdsByFieldValue fieldName, {value | postings value ≠ []}.Finite
  lists : ∀ fieldName, ∀ postings ∈ entry.rowIdsByFieldValue fieldName,
    Inverted.Lists postings {rowId | (entry.row rowId).isSome = true} (entry.valueOf fieldName)
  stored : ∀ filter rowIds, entry.rangeRowIdsCache (rangeBoundsCacheKey filter) = some rowIds →
    ∃ postings ∈ entry.rowIdsByFieldValue filter.fieldName, ∃ values, Inverted.Listed postings values ∧
      rowIds = (values.filter (valueWithinRange prims filter)).flatMap postings

/-- A row that is inserted has no postings yet. -/
def KeepsRanges (entry : AccessorEntry) : AccessorOp → Prop
  | .insert rowId _ => ∀ fieldName, ∀ postings ∈ entry.rowIdsByFieldValue fieldName, ∀ value, rowId ∉ postings value
  | _ => True

theorem count_rowsForIds (rowIds : List UInt64) :
    (entry.rowsForIds rowIds).count (rowId, row) = if entry.row rowId = some row then rowIds.count rowId else 0 := by
  induction rowIds with
  | nil => simp [EqualityTableCacheEntry.rowsForIds]
  | cons head rowIds ih =>
    unfold EqualityTableCacheEntry.rowsForIds at ih ⊢
    rw [List.filterMap_cons]
    by_cases hhead : head = rowId
    · subst hhead
      cases hrow : entry.row head with
      | none => simpa [hrow] using ih
      | some fields =>
        by_cases heq : fields = row
        · simpa [hrow, heq] using ih
        · simpa [hrow, heq, Ne.symm heq] using ih
    · rw [List.count_cons_of_ne hhead, ← ih]
      cases entry.row head with
      | none => rfl
      | some fields => exact List.count_cons_of_ne (by simp [hhead])

theorem count_rowsById (h : (entry.rowsById.map Prod.fst).Nodup) :
    entry.rowsById.count (rowId, row) = if entry.row rowId = some row then 1 else 0 := by
  have hiff : (rowId, row) ∈ entry.rowsById ↔ entry.row rowId = some row := Mirrors.mem_iff_lookup h
  rw [List.Nodup.count h.of_map]
  simp only [hiff]

theorem count_filter {α : Type} [BEq α] [LawfulBEq α] (p : α → Bool) (as : List α) (a : α) :
    (as.filter p).count a = if p a = true then as.count a else 0 := by
  by_cases h : p a = true
  · rw [if_pos h, List.count_filter h]
  · rw [if_neg h, List.count_eq_zero]
    exact fun hmem => h (List.mem_filter.mp hmem).2

theorem Ranged.count_rowIds (h : entry.Ranged prims) (hsome : (entry.rowIdsByFieldValue filter.fieldName).isSome = true)
    (hlisted : entry.ListedValues filter.fieldName values) (hrow : (entry.row rowId).isSome = true) :
    (entry.rowIdsForFieldRange prims filter values).2.count rowId =
      if (entry.valueOf filter.fieldName rowId).any (valueWithinRange prims filter) = true then 1 else 0 := by
  unfold rowIdsForFieldRange
  cases hstored : entry.rangeRowIdsCache (rangeBoundsCacheKey filter) with
  | some rowIds =>
    obtain ⟨postings, hmem, order, horder, rfl⟩ := h.stored filter rowIds hstored
    exact (h.lists filter.fieldName postings hmem).count_flatMap horder hrow _
  | none =>
    obtain ⟨postings, hmem⟩ := Option.isSome_iff_exists.mp hsome
    rw [hmem]
    exact (h.lists filter.fieldName postings hmem).count_flatMap (hlisted postings hmem) hrow _

theorem Ranged.answersRanges (h : entry.Ranged prims) : entry.AnswersRanges prims := by
  intro filters values hanchor
  cases filters with
  | nil => simp [rowsForRangeFilters, rowsWithin]
  | cons anchor remaining =>
    obtain ⟨hsome, hlisted⟩ := hanchor anchor rfl
    refine List.perm_iff_count.mpr fun ⟨rowId, row⟩ => ?_
    have hrows : (entry.rowsForRangeFilters prims (anchor :: remaining) values).2 =
        (entry.rowsForIds (entry.rowIdsForFieldRange prims anchor values).2).filter fun row =>
          remaining.all (matchesFilter prims row.2) := by
      rw [← rowIdsForFieldRange_base.1]
      rfl
    rw [hrows, rowsWithin, count_filter, count_filter, count_rowsForIds, count_rowsById h.nodup]
    by_cases hrow : entry.row rowId = some row
    · rw [h.count_rowIds hsome hlisted (by simp [hrow])]
      have hvalue : (entry.valueOf anchor.fieldName rowId).any (valueWithinRange prims anchor) =
          matchesFilter prims row anchor := by simp [valueOf, hrow, matchesFilter]
      rw [hvalue, if_pos hrow, if_pos hrow, List.all_cons]
      cases matchesFilter prims row anchor <;> simp
    · simp [hrow]

theorem rowsForRangeFilters_of_unposted (h : entry.Ranged prims)
    (hnone : entry.rowIdsByFieldValue filter.fieldName = none) :
    (entry.rowsForRangeFilters prims (filter :: filters) values).2 = [] := by
  have hstored : entry.rangeRowIdsCache (rangeBoundsCacheKey filter) = none := by
    refine Option.eq_none_iff_forall_ne_some.mpr fun rowIds hstored => ?_
    obtain ⟨postings, hmem, -⟩ := h.stored filter rowIds hstored
    exact Option.not_mem_none _ (hnone ▸ hmem)
  simp [rowsForRangeFilters, rowIdsForFieldRange, hstored, hnone, EqualityTableCacheEntry.rowsForIds]

/-! ## Steps -/

theorem Ranged.insert (h : entry.Ranged prims) (hkeeps : entry.KeepsRanges (.insert rowId row)) :
    (entry.applyCachedRowInsert prims rowId row).Ranged prims where
  nodup := nodup_insert h.nodup
  finite fieldName postings hpostings := by
    obtain ⟨old, hmem, rfl⟩ := Option.map_eq_some_iff.mp (postings_insert.symm.trans hpostings)
    exact Inverted.finite_modify (h.finite fieldName old hmem) _
  lists fieldName postings hpostings := by
    obtain ⟨old, hmem, rfl⟩ := Option.map_eq_some_iff.mp (postings_insert.symm.trans hpostings)
    have hids : {other | ((entry.applyCachedRowInsert prims rowId row).row other).isSome = true} =
        Insert.insert rowId {other | (entry.row other).isSome = true} := by
      ext other
      by_cases heq : other = rowId <;> simp [row_insert, heq]
    rw [hids]
    exact (Inverted.Lists.append_iff (fun other hother => h.lists fieldName old hmem other hother.1) valueOf_insert_self
      fun _ hne => valueOf_insert_of_ne hne).mpr (hkeeps fieldName old hmem)
  stored _ _ hstored := absurd hstored (Option.some_ne_none _).symm

theorem Ranged.delete (h : entry.Ranged prims) : (entry.applyCachedRowDelete prims rowId row).Ranged prims where
  nodup := nodup_delete h.nodup
  finite fieldName postings hpostings := by
    obtain ⟨old, hmem, rfl⟩ := Option.map_eq_some_iff.mp (postings_delete.symm.trans hpostings)
    exact Inverted.finite_modify (h.finite fieldName old hmem) _
  lists fieldName postings hpostings := by
    obtain ⟨old, hmem, rfl⟩ := Option.map_eq_some_iff.mp (postings_delete.symm.trans hpostings)
    have hids : {other | ((entry.applyCachedRowDelete prims rowId row).row other).isSome = true} =
        {other | (entry.row other).isSome = true} \ {rowId} := by
      ext other
      by_cases heq : other = rowId <;> simp [row_delete, heq]
    rw [hids]
    exact (h.lists fieldName old hmem).filter fun _ hne => valueOf_delete_of_ne hne
  stored _ _ hstored := absurd hstored (Option.some_ne_none _).symm

theorem Ranged.ensureFieldPostings (h : entry.Ranged prims) (fieldName : String) :
    (entry.ensureFieldPostings fieldName).Ranged prims := by
  unfold AccessorEntry.ensureFieldPostings EqualityTableCacheEntry.ensureFieldPostings
  cases hfield : entry.rowIdsByFieldValue fieldName with
  | some _ => exact h
  | none =>
    have hother : ∀ {name postings}, postings ∈ entry.rowIdsByFieldValue name → name ≠ fieldName := by
      rintro name postings hmem rfl
      exact Option.not_mem_none _ (hfield ▸ hmem)
    refine ⟨h.nodup, fun name postings hpostings => ?_, fun name postings hpostings => ?_,
      fun filter rowIds hstored => ?_⟩
    · by_cases hname : name = fieldName
      · subst hname
        simp only [Function.update_self, Option.mem_some_iff] at hpostings
        subst hpostings
        exact Inverted.finite_group entry.rowsById (·.lookup name)
      · simp only [Function.update_of_ne hname] at hpostings
        exact h.finite name postings hpostings
    · by_cases hname : name = fieldName
      · subst hname
        simp only [Function.update_self, Option.mem_some_iff] at hpostings
        subst hpostings
        exact fun rowId _ => Inverted.lists_group h.nodup (·.lookup name) rowId trivial
      · simp only [Function.update_of_ne hname] at hpostings
        exact h.lists name postings hpostings
    · obtain ⟨postings, hmem, hrest⟩ := h.stored filter rowIds hstored
      exact ⟨postings, (Function.update_of_ne (hother hmem) ..).trans hmem, hrest⟩

theorem Ranged.of_base {other : AccessorEntry} (h : entry.Ranged prims)
    (hbase : other.toEqualityTableCacheEntry = entry.toEqualityTableCacheEntry)
    (hstored : ∀ filter rowIds, other.rangeRowIdsCache (rangeBoundsCacheKey filter) = some rowIds →
      ∃ postings ∈ entry.rowIdsByFieldValue filter.fieldName, ∃ values, Inverted.Listed postings values ∧
        rowIds = (values.filter (valueWithinRange prims filter)).flatMap postings) : other.Ranged prims := by
  obtain ⟨base, strings, cache⟩ := other
  obtain rfl : base = entry.toEqualityTableCacheEntry := hbase
  exact ⟨h.nodup, h.finite, h.lists, hstored⟩

theorem Ranged.range (h : entry.Ranged prims) (hordered : entry.Ordered (.range filters values)) :
    (entry.rowsForRangeFilters prims filters values).1.Ranged prims := by
  refine h.of_base rowsForRangeFilters_base.1 fun filter rowIds hstored => ?_
  cases filters with
  | nil => exact h.stored filter rowIds hstored
  | cons anchor remaining =>
    change (entry.rowIdsForFieldRange prims anchor values).1.rangeRowIdsCache _ = _ at hstored
    unfold rowIdsForFieldRange at hstored
    split at hstored
    · exact h.stored filter rowIds hstored
    · split at hstored
      · exact h.stored filter rowIds hstored
      · rename_i postings hmem
        by_cases hkey : rangeBoundsCacheKey filter = rangeBoundsCacheKey anchor
        · obtain rfl := rangeBoundsCacheKey_injective hkey
          simp only [Function.update_self, Option.some.injEq] at hstored
          exact ⟨postings, hmem, values, hordered filter rfl postings hmem, hstored.symm⟩
        · simp only [Function.update_of_ne hkey] at hstored
          exact h.stored filter rowIds hstored

theorem Ranged.apply (h : entry.Ranged prims) {op : AccessorOp} (hordered : entry.Ordered op)
    (hkeeps : entry.KeepsRanges op) : (entry.apply prims op).Ranged prims := by
  cases op with
  | insert rowId row => exact h.insert hkeeps
  | delete rowId row => exact h.delete
  | ensurePostings fieldName => exact h.ensureFieldPostings fieldName
  | ensureStringIndex fieldName caseInsensitive values =>
    refine h.of_base ensureStringLikeIndex_base fun filter rowIds hstored => h.stored filter rowIds ?_
    rw [← hstored, AccessorEntry.apply, ensureStringLikeIndex]
    split <;> rfl
  | range filters values => exact h.range hordered

theorem Ranged.keepsRanges (h : entry.Ranged prims) {op : AccessorOp}
    (hanswers : (entry.apply prims op).AnswersRanges prims) :
    entry.KeepsRanges op := by
  cases op with
  | insert rowId row =>
    intro fieldName postings hmem
    have hnew : Inverted.modify postings (row.lookup fieldName) (· ++ [rowId]) ∈
        (entry.applyCachedRowInsert prims rowId row).rowIdsByFieldValue fieldName :=
      postings_insert.trans (congrArg (Option.map _) hmem)
    obtain ⟨values, hlisted⟩ := Inverted.exists_listed (Inverted.finite_modify (f := (· ++ [rowId]))
      (h.finite fieldName postings hmem) (row.lookup fieldName))
    have hperm := hanswers [⟨fieldName, none, none⟩] values fun filter hfilter => by
      obtain rfl := Option.some.inj hfilter
      refine ⟨Option.isSome_of_mem hnew, fun other hother => ?_⟩
      obtain rfl := Option.mem_unique hnew hother
      exact hlisted
    have hrow : (entry.applyCachedRowInsert prims rowId row).row rowId = some row := by rw [row_insert, if_pos rfl]
    have hrows : ((entry.applyCachedRowInsert prims rowId row).rowsForRangeFilters prims
      [⟨fieldName, none, none⟩] values).2 =
        (entry.applyCachedRowInsert prims rowId row).rowsForIds
          (values.flatMap (Inverted.modify postings (row.lookup fieldName) (· ++ [rowId]))) := by
      have hcache : (entry.applyCachedRowInsert prims rowId row).rangeRowIdsCache
          (rangeBoundsCacheKey ⟨fieldName, none, none⟩) = none := rfl
      have hwhole : valueWithinRange prims ⟨fieldName, none, none⟩ = fun _ => true := rfl
      simp [rowsForRangeFilters, rowIdsForFieldRange, hcache, Option.mem_def.mp hnew, hwhole,
        EqualityTableCacheEntry.rowsForIds, EqualityTableCacheEntry.row]
    have hcount := hperm.count_eq (rowId, row)
    rw [AccessorEntry.apply, hrows, rowsWithin, count_filter, count_rowsForIds, count_rowsById (nodup_insert h.nodup),
      if_pos hrow, if_pos hrow] at hcount
    have hmatches : matchesFilter prims row ⟨fieldName, none, none⟩ = (row.lookup fieldName).isSome := by
      unfold matchesFilter
      cases row.lookup fieldName <;> rfl
    exact Inverted.notMem_of_count_append hlisted (hcount.trans (by simp [hmatches]))
  | _ => trivial

/-! ## Runs -/

theorem ranged_ofRows (latestTxId : UInt64) {rows : List LiveRow} (approxRowsBytes : ℕ)
    (hnodup : (rows.map Prod.fst).Nodup) : (ofRows latestTxId rows approxRowsBytes).Ranged prims :=
  ⟨hnodup, fun _ _ hnone => absurd hnone (Option.not_mem_none _),
    fun _ _ hnone => absurd hnone (Option.not_mem_none _), fun _ _ hnone => absurd hnone (Option.some_ne_none _).symm⟩

/-- Ranges are answered right throughout a run if and only if no id is inserted while it has postings. Then a first
filter on a field without postings finds nothing. -/
theorem ranges_answered_iff (prims : ValuePrimitives) (latestTxId : UInt64) (rows : List LiveRow)
    (approxRowsBytes : ℕ) (hnodup : (rows.map Prod.fst).Nodup) (ops : List AccessorOp)
    (hordered : Along (apply prims) Ordered (ofRows latestTxId rows approxRowsBytes) ops) :
    ((∀ n, (runFrom (apply prims) (ofRows latestTxId rows approxRowsBytes) (ops.take n)).AnswersRanges prims) ↔
      Along (apply prims) KeepsRanges (ofRows latestTxId rows approxRowsBytes) ops) ∧
    (Along (apply prims) KeepsRanges (ofRows latestTxId rows approxRowsBytes) ops →
      let entry := runFrom (apply prims) (ofRows latestTxId rows approxRowsBytes) ops
      ∀ filter filters values, entry.rowIdsByFieldValue filter.fieldName = none →
        (entry.rowsForRangeFilters prims (filter :: filters) values).2 = []) := by
  constructor
  · exact Along.forall_take_iff (C := Ordered) (I := Ranged prims)
      (fun entry op hop h => ⟨h.apply hop, h.keepsRanges⟩) (fun _ h => h.answersRanges) hordered
      (ranged_ofRows latestTxId approxRowsBytes hnodup)
  · intro hkeeps
    have hranged : (runFrom (apply prims) (ofRows latestTxId rows approxRowsBytes) ops).Ranged prims :=
      (hordered.and hkeeps).invariant (I := Ranged prims) (fun _ _ hop h => h.apply hop.1 hop.2)
        (ranged_ofRows latestTxId approxRowsBytes hnodup)
    exact fun _ _ _ hnone => rowsForRangeFilters_of_unposted hranged hnone

theorem fresh_row_ranged :
    ([((1 : UInt64), noted "a")].map Prod.fst).Nodup ∧
    ∀ n, (runFrom (apply .plain) (ofRows 0 [(1, noted "a")] 0)
      ([.ensurePostings "note", .insert 2 (noted "A")].take n)).AnswersRanges .plain := by
  refine ⟨List.nodup_singleton _, (ranges_answered_iff .plain 0 [(1, noted "a")] 0 (List.nodup_singleton _)
    [.ensurePostings "note", .insert 2 (noted "A")] ⟨trivial, trivial, trivial⟩).1.mpr ⟨trivial, ?_, trivial⟩⟩
  intro fieldName postings hpostings value hmem
  by_cases hname : fieldName = "note"
  · subst hname
    obtain rfl := Option.some.inj hpostings
    obtain ⟨row, hrow, hid⟩ := List.mem_map.mp hmem
    obtain rfl := List.mem_singleton.mp (List.mem_filter.mp hrow).1
    exact absurd hid (by decide)
  · exact absurd ((Function.update_of_ne hname _ _).symm.trans hpostings) (Option.some_ne_none _).symm

/-- A row that is inserted again is found in the range of its old value. -/
theorem reinserted_row_ranged :
    let entry := runFrom (apply .plain) (ofRows 0 [] 0)
      [.ensurePostings "note", .insert 1 (noted "a"), .insert 1 (noted "z")]
    let filters := [⟨"note", none, some ⟨utf8Bytes "b", true⟩⟩]
    (entry.rowsForRangeFilters .plain filters [utf8Bytes "a", utf8Bytes "z"]).2 = [(1, noted "z")] ∧
      entry.rowsWithin .plain filters = [] := by
  decide +kernel

end AccessorEntry

end DistDb.Cache
