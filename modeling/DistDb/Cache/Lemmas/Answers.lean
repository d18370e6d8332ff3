import DistDb.Cache.Equality
import DistDb.Indexing.Postings

/-! # Answers of the caches

A cache entry that holds some rows answers for those rows, and so do the scan and the row references
of an index. -/

namespace DistDb.Mutation
open Lib Wal Execution RuntimeIndexState

variable {env : WriteEnv} {log records : List TransactionRecord} {record : TransactionRecord}
  {aborted : Finset UInt64}

/-! ## Positions -/

structure Aligned (log : List TransactionRecord) : Prop where
  nonempty : log ≠ []
  key_eq : ∀ (i : ℕ) (record : TransactionRecord), log[i]? = some record → record.key = i

namespace Aligned

theorem inOrder (h : Aligned log) : InOrder log := by
  refine List.pairwise_iff_getElem.mpr fun i j hi hj hlt => ?_
  rw [h.key_eq i _ (List.getElem?_eq_getElem hi), h.key_eq j _ (List.getElem?_eq_getElem hj)]
  exact hlt

end Aligned

end DistDb.Mutation

namespace DistDb.Cache
open Lib Wal Execution Mutation

variable {env : CacheEnv} {filters : EqualityFilters} {rows : List LiveRow}

/-! ## Cache entries -/

theorem EqualityTableCacheEntry.withoutRow_eq_self {entry : EqualityTableCacheEntry} {rowId : UInt64}
    (hnew : rowId ∉ entry.rowsById.map Prod.fst) : entry.withoutRow rowId = entry.rowsById := by
  refine List.filter_eq_self.mpr fun row hrow => ?_
  have hne : row.1 ≠ rowId := fun heq => hnew (heq ▸ List.mem_map_of_mem hrow)
  simpa using hne

/-- The entry has these rows, and postings that are built from them. -/
structure Mirrors (entry : EqualityTableCacheEntry) (rows : List LiveRow) : Prop where
  rowsById : entry.rowsById = rows
  postings : ∀ fieldName postings, entry.rowIdsByFieldValue fieldName = some postings →
    postings = EqualityTableCacheEntry.buildPostingsForField rows fieldName

namespace Mirrors
open EqualityTableCacheEntry

variable {entry : EqualityTableCacheEntry} {row : RowMap} {rowId : UInt64}

theorem ensureFieldPostings (h : Mirrors entry rows) (fieldName : String) :
    Mirrors (entry.ensureFieldPostings fieldName) rows ∧
      ∀ name, (entry.rowIdsByFieldValue name).isSome = true ∨ name = fieldName →
        ((entry.ensureFieldPostings fieldName).rowIdsByFieldValue name).isSome = true := by
  unfold EqualityTableCacheEntry.ensureFieldPostings
  cases hfield : entry.rowIdsByFieldValue fieldName with
  | some postings =>
    refine ⟨h, fun name hname => hname.elim id fun heq => ?_⟩
    simp [heq, hfield]
  | none =>
    refine ⟨⟨h.rowsById, fun name postings hpostings => ?_⟩, fun name hname => ?_⟩
    · by_cases heq : name = fieldName
      · subst heq
        simp only [Function.update_self, Option.some.injEq] at hpostings
        rw [← hpostings, h.rowsById]
      · simp only [Function.update_of_ne heq] at hpostings
        exact h.postings name postings hpostings
    · by_cases heq : name = fieldName
      · simp [heq]
      · simpa [Function.update_of_ne heq] using hname.resolve_right heq

theorem ensurePostings (h : Mirrors entry rows) (fieldNames : List String) :
    Mirrors (entry.ensurePostings fieldNames) rows ∧
      ∀ name, (entry.rowIdsByFieldValue name).isSome = true ∨ name ∈ fieldNames →
        ((entry.ensurePostings fieldNames).rowIdsByFieldValue name).isSome = true := by
  induction fieldNames generalizing entry with
  | nil => exact ⟨h, fun name hname => hname.resolve_right List.not_mem_nil⟩
  | cons fieldName fieldNames ih =>
    obtain ⟨hfirst, hfields⟩ := h.ensureFieldPostings fieldName
    obtain ⟨hrest, hall⟩ := ih hfirst
    refine ⟨hrest, fun name hname => hall name ?_⟩
    rw [List.mem_cons, ← or_assoc] at hname
    exact hname.imp_left (hfields name)

theorem postingsFor_eq (h : Mirrors entry rows) {filter : String × Bytes}
    (hfield : (entry.rowIdsByFieldValue filter.1).isSome = true) :
    entry.postingsFor filter = (rows.filter fun row => row.2.lookup filter.1 = some filter.2).map Prod.fst := by
  obtain ⟨postings, hpostings⟩ := Option.isSome_iff_exists.mp hfield
  simp only [postingsFor, hpostings]
  rw [h.postings _ _ hpostings]
  rfl

theorem lookup_of_mem (hnodup : (rows.map Prod.fst).Nodup) {row : LiveRow} (hmem : row ∈ rows) :
    rows.lookup row.1 = some row.2 := by
  induction rows with
  | nil => cases hmem
  | cons head rows ih =>
    obtain ⟨hnot, hnodup⟩ := List.nodup_cons.mp hnodup
    rcases List.mem_cons.mp hmem with rfl | hmem
    · exact List.lookup_cons_self
    · have hne : row.1 ≠ head.1 := fun heq => hnot (heq ▸ List.mem_map_of_mem hmem)
      rw [List.lookup_cons, beq_false_of_ne hne]
      exact ih hnodup hmem

theorem mem_iff_lookup (hnodup : (rows.map Prod.fst).Nodup) : (rowId, row) ∈ rows ↔ rows.lookup rowId = some row := by
  refine ⟨lookup_of_mem hnodup, fun hrow => ?_⟩
  obtain ⟨before, after, heq, -⟩ := List.lookup_eq_some_iff.mp hrow
  simp [heq]

theorem rowsForIds_map (h : Mirrors entry rows) (hnodup : (rows.map Prod.fst).Nodup) {some' : List LiveRow}
    (hsub : some' ⊆ rows) : entry.rowsForIds (some'.map Prod.fst) = some' := by
  rw [rowsForIds, List.filterMap_map]
  have hrow : ∀ row ∈ some', ((fun rowId => (entry.row rowId).map (rowId, ·)) ∘ Prod.fst) row = some row :=
    fun row hrow => by
      simp only [Function.comp_apply, EqualityTableCacheEntry.row, h.rowsById, lookup_of_mem hnodup (hsub hrow)]
      rfl
  rw [List.filterMap_congr hrow]
  exact List.filterMap_some

theorem seedRowIds_mem (entry : EqualityTableCacheEntry) (hne : filters ≠ []) :
    ∃ filter ∈ filters, entry.seedRowIds filters = entry.postingsFor filter := by
  induction filters with
  | nil => exact absurd rfl hne
  | cons filter filters ih =>
    cases filters with
    | nil => exact ⟨filter, List.mem_cons_self .., rfl⟩
    | cons next filters =>
      obtain ⟨other, hother, hseed⟩ := ih (List.cons_ne_nil _ _)
      unfold seedRowIds
      dsimp only
      split
      · exact ⟨filter, List.mem_cons_self .., rfl⟩
      · exact ⟨other, List.mem_cons_of_mem _ hother, hseed⟩

theorem rowsForFieldValues_eq (h : Mirrors entry rows) (hnodup : (rows.map Prod.fst).Nodup) (hne : filters ≠ [])
    (hfields : ∀ filter ∈ filters, (entry.rowIdsByFieldValue filter.1).isSome = true) :
    entry.rowsForFieldValues filters =
      rows.filter fun row => filters.all fun filter => row.2.lookup filter.1 = some filter.2 := by
  obtain ⟨seed, hseed, hids⟩ := seedRowIds_mem entry hne
  have hrows : entry.rowsForIds (entry.postingsFor seed) =
      rows.filter fun row => row.2.lookup seed.1 = some seed.2 := by
    rw [h.postingsFor_eq (hfields seed hseed)]
    exact h.rowsForIds_map hnodup List.filter_sublist.subset
  have hmany : (entry.rowsForIds (entry.seedRowIds filters)).filter (fun row =>
      filters.all fun filter => row.2.lookup filter.1 = some filter.2) =
        rows.filter fun row => filters.all fun filter => row.2.lookup filter.1 = some filter.2 := by
    rw [hids, hrows, List.filter_filter]
    refine List.filter_congr fun row _ => ?_
    rw [Bool.and_eq_left_iff_imp]
    exact fun hall => List.all_eq_true.mp hall seed hseed
  unfold rowsForFieldValues
  split
  · rename_i filter
    obtain rfl := List.mem_singleton.mp hseed
    simpa using hrows
  · exact hmany

end Mirrors

/-! ## The scan -/

theorem applyVisibleEqualityRecord_eq (groups : TerminalGroups) (state : LiveRowState) (record : TransactionRecord) :
    CachedTable.applyVisibleEqualityRecord env groups filters state record =
      state.apply ((recordEvent env.write.schema groups record).restrict
        (CachedTable.rowMatchesEqualityFilters env filters)) := by
  unfold CachedTable.applyVisibleEqualityRecord recordEvent decodeLiveRow WriteEnv.decode
  by_cases hvisible : recordVisibleForLiveRowApply record groups = true
  · cases hkind : record.kind with
    | insert | update =>
      simp only [hvisible, ↓reduceIte, true_and, or_true, true_or]
      cases record.payload with
      | none => simp [LogEvent.restrict, Replay.apply]
      | some payload =>
        cases hdecode : decodeRowPayload env.write.schema payload with
        | error e => simp [hdecode, LogEvent.restrict, Replay.apply]
        | ok row =>
          simp only [hdecode, LogEvent.restrict]
          split <;> rfl
    | delete =>
      simp only [hvisible]
      cases record.refid <;> simp [LogEvent.restrict, Replay.apply]
    | _ => simp [hvisible, LogEvent.restrict, Replay.apply]
  · simp [hvisible, LogEvent.restrict, Replay.apply]

end DistDb.Cache
