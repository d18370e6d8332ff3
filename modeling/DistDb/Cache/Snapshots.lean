import DistDb.Cache.Patterns
import DistDb.Lib.Chunks

/-! # Snapshots and warm entries

An entry is written to a snapshot and made again from it, or from live rows by one thread or several. Hash maps that
are made anew may give their keys in another order. -/

namespace DistDb.Cache
open Lib Mutation Query

/-! ## Maps of rows -/

def putRow (rows : List LiveRow) (row : LiveRow) : List LiveRow := rows.filter (fun other => other.1 ≠ row.1) ++ [row]

def collectRows (rows : List LiveRow) : List LiveRow := rows.foldl putRow []

def mergeRows (chunks : List (List LiveRow)) : List LiveRow :=
  (chunks.map collectRows).foldl (fun rows chunk => chunk.foldl putRow rows) []

theorem filter_foldl_putRow (rowId : UInt64) (rows base : List LiveRow) :
    (rows.foldl putRow base).filter (fun row => row.1 ≠ rowId) =
      (rows.filter fun row => row.1 ≠ rowId).foldl putRow (base.filter fun row => row.1 ≠ rowId) := by
  induction rows generalizing base with
  | nil => rfl
  | cons row rows ih =>
    rw [List.foldl_cons, ih]
    by_cases hrow : row.1 = rowId
    · rw [List.filter_cons_of_neg (by simpa using hrow)]
      simp [putRow, List.filter_filter, hrow]
    · rw [List.filter_cons_of_pos (by simpa using hrow), List.foldl_cons]
      simp [putRow, List.filter_filter, hrow, Bool.and_comm]

theorem foldl_collectRows (rows base : List LiveRow) :
    (collectRows rows).foldl putRow base = rows.foldl putRow base := by
  induction rows using List.reverseRecOn with
  | nil => rfl
  | append_singleton rows row ih =>
    have hlast : ∀ rows : List LiveRow, putRow ((rows.filter fun other => other.1 ≠ row.1).foldl putRow base) row =
        putRow (rows.foldl putRow base) row := by
      intro rows
      rw [putRow, putRow, filter_foldl_putRow, filter_foldl_putRow, List.filter_filter]
      simp
    rw [List.foldl_concat, ← ih, ← hlast, collectRows, List.foldl_concat, putRow, List.foldl_concat]
    rfl

theorem mergeRows_eq (chunks : List (List LiveRow)) : mergeRows chunks = collectRows chunks.flatten := by
  rw [mergeRows, collectRows, List.foldl_map, List.foldl_flatten]
  simp only [foldl_collectRows]

theorem foldl_putRow_of_nodup {rows base : List LiveRow} (h : ((base ++ rows).map Prod.fst).Nodup) :
    rows.foldl putRow base = base ++ rows := by
  induction rows generalizing base with
  | nil => simp
  | cons row rows ih =>
    rw [List.append_cons] at h
    have hbase : row.1 ∉ base.map Prod.fst := by
      rw [List.map_append, List.map_append] at h
      exact fun hmem => (List.nodup_append.mp (List.nodup_append.mp h).1).2.2 _ hmem _ (by simp) rfl
    have hinsert : putRow base row = base ++ [row] := by
      refine congrArg (· ++ [row]) (List.filter_eq_self.mpr fun other hother => ?_)
      have hne : other.1 ≠ row.1 := fun heq => hbase (heq ▸ List.mem_map_of_mem hother)
      simpa using hne
    rw [List.foldl_cons, hinsert, ih h, List.append_assoc, List.singleton_append]

theorem collectRows_of_nodup {rows : List LiveRow} (h : (rows.map Prod.fst).Nodup) : collectRows rows = rows :=
  foldl_putRow_of_nodup h

/-! ## Snapshots -/

structure EqualityTableCacheSnapshot where
  latestTxId : UInt64
  rowsById : List LiveRow
  rowIdsByFieldValue : String → Option Postings
  stringIndexes : Bool → String → Option StringIndex

def accessorSnapshotPersistStringIndexes : Bool := true

def accessorSnapshotRestoreStringIndexes : Bool := true

def accessorSnapshotRestoreParallelMinRows : ℕ := 250000

def splitVecIntoChunks {α : Type} [DecidableEq α] (values : List α) (chunkSize : ℕ) : List (List α) :=
  if values = [] ∨ chunkSize = 0 then [values] else (chunks chunkSize values.reverse).map List.reverse

def buildRowsByIdFromSnapshot (workers : ℕ) (rows : List LiveRow) : List LiveRow :=
  if rows.length < accessorSnapshotRestoreParallelMinRows ∨ workers ≤ 1 then collectRows rows
  else mergeRows (splitVecIntoChunks rows ((rows.length + workers - 1) / workers))

def cacheSnapshotFromEntry (entry : AccessorEntry) : EqualityTableCacheSnapshot where
  latestTxId := entry.latestTxId
  rowsById := entry.rowsById
  rowIdsByFieldValue := entry.rowIdsByFieldValue
  stringIndexes := if accessorSnapshotPersistStringIndexes then entry.stringIndexes else fun _ _ => none

def cacheEntryFromSnapshot (estimateRowsByIdBytes : List LiveRow → ℕ) (workers : ℕ)
    (snapshot : EqualityTableCacheSnapshot) : AccessorEntry :=
  let rowsById := buildRowsByIdFromSnapshot workers snapshot.rowsById
  ⟨⟨snapshot.latestTxId, rowsById, estimateRowsByIdBytes rowsById, snapshot.rowIdsByFieldValue⟩,
    if accessorSnapshotRestoreStringIndexes then snapshot.stringIndexes else fun _ _ => none, fun _ => none⟩

theorem flatten_splitVecIntoChunks {α : Type} [DecidableEq α] (values : List α) (chunkSize : ℕ) :
    (splitVecIntoChunks values chunkSize).flatten.Perm values := by
  unfold splitVecIntoChunks
  split
  · simp
  · rename_i hsize
    have hchunks : (chunks chunkSize values.reverse).flatten = values.reverse :=
      flatten_chunks (Nat.pos_of_ne_zero fun hzero => hsize (.inr hzero)) values.reverse
    calc ((chunks chunkSize values.reverse).map List.reverse).flatten
        = (chunks chunkSize values.reverse).flatMap List.reverse := rfl
      _ |>.Perm ((chunks chunkSize values.reverse).flatMap id) :=
          List.Perm.flatMap_left _ fun chunk _ => List.reverse_perm chunk
      _ = values.reverse := by rw [List.flatMap_id, hchunks]
      _ |>.Perm values := List.reverse_perm values

theorem buildRowsByIdFromSnapshot_perm {rows : List LiveRow} (h : (rows.map Prod.fst).Nodup) (workers : ℕ) :
    (buildRowsByIdFromSnapshot workers rows).Perm rows := by
  unfold buildRowsByIdFromSnapshot
  split
  · rw [collectRows_of_nodup h]
  · have hperm := flatten_splitVecIntoChunks rows ((rows.length + workers - 1) / workers)
    rw [mergeRows_eq, collectRows_of_nodup ((hperm.map Prod.fst).nodup_iff.mpr h)]
    exact hperm

/-! ## Warm entries -/

section Warm

variable (estimateRowsByIdBytes : List LiveRow → ℕ) (fields : List String)

def warmEntry (rowsById : List LiveRow) (postings : String → Postings) : AccessorEntry :=
  ⟨⟨0, rowsById, estimateRowsByIdBytes rowsById,
    fun fieldName => if fieldName ∈ fields then some (postings fieldName) else none⟩,
    fun _ _ => none, fun _ => none⟩

def buildWarmEqualityCacheSerial (liveRows : List LiveRow) : AccessorEntry :=
  warmEntry estimateRowsByIdBytes fields (collectRows liveRows) (EqualityTableCacheEntry.buildPostingsForField liveRows)

def buildWarmEqualityCacheParallel (liveRows : List LiveRow) (workers : ℕ) : AccessorEntry :=
  let parts := chunks ((liveRows.length + workers - 1) / workers) liveRows
  warmEntry estimateRowsByIdBytes fields (mergeRows parts) fun fieldName value =>
    parts.flatMap fun chunk => EqualityTableCacheEntry.buildPostingsForField chunk fieldName value

theorem buildWarmEqualityCacheParallel_eq (liveRows : List LiveRow) {workers : ℕ} (h : 0 < workers) :
    buildWarmEqualityCacheParallel estimateRowsByIdBytes fields liveRows workers =
      buildWarmEqualityCacheSerial estimateRowsByIdBytes fields liveRows := by
  have hparts : (chunks ((liveRows.length + workers - 1) / workers) liveRows).flatten = liveRows := by
    cases liveRows with
    | nil => rfl
    | cons row liveRows => exact flatten_chunks (Nat.div_pos (by simp) h) _
  have hpostings : ∀ (parts : List (List LiveRow)) fieldName value,
      parts.flatMap (fun chunk => EqualityTableCacheEntry.buildPostingsForField chunk fieldName value) =
        EqualityTableCacheEntry.buildPostingsForField parts.flatten fieldName value := by
    intro parts fieldName value
    simp only [EqualityTableCacheEntry.buildPostingsForField, List.filter_flatten, List.map_flatten, List.flatMap,
      List.map_map, Function.comp_def]
  unfold buildWarmEqualityCacheParallel buildWarmEqualityCacheSerial
  simp only [hpostings, mergeRows_eq, hparts]

end Warm

/-! ## Lookups -/

inductive AccessorLookup where
  | fieldValues (filters : EqualityFilters)
  | ranges (filters : List RangeFilterBounds)
  | startsWith (fieldName : String) (text : Bytes) (caseInsensitive : Bool)
  | like (fieldName : String) (pattern : Bytes) (caseInsensitive : Bool)

namespace AccessorEntry

section Lookup

variable (prims : ValuePrimitives) (entry : AccessorEntry) (fieldName : String) (caseInsensitive : Bool)
  (values : List Bytes) (keys : List String) (lookup : AccessorLookup)

def startsWith (text value : Bytes) : Bool :=
  if caseInsensitive then decide (text.length ≤ value.length) && eqIgnoreAsciiCase (value.take text.length) text
  else text.isPrefixOf value

def keyStartsWith (text : Bytes) (key : String) : Bool :=
  searchPrefix (stringKeyFromValue prims caseInsensitive text).toList key.toList

def rowsForFieldPrefix (text : Bytes) : List LiveRow :=
  match entry.stringIndexes caseInsensitive fieldName, entry.rowIdsByFieldValue fieldName with
  | some index, _ => entry.rowsForIds ((keys.filter (keyStartsWith prims caseInsensitive text)).flatMap index)
  | none, some postings => entry.rowsForIds ((values.filter (startsWith caseInsensitive text)).flatMap postings)
  | none, none => []

def prepare : AccessorEntry :=
  match lookup with
  | .fieldValues filters => filters.foldl (fun entry filter => entry.ensureFieldPostings filter.1) entry
  | .ranges filters => filters.head?.elim entry fun filter => entry.ensureFieldPostings filter.fieldName
  | .startsWith fieldName _ caseInsensitive =>
    (entry.ensureFieldPostings fieldName).ensureStringLikeIndex prims fieldName caseInsensitive values
  | .like fieldName _ caseInsensitive => entry.ensureStringLikeIndex prims fieldName caseInsensitive values

def rowsFor : List LiveRow :=
  let entry := entry.prepare prims values lookup
  match lookup with
  | .fieldValues filters => entry.rowsForFieldValues filters
  | .ranges filters => (entry.rowsForRangeFilters prims filters values).2
  | .startsWith fieldName text caseInsensitive =>
    entry.rowsForFieldPrefix prims fieldName caseInsensitive values keys text
  | .like fieldName pattern true => entry.rowsForFieldStringLikeCaseInsensitiveIndexed prims fieldName pattern keys
  | .like fieldName pattern false => (entry.rowsForFieldStringLikeIndexed prims fieldName pattern keys).getD []

def textIndex : StringIndex :=
  (entry.stringIndexes caseInsensitive fieldName).getD (entry.buildStringIndex prims fieldName caseInsensitive values)

def searchTexts (test : String → Bool) : List LiveRow :=
  entry.rowsForIds ((keys.filter test).flatMap (entry.textIndex prims fieldName caseInsensitive values))

/-- The values with postings, and the texts of them that are indexed. -/
def ListedTexts : Prop :=
  entry.ListedValues fieldName values ∧ Inverted.Listed (entry.textIndex prims fieldName caseInsensitive values) keys

/-- The orders given are those of the maps that the lookup goes through. -/
def Enumerates : Prop :=
  match lookup with
  | .fieldValues _ => True
  | .ranges filters => ∀ filter ∈ filters.head?,
      (entry.prepare prims values lookup).ListedValues filter.fieldName values
  | .startsWith fieldName _ caseInsensitive =>
    (entry.ensureFieldPostings fieldName).ListedTexts prims fieldName caseInsensitive values keys
  | .like fieldName _ caseInsensitive => entry.ListedTexts prims fieldName caseInsensitive values keys

/-- Without an index of texts, values whose text passes the test have different texts. -/
def TextsApart (test : String → Bool) : Prop :=
  entry.stringIndexes caseInsensitive fieldName = none → (entry.rowIdsByFieldValue fieldName).isSome = true →
    ∀ rowId rowId' value value', entry.valueOf fieldName rowId = some value →
    entry.valueOf fieldName rowId' = some value' →
      stringKeyFromValue prims caseInsensitive value = stringKeyFromValue prims caseInsensitive value' →
      test (stringKeyFromValue prims caseInsensitive value) = true → value = value'

/-- A lookup by text finds no two values that have one text. -/
def KeepsAnswers : Prop :=
  match lookup with
  | .startsWith fieldName text caseInsensitive => (entry.ensureFieldPostings fieldName).TextsApart prims fieldName
    caseInsensitive (keyStartsWith prims caseInsensitive text)
  | .like fieldName pattern caseInsensitive =>
    entry.TextsApart prims fieldName caseInsensitive (keyMatches prims pattern caseInsensitive)
  | _ => True

/-- Whatever the orders are, the rows are the same. -/
def SameAnswers (other : AccessorEntry) : Prop :=
  ∀ values keys values' keys', entry.Enumerates prims values keys lookup → other.Enumerates prims values' keys' lookup →
    (other.rowsFor prims values' keys' lookup).Perm (entry.rowsFor prims values keys lookup)

end Lookup

structure Alike (entry other : AccessorEntry) : Prop where
  rows : entry.rowsById.Perm other.rowsById
  row : other.row = entry.row
  postings : ∀ fieldName, Option.Rel Inverted.Agrees (entry.rowIdsByFieldValue fieldName)
    (other.rowIdsByFieldValue fieldName)
  strings : ∀ caseInsensitive fieldName, Option.Rel Inverted.Agrees (entry.stringIndexes caseInsensitive fieldName)
    (other.stringIndexes caseInsensitive fieldName)

variable {prims : ValuePrimitives} {entry other : AccessorEntry} {fieldName : String} {caseInsensitive : Bool}

namespace Alike

theorem ensureFieldPostings (h : entry.Alike other) (fieldName : String) :
    (entry.ensureFieldPostings fieldName).Alike (other.ensureFieldPostings fieldName) := by
  unfold AccessorEntry.ensureFieldPostings EqualityTableCacheEntry.ensureFieldPostings
  have hfield := h.postings fieldName
  cases hentry : entry.rowIdsByFieldValue fieldName <;> cases hother : other.rowIdsByFieldValue fieldName <;>
    rw [hentry, hother] at hfield <;> cases hfield
  · refine { h with postings := fun name => ?_ }
    by_cases hname : name = fieldName
    · subst hname
      simp only [Function.update_self]
      exact .some fun value => (h.rows.filter _).map _
    · simpa only [Function.update_of_ne hname] using h.postings name
  · exact h

theorem rowsForIds (h : entry.Alike other) {rowIds rowIds' : List UInt64} (hids : rowIds.Perm rowIds') :
    (other.rowsForIds rowIds').Perm (entry.rowsForIds rowIds) := by
  unfold EqualityTableCacheEntry.rowsForIds
  rw [h.row]
  exact hids.symm.filterMap _

theorem postingsFor (h : entry.Alike other) (filter : String × Bytes) :
    (entry.postingsFor filter).Perm (other.postingsFor filter) := by
  have hfield := h.postings filter.1
  unfold EqualityTableCacheEntry.postingsFor
  cases hentry : entry.rowIdsByFieldValue filter.1 <;> cases hother : other.rowIdsByFieldValue filter.1 <;>
    rw [hentry, hother] at hfield <;> cases hfield
  rename_i hagrees
  exact hagrees filter.2

theorem seedRowIds (h : entry.Alike other) : ∀ filters, (entry.seedRowIds filters).Perm (other.seedRowIds filters)
  | [] => .refl _
  | [filter] => h.postingsFor filter
  | filter :: next :: filters => by
    have hseed := h.seedRowIds (next :: filters)
    simp only [EqualityTableCacheEntry.seedRowIds, (h.postingsFor filter).length_eq, hseed.length_eq]
    split
    · exact h.postingsFor filter
    · exact hseed

theorem rowsForFieldValues (h : entry.Alike other) (filters : EqualityFilters) :
    (other.rowsForFieldValues filters).Perm (entry.rowsForFieldValues filters) := by
  unfold EqualityTableCacheEntry.rowsForFieldValues
  split
  · exact h.rowsForIds (h.postingsFor _)
  · exact (h.rowsForIds (h.seedRowIds filters)).filter _

theorem fieldValues (h : entry.Alike other) (filters : EqualityFilters) (values values' : List Bytes) :
    (entry.prepare prims values (.fieldValues filters)).Alike (other.prepare prims values' (.fieldValues filters)) := by
  unfold prepare
  dsimp only
  induction filters generalizing entry other with
  | nil => exact h
  | cons filter filters ih => exact ih (h.ensureFieldPostings filter.1)

theorem mem_rowsForIds {rowIds : List UInt64} {rowId : UInt64} {row : RowMap} :
    (rowId, row) ∈ entry.rowsForIds rowIds ↔ rowId ∈ rowIds ∧ entry.row rowId = some row := by
  simp [EqualityTableCacheEntry.rowsForIds, List.mem_filterMap]

theorem searchTexts_iff (h : entry.Alike other) (hlists : ∀ postings ∈ entry.rowIdsByFieldValue fieldName,
      Inverted.Lists postings Set.univ (entry.valueOf fieldName) ∧ {value | postings value ≠ []}.Finite)
    (test : String → Bool) :
    (∀ values keys values' keys', entry.ListedTexts prims fieldName caseInsensitive values keys →
      other.ListedTexts prims fieldName caseInsensitive values' keys' →
      (other.searchTexts prims fieldName caseInsensitive values' keys' test).Perm
        (entry.searchTexts prims fieldName caseInsensitive values keys test)) ↔
      entry.TextsApart prims fieldName caseInsensitive test := by
  have hindex := h.strings caseInsensitive fieldName
  have hfield := h.postings fieldName
  unfold searchTexts ListedTexts textIndex buildStringIndex ListedValues TextsApart
  cases hentry : entry.stringIndexes caseInsensitive fieldName <;>
    cases hother : other.stringIndexes caseInsensitive fieldName <;> rw [hentry, hother] at hindex <;> cases hindex
  · cases hentry' : entry.rowIdsByFieldValue fieldName <;> cases hother' : other.rowIdsByFieldValue fieldName <;>
      rw [hentry', hother'] at hfield <;> cases hfield
    · refine iff_of_true (fun values keys values' keys' hkeys hkeys' => h.rowsForIds ?_) (by simp)
      exact Inverted.flatMap_perm (fun key _ => (h.rows.filter _).map _) hkeys.2 hkeys'.2
    · rename_i postings postings' hagrees
      obtain ⟨hlists, hfinite⟩ := hlists postings hentry'
      constructor
      · intro hperm _ _ rowId rowId' value value' hvalue hvalue' htext htest
        by_contra hne
        obtain ⟨values, values', hvalues, hvalues', hfound, hlost⟩ :=
          hagrees.exists_orders hlists hfinite hvalue hvalue' hne htext
        obtain ⟨keys, hkeys⟩ :=
          Inverted.exists_listed_regroup postings (stringKeyFromValue prims caseInsensitive) values
        obtain ⟨keys', hkeys'⟩ :=
          Inverted.exists_listed_regroup postings' (stringKeyFromValue prims caseInsensitive) values'
        have hrows := hperm values keys values' keys' ⟨fun _ heq => Option.some.inj heq ▸ hvalues, hkeys⟩
          ⟨fun _ heq => Option.some.inj heq ▸ hvalues', hkeys'⟩
        obtain ⟨row, hrow, -⟩ := Option.bind_eq_some_iff.mp hvalue
        have hin := hrows.mem_iff.mpr (mem_rowsForIds.mpr ⟨List.mem_flatMap.mpr
          ⟨_, List.mem_filter.mpr ⟨(hkeys.2 _).mpr (List.ne_nil_of_mem hfound), htest⟩, hfound⟩, hrow⟩)
        obtain ⟨key, -, hkey⟩ := List.mem_flatMap.mp (mem_rowsForIds.mp hin).1
        exact hlost key hkey
      · intro hapart values keys values' keys' hkeys hkeys'
        refine h.rowsForIds (Inverted.flatMap_perm (fun key hkey => ?_) hkeys.2 hkeys'.2)
        refine hagrees.regroup_perm (hkeys.1 postings rfl) (hkeys'.1 postings' rfl)
          fun value value' hvalue hvalue' hfold hfold' => ?_
        obtain ⟨rowId, hrow⟩ := List.exists_mem_of_ne_nil _ hvalue
        obtain ⟨rowId', hrow'⟩ := List.exists_mem_of_ne_nil _ hvalue'
        exact hapart rfl rfl rowId rowId' value value' ((hlists.mem_iff trivial).mp hrow)
          ((hlists.mem_iff trivial).mp hrow') (hfold.trans hfold'.symm) (hfold ▸ hkey)
  · rename_i index index' hagrees
    refine iff_of_true (fun values keys values' keys' hkeys hkeys' => h.rowsForIds ?_) (by simp)
    exact Inverted.flatMap_perm (fun key _ => hagrees key) hkeys.2 hkeys'.2

end Alike

theorem stringIndexes_ensure (values : List Bytes) :
    (entry.ensureStringLikeIndex prims fieldName caseInsensitive values).stringIndexes caseInsensitive fieldName =
      some (entry.textIndex prims fieldName caseInsensitive values) := by
  unfold ensureStringLikeIndex textIndex
  cases hindex : entry.stringIndexes caseInsensitive fieldName with
  | some index => simp [hindex]
  | none => simp

theorem rowsFor_startsWith (text : Bytes) (values : List Bytes) (keys : List String) :
    entry.rowsFor prims values keys (.startsWith fieldName text caseInsensitive) =
      (entry.ensureFieldPostings fieldName).searchTexts prims fieldName caseInsensitive values keys
        (keyStartsWith prims caseInsensitive text) := by
  simp only [rowsFor, prepare, rowsForFieldPrefix, stringIndexes_ensure, ensureStringLikeIndex_base, searchTexts]

theorem rowsFor_like (pattern : Bytes) (values : List Bytes) (keys : List String) :
    entry.rowsFor prims values keys (.like fieldName pattern caseInsensitive) =
      entry.searchTexts prims fieldName caseInsensitive values keys (keyMatches prims pattern caseInsensitive) := by
  cases caseInsensitive <;>
    simp only [rowsFor, prepare, rowsForFieldStringLikeCaseInsensitiveIndexed, rowsForFieldStringLikeIndexed,
      rowsForKeys, stringIndexes_ensure, ensureStringLikeIndex_base, searchTexts, Option.map_some, Option.getD_some]

theorem isSome_ensureFieldPostings :
    ((entry.ensureFieldPostings fieldName).rowIdsByFieldValue fieldName).isSome = true := by
  unfold ensureFieldPostings EqualityTableCacheEntry.ensureFieldPostings
  cases hfield : entry.rowIdsByFieldValue fieldName <;> simp [hfield]

theorem Ranged.rowsFor_ranges (h : entry.Ranged prims) {filters : List RangeFilterBounds} {values : List Bytes}
    {keys : List String} (horder : entry.Enumerates prims values keys (.ranges filters)) :
    (entry.rowsFor prims values keys (.ranges filters)).Perm (entry.rowsWithin prims filters) := by
  cases filters with
  | nil => exact h.answersRanges [] values nofun
  | cons filter filters =>
    have hrows : (entry.ensureFieldPostings filter.fieldName).rowsById = entry.rowsById := rows_ensureFieldPostings
    rw [rowsWithin, ← hrows]
    refine (h.ensureFieldPostings filter.fieldName).answersRanges (filter :: filters) values fun anchor hanchor => ?_
    obtain rfl := Option.some.inj hanchor
    exact ⟨isSome_ensureFieldPostings, horder filter rfl⟩

/-- The postings have every row under its value. -/
def Matched (entry : AccessorEntry) : Prop :=
  ∀ fieldName, ∀ postings ∈ entry.rowIdsByFieldValue fieldName,
    Inverted.Lists postings Set.univ (entry.valueOf fieldName)

theorem Matched.ensureFieldPostings (h : entry.Matched) (hnodup : (entry.rowsById.map Prod.fst).Nodup)
    (fieldName : String) : (entry.ensureFieldPostings fieldName).Matched := by
  have hposted : ({ entry with stringIndexes := fun _ _ => none } : AccessorEntry).Posted .plain :=
    ⟨h, fun _ _ _ hnone => absurd hnone (Option.not_mem_none _)⟩
  exact (hposted.ensureFieldPostings hnodup fieldName).postings

theorem Alike.sameAnswers_iff (h : entry.Alike other) (hranged : entry.Ranged prims) (hother : other.Ranged prims)
    (hmatched : entry.Matched) (lookup : AccessorLookup) :
    entry.SameAnswers prims lookup other ↔ entry.KeepsAnswers prims lookup := by
  unfold SameAnswers
  cases lookup with
  | fieldValues filters =>
    refine iff_of_true (fun values keys values' keys' _ _ => ?_) trivial
    exact (h.fieldValues filters values values').rowsForFieldValues filters
  | ranges filters =>
    refine iff_of_true (fun values keys values' keys' horder horder' => ?_) trivial
    exact (hother.rowsFor_ranges horder').trans ((h.rows.symm.filter _).trans (hranged.rowsFor_ranges horder).symm)
  | startsWith fieldName text caseInsensitive =>
    simp only [rowsFor_startsWith]
    refine (h.ensureFieldPostings fieldName).searchTexts_iff (fun postings hpostings => ⟨?_, ?_⟩) _
    · exact hmatched.ensureFieldPostings hranged.nodup fieldName fieldName postings hpostings
    · exact (hranged.ensureFieldPostings fieldName).finite fieldName postings hpostings
  | like fieldName pattern caseInsensitive =>
    simp only [rowsFor_like]
    exact h.searchTexts_iff (fun postings hpostings => ⟨hmatched fieldName postings hpostings,
      hranged.finite fieldName postings hpostings⟩) _

/-! ## Restored and warm entries -/

section Made

variable (estimateRowsByIdBytes : List LiveRow → ℕ) (workers : ℕ)

theorem alike_restored (hnodup : (entry.rowsById.map Prod.fst).Nodup) :
    entry.Alike (cacheEntryFromSnapshot estimateRowsByIdBytes workers (cacheSnapshotFromEntry entry)) where
  rows := (buildRowsByIdFromSnapshot_perm hnodup workers).symm
  row := by
    have hperm := buildRowsByIdFromSnapshot_perm hnodup workers
    funext rowId
    refine Option.ext fun row => ?_
    exact (Mirrors.mem_iff_lookup ((hperm.map Prod.fst).nodup_iff.mpr hnodup)).symm.trans
      (hperm.mem_iff.trans (Mirrors.mem_iff_lookup hnodup))
  postings _ := Inverted.rel_agrees_self _
  strings _ _ := Inverted.rel_agrees_self _

theorem Ranged.restored (h : entry.Ranged prims) :
    (cacheEntryFromSnapshot estimateRowsByIdBytes workers (cacheSnapshotFromEntry entry)).Ranged prims where
  nodup := ((buildRowsByIdFromSnapshot_perm h.nodup workers).map Prod.fst).nodup_iff.mpr h.nodup
  finite := h.finite
  lists := by
    unfold valueOf
    rw [(alike_restored estimateRowsByIdBytes workers h.nodup).row]
    exact h.lists
  stored _ _ hstored := absurd hstored (Option.some_ne_none _).symm

theorem warm_matched (fields : List String) {liveRows : List LiveRow} (hnodup : (liveRows.map Prod.fst).Nodup) :
    (buildWarmEqualityCacheSerial estimateRowsByIdBytes fields liveRows).Ranged prims ∧
      (buildWarmEqualityCacheSerial estimateRowsByIdBytes fields liveRows).Matched := by
  unfold buildWarmEqualityCacheSerial
  rw [collectRows_of_nodup hnodup]
  have hpostings : ∀ fieldName, ∀ postings ∈ (warmEntry estimateRowsByIdBytes fields liveRows
      (EqualityTableCacheEntry.buildPostingsForField liveRows)).rowIdsByFieldValue fieldName,
      postings = Inverted.group liveRows (·.lookup fieldName) := by
    intro fieldName postings hmem
    exact (Option.some.inj ((Option.ite_none_right_eq_some.mp hmem).2)).symm
  have hmatched : Matched (warmEntry estimateRowsByIdBytes fields liveRows
      (EqualityTableCacheEntry.buildPostingsForField liveRows)) := by
    intro fieldName postings hmem
    rw [hpostings fieldName postings hmem]
    exact Inverted.lists_group hnodup (·.lookup fieldName)
  refine ⟨⟨hnodup, fun fieldName postings hmem => ?_, fun fieldName postings hmem rowId _ => ?_, ?_⟩, hmatched⟩
  · rw [hpostings fieldName postings hmem]
    exact Inverted.finite_group liveRows (·.lookup fieldName)
  · exact hmatched fieldName postings hmem rowId trivial
  · exact fun _ _ hstored => absurd hstored (Option.some_ne_none _).symm

end Made

/-- A restored entry has the head and the rows of the entry, and an entry that several threads make is the one that
one makes. Both answer a lookup alike, in every order of the maps, if and only if no index of texts has to be made from
postings in which values share a text. -/
theorem snapshot_answers_iff (prims : ValuePrimitives) (estimateRowsByIdBytes : List LiveRow → ℕ) (workers : ℕ) :
    (∀ entry : AccessorEntry, entry.Ranged prims → entry.Matched →
      let restored := cacheEntryFromSnapshot estimateRowsByIdBytes workers (cacheSnapshotFromEntry entry)
      restored.latestTxId = entry.latestTxId ∧ restored.rowsById.Perm entry.rowsById ∧ restored.row = entry.row ∧
        ∀ lookup, entry.SameAnswers prims lookup restored ↔ entry.KeepsAnswers prims lookup) ∧
    ∀ (fields : List String) (liveRows : List LiveRow), 0 < workers →
      let serial := buildWarmEqualityCacheSerial estimateRowsByIdBytes fields liveRows
      let parallel := buildWarmEqualityCacheParallel estimateRowsByIdBytes fields liveRows workers
      parallel = serial ∧ ((liveRows.map Prod.fst).Nodup →
        ∀ lookup, serial.SameAnswers prims lookup parallel ↔ serial.KeepsAnswers prims lookup) := by
  constructor
  · intro entry hranged hmatched restored
    have halike : entry.Alike restored := alike_restored estimateRowsByIdBytes workers hranged.nodup
    have hrestored : restored.Ranged prims := hranged.restored estimateRowsByIdBytes workers
    exact ⟨rfl, halike.rows.symm, halike.row, halike.sameAnswers_iff hranged hrestored hmatched⟩
  · intro fields liveRows hworkers serial parallel
    have heq : parallel = serial := buildWarmEqualityCacheParallel_eq estimateRowsByIdBytes fields liveRows hworkers
    refine ⟨heq, fun hnodup => ?_⟩
    obtain ⟨hranged, hmatched⟩ : serial.Ranged prims ∧ serial.Matched :=
      warm_matched estimateRowsByIdBytes fields hnodup
    have halike : serial.Alike serial :=
      ⟨.refl _, rfl, fun _ => Inverted.rel_agrees_self _, fun _ _ => Inverted.rel_agrees_self _⟩
    rw [heq]
    exact halike.sameAnswers_iff hranged hranged hmatched

/-- Three rows with postings, in two parts for two threads. -/
theorem noted_rows_restored :
    let rows := notedRows ["apple", "pear", "Apricot"]
    let entry := (ofRows 7 rows 0).ensureFieldPostings "note"
    let restored := cacheEntryFromSnapshot List.length 2 (cacheSnapshotFromEntry entry)
    let serial := buildWarmEqualityCacheSerial List.length ["note"] rows
    let parallel := buildWarmEqualityCacheParallel List.length ["note"] rows 2
    let lookup := AccessorLookup.like "note" (utf8Bytes "ap%") true
    (entry.Ranged .plain ∧ entry.Matched ∧ entry.KeepsAnswers .plain lookup ∧ restored.latestTxId = 7 ∧
      entry.SameAnswers .plain lookup restored) ∧
    (rows.map Prod.fst).Nodup ∧ (chunks ((rows.length + 2 - 1) / 2) rows).map List.length = [2, 1] ∧
    serial.KeepsAnswers .plain lookup ∧ serial.SameAnswers .plain lookup parallel ∧
    (parallel.rowsFor .plain (["pear", "Apricot", "apple"].map utf8Bytes) ["apple", "apricot", "pear"] lookup).map
      Prod.fst = [1, 3] := by
  intro rows entry restored serial parallel lookup
  have hnodup : (rows.map Prod.fst).Nodup := by decide
  have hranged : (ofRows 7 rows 0).Ranged .plain := ranged_ofRows 7 0 hnodup
  have hmatched : (ofRows 7 rows 0).Matched := fun _ _ hnone => absurd hnone (Option.not_mem_none _)
  -- the three texts differ, folded too
  have hapart : ∀ value ∈ rows.filterMap (·.2.lookup "note"), ∀ value' ∈ rows.filterMap (·.2.lookup "note"),
      stringKeyFromValue .plain true value = stringKeyFromValue .plain true value' → value = value' := by
    decide +kernel
  have hvalues : ∀ (rowId : UInt64) value, (rows.lookup rowId).bind (·.lookup "note") = some value →
      value ∈ rows.filterMap (·.2.lookup "note") := by
    intro rowId value hvalue
    obtain ⟨row, hrow, hfield⟩ := Option.bind_eq_some_iff.mp hvalue
    exact List.mem_filterMap.mpr ⟨(rowId, row), (Mirrors.mem_iff_lookup hnodup).mpr hrow, hfield⟩
  have hkeeps : entry.KeepsAnswers .plain lookup := fun _ _ rowId rowId' value value' hvalue hvalue' htext _ =>
    hapart value (hvalues rowId value hvalue) value' (hvalues rowId' value' hvalue') htext
  have hkeeps' : serial.KeepsAnswers .plain lookup := fun _ _ rowId rowId' value value' hvalue hvalue' htext _ =>
    hapart value (hvalues rowId value hvalue) value' (hvalues rowId' value' hvalue') htext
  obtain ⟨hsnapshot, hwarm⟩ := snapshot_answers_iff .plain List.length 2
  obtain ⟨hlatest, -, -, hsame⟩ := hsnapshot entry (hranged.ensureFieldPostings "note")
    (hmatched.ensureFieldPostings hnodup "note")
  have hsame' := (hwarm ["note"] rows (by decide)).2 hnodup lookup
  exact ⟨⟨hranged.ensureFieldPostings "note", hmatched.ensureFieldPostings hnodup "note", hkeeps, hlatest,
    (hsame lookup).mpr hkeeps⟩, hnodup, by decide, hkeeps', hsame'.mpr hkeeps', by decide +kernel⟩

/-- Which of two values with one text is found depends on the order of the postings. -/
theorem restored_order_differs :
    let rows := notedRows ["a", "A"]
    let entry := (ofRows 7 rows 0).ensureFieldPostings "note"
    let restored := cacheEntryFromSnapshot List.length 4 (cacheSnapshotFromEntry entry)
    let lookup := AccessorLookup.like "note" (utf8Bytes "a") true
    (entry.rowsFor .plain [utf8Bytes "a", utf8Bytes "A"] ["a"] lookup).map Prod.fst = [2] ∧
      (restored.rowsFor .plain [utf8Bytes "A", utf8Bytes "a"] ["a"] lookup).map Prod.fst = [1] := by
  decide +kernel

end AccessorEntry

end DistDb.Cache
