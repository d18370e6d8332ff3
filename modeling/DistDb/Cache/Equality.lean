import DistDb.Mutation.Log

/-! # Row caches and lookups

A table's rows are kept in memory a second time: in an entry of the equality cache, in the results of recent probes,
and by the references of the runtime indexes. The records of the stream are taken to be loaded. Row limits, indexes for
patterns and ranges and checkpoint files are left out. -/

namespace DistDb.Cache
open Lib Wal Execution Mutation

abbrev EqualityFilters := List (String × Bytes)

/-- Row ids by value. The source drops a value that has no rows left. -/
abbrev Postings := Bytes → List UInt64

structure EqualityTableCacheEntry where
  latestTxId : UInt64
  rowsById : List LiveRow
  approxRowsBytes : Nat
  rowIdsByFieldValue : String → Option Postings

structure EqualityProbeCacheEntry where
  filters : Multiset (String × Bytes)
  latestTxId : UInt64
  rows : List LiveRow

structure CachedTable where
  table : TableState
  entry : Option EqualityTableCacheEntry
  probes : List EqualityProbeCacheEntry

/-- The size of an entry's map of rows depends on how it was allocated; the pages of an index that a
probe visits depend on the order of its encoded keys. -/
structure CacheEnv where
  write : WriteEnv
  accessorCacheRowsMaxBytes : Nat
  estimateRowsByIdBytes : List LiveRow → Nat
  pageKeys : Finset KeyTuple → List KeyTuple → List KeyTuple

variable (env : CacheEnv)

namespace CacheEnv

def valuesEqual (left right : Bytes) : Bool := storedFieldValuesEqual env.write.values left right

end CacheEnv

/-! ## Cache entries -/

namespace EqualityTableCacheEntry

variable (entry : EqualityTableCacheEntry)

def empty : EqualityTableCacheEntry := ⟨0, [], 0, fun _ => none⟩

def row (rowId : UInt64) : Option RowMap := entry.rowsById.lookup rowId

def estimateRowMapBytes (row : RowMap) : Nat :=
  64 + ∑ fieldName ∈ row.keys, (48 + fieldName.utf8ByteSize + ((row.lookup fieldName).getD []).length)

def bytesWithout (rowId : UInt64) : Nat :=
  entry.approxRowsBytes - ((entry.row rowId).map estimateRowMapBytes).getD 0

def withoutRow (rowId : UInt64) : List LiveRow := entry.rowsById.filter fun row => row.1 ≠ rowId

def updatePostings (row : RowMap) (f : List UInt64 → List UInt64) : String → Option Postings :=
  fun fieldName => (entry.rowIdsByFieldValue fieldName).map fun postings =>
    match row.lookup fieldName with
    | some value => Function.update postings value (f (postings value))
    | none => postings

def applyCachedRowInsert (rowId : UInt64) (row : RowMap) : EqualityTableCacheEntry :=
  { entry with
    rowsById := entry.withoutRow rowId ++ [(rowId, row)]
    approxRowsBytes := entry.bytesWithout rowId + estimateRowMapBytes row
    rowIdsByFieldValue := entry.updatePostings row (· ++ [rowId]) }

def applyCachedRowDelete (rowId : UInt64) (row : RowMap) : EqualityTableCacheEntry :=
  { entry with
    rowsById := entry.withoutRow rowId
    approxRowsBytes := entry.bytesWithout rowId
    rowIdsByFieldValue := entry.updatePostings row fun rowIds => rowIds.filter (· ≠ rowId) }

def withinBudget : Bool :=
  env.accessorCacheRowsMaxBytes = 0 ∨ entry.approxRowsBytes ≤ env.accessorCacheRowsMaxBytes

def enforceEntryRowBudget : EqualityTableCacheEntry := if entry.withinBudget env then entry else empty

def mutateRow (kind : TransactionKind) (rowId : UInt64) (row : RowMap) : EqualityTableCacheEntry :=
  match kind with
  | .insert | .update => entry.applyCachedRowInsert rowId row
  | .delete => entry.applyCachedRowDelete rowId row
  | _ => entry

def insertRows : EqualityTableCacheEntry → UInt64 → List RowMap → EqualityTableCacheEntry
  | entry, _, [] => entry
  | entry, rowId, row :: rows =>
    insertRows (entry.applyCachedRowInsert rowId row) (RuntimeIndexStore.nextRowRef rowId) rows

def buildPostingsForField (rows : List LiveRow) (fieldName : String) : Postings := fun value =>
  (rows.filter fun row => row.2.lookup fieldName = some value).map Prod.fst

def ensureFieldPostings (fieldName : String) : EqualityTableCacheEntry :=
  match entry.rowIdsByFieldValue fieldName with
  | some _ => entry
  | none =>
    { entry with
      rowIdsByFieldValue := Function.update entry.rowIdsByFieldValue fieldName
        (some (buildPostingsForField entry.rowsById fieldName)) }

def ensurePostings (fieldNames : List String) : EqualityTableCacheEntry :=
  fieldNames.foldl ensureFieldPostings entry

def postingsFor (filter : String × Bytes) : List UInt64 :=
  match entry.rowIdsByFieldValue filter.1 with
  | some postings => postings filter.2
  | none => []

def rowsForIds (rowIds : List UInt64) : List LiveRow :=
  rowIds.filterMap fun rowId => (entry.row rowId).map (rowId, ·)

def seedRowIds : EqualityFilters → List UInt64
  | [] => []
  | [filter] => entry.postingsFor filter
  | filter :: filters =>
    let seed := seedRowIds filters
    if (entry.postingsFor filter).length ≤ seed.length then entry.postingsFor filter else seed

/-- One filter trusts its postings; several check every row they start from. -/
def rowsForFieldValues (filters : EqualityFilters) : List LiveRow :=
  match filters with
  | [filter] => entry.rowsForIds (entry.postingsFor filter)
  | _ => (entry.rowsForIds (entry.seedRowIds filters)).filter fun row =>
    filters.all fun filter => row.2.lookup filter.1 = some filter.2

def build (latestTxId : UInt64) (rows : List LiveRow) (fieldName : String) : EqualityTableCacheEntry :=
  ensureFieldPostings ⟨latestTxId, rows, env.estimateRowsByIdBytes rows, fun _ => none⟩ fieldName

end EqualityTableCacheEntry

namespace CachedTable

variable (state : CachedTable)

def log : List TransactionRecord := state.table.log

def head : Option UInt64 := (latestTransactionId state.log).map (·.val)

/-! ## Writes -/

/-- `apply_equality_cache_row_mutation` sets the entry's id to that of the record, whatever it was. -/
def mutateEntry (latestTxId : UInt64)
    (f : EqualityTableCacheEntry → EqualityTableCacheEntry) : Option EqualityTableCacheEntry :=
  state.entry.map fun entry => (f { entry with latestTxId := latestTxId }).enforceEntryRowBudget env

structure RowWrite where
  kind : TransactionKind
  payload : Bytes
  refid : Option TransactionId
  expectedLiveRowIds : Option (List UInt64)
  preparedRow : Option RowMap
  groupId : Option TransactionId

def RowWrite.append (write : RowWrite) : TableState → Mutation.Outcome Unit :=
  appendRowPayloadRecord env.write write.kind write.payload write.refid write.expectedLiveRowIds
    write.preparedRow write.groupId

def cachedRowId (log : List TransactionRecord) (kind : TransactionKind) (refid : Option TransactionId) :
    UInt64 :=
  if kind = .delete then ((refid.or (latestTransactionId log)).getD (nextTransactionId log)).val
  else (nextTransactionId log).val

def appendRow (write : RowWrite) : CachedTable :=
  match write.append env state.table with
  | (table, .error _) => { state with table := table }
  | (table, .ok ()) =>
    match env.write.table.derivedIndexes, rowForIndexes env.write write.payload write.preparedRow with
    | _ :: _, .ok row =>
      { state with
        table := table
        entry := state.mutateEntry env (nextTransactionId state.log).val fun entry =>
          entry.mutateRow write.kind (cachedRowId state.log write.kind write.refid) row }
    | _, _ => { state with table := table }

def lastRowId (firstRowId : UInt64) : List RowMap → UInt64
  | [] => firstRowId
  | [_] => firstRowId
  | _ :: rows => lastRowId (RuntimeIndexStore.nextRowRef firstRowId) rows

def appendBatch (payloads : List Bytes) (preparedRows : Option (List RowMap)) (timestampEpochMs : UInt64)
    (groupId : Option TransactionId) : CachedTable :=
  match appendRowPayloadRecordsBatch env.write payloads preparedRows timestampEpochMs groupId state.table
    with
  | (table, .error _) => { state with table := table }
  | (table, .ok ()) =>
    match env.write.table.derivedIndexes, batchRows env.write payloads preparedRows with
    | _ :: _, .ok (row :: rows) =>
      let firstId := (firstRowId state.log).val
      { state with
        table := table
        entry := state.mutateEntry env (lastRowId firstId (row :: rows)) fun entry =>
          entry.insertRows firstId (row :: rows) }
    | _, _ => { state with table := table }

/-! ## Probe results -/

structure ProbeIo where
  expired : Bool
  stores : Bool
  keeps : EqualityProbeCacheEntry → Bool

def probe (filters : EqualityFilters) : Option EqualityProbeCacheEntry :=
  state.probes.find? fun probe => probe.filters = (filters : Multiset (String × Bytes))

def dropProbe (filters : EqualityFilters) : CachedTable :=
  { state with probes := state.probes.filter fun probe =>
      probe.filters ≠ (filters : Multiset (String × Bytes)) }

/-! ## Lookups -/

def rowMatchesEqualityFilters (filters : EqualityFilters) (row : RowMap) : Bool :=
  filters.all fun filter => (row.lookup filter.1).any fun value => env.valuesEqual value filter.2

def applyVisibleEqualityRecord (groups : TerminalGroups) (filters : EqualityFilters)
    (state : LiveRowState) (record : TransactionRecord) : LiveRowState :=
  if recordVisibleForLiveRowApply record groups then
    match record.kind with
    | .insert | .update =>
      match record.payload with
      | none => state
      | some payload =>
        match env.write.decode payload with
        | .ok row =>
          if rowMatchesEqualityFilters env filters row then state.put record.id.val row else state
        | .error _ => state
    | .delete =>
      match record.refid with
      | some refid => state.del refid.val
      | none => state
    | _ => state
  else state

/-- `record_at_wal_offset`: a row reference is a position in the stream. -/
def rowAtWalOffset (rowRef : UInt64) : Option LiveRow :=
  match state.log[rowRef.toNat]? with
  | none => none
  | some record =>
    if record.kind = .insert ∨ record.kind = .update then
      match record.payload with
      | none => none
      | some payload =>
        match env.write.decode payload with
        | .ok row => some (record.id.val, row)
        | .error _ => none
    else none

end CachedTable

def CachedTable.startup (log : List TransactionRecord) : CachedTable :=
  ⟨⟨log, RuntimeIndexStore.rebuildIndexes ∅ env.write.table.derivedIndexes (liveRows env.write log)⟩,
    none, []⟩

end DistDb.Cache
