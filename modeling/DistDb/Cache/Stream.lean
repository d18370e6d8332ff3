import DistDb.Cache.Equality
import DistDb.Wal.Manager

/-! # A table's stream and its cache

Besides the writes of its own node, a stream takes records from other nodes, it can be truncated and
renumbered, and its records can be dropped from memory. Checkpoint files are left out. -/

namespace DistDb.Cache
open Lib Wal Execution Mutation

/-! ## Imports -/

def placeRecord (log : List TransactionRecord) (record : TransactionRecord) : List TransactionRecord :=
  if isOrdered log record then log ++ [record] else (placeOutOfOrder log record).getD log

/-- The loop of `import_wal_records` over the records of one stream. A record with a known id is
skipped; one that is not stored ends the loop. -/
def importRecords : List TransactionRecord → List (TransactionRecord × Bool) →
    List TransactionRecord × Bool
  | log, [] => (log, true)
  | log, (record, stored) :: records =>
    if record.id ∈ log.map (·.id) then importRecords log records
    else if stored then importRecords (placeRecord log record) records
    else (log, false)

namespace CachedTable

variable (env : CacheEnv) (state : CachedTable)

def warmEqualityCache (fieldNames : List String) : CachedTable :=
  if fieldNames = [] then state
  else
    let rows := liveRows env.write state.log
    let entry := EqualityTableCacheEntry.ensurePostings
      ⟨state.head.getD 0, rows, env.estimateRowsByIdBytes rows, fun _ => none⟩ fieldNames
    if entry.withinBudget env then { state with entry := some entry } else state

/-- The table's part in `bootstrap_from_catalogs`. The cache is warmed only if a setting asks for it:
otherwise the fields are none. -/
def bootstrapFromCatalogs (warmFields : List String) : CachedTable :=
  if env.write.table.derivedIndexes = [] then state
  else
    { state with
      table.indexes := RuntimeIndexStore.rebuildIndexes state.table.indexes
        env.write.table.derivedIndexes (liveRows env.write state.log) }.warmEqualityCache env warmFields

/-- The table's part in `import_wal_records`; `replays` says whether the catalogs replay afterwards. -/
def importWalRecords (records : List (TransactionRecord × Bool)) (replays : Bool)
    (warmFields : List String) : CachedTable :=
  let (log, completed) := importRecords state.log records
  let imported := { state with table.log := log }
  if completed ∧ log ≠ state.log ∧ replays then imported.bootstrapFromCatalogs env warmFields else imported

/-- `clear_cached_table_state`: the probe results are kept under the stream's id and dropped under it;
the entry is kept under the stream's id too, but dropped under the table's. -/
def clearCachedTableState (tableId streamId : String) : CachedTable :=
  { state with
    entry := if tableId = streamId then none else state.entry
    probes := [] }

/-- `TRUNCATE TABLE`; the entries are compacted even if the file cannot be rewritten. -/
def truncateTable (streamId : String) (actor : UserId) (timestampEpochMs : UInt64) (rewritten : Bool) :
    CachedTable :=
  let compacted := { state with
    table.log := compactEntriesToLatestSchemaAndMetadata state.log actor timestampEpochMs }
  if rewritten then
    { compacted.clearCachedTableState env.write.table.tableId streamId with
      table.indexes := RuntimeIndexStore.rebuildIndexes state.table.indexes
        env.write.table.derivedIndexes [] }
  else compacted

/-- A bootstrap that realigns the stream first. Realignment is refused if no record would be left, and
changes nothing if the file cannot be rewritten. -/
def realignAndBootstrap (rewritten : Bool) (warmFields : List String) : CachedTable :=
  let log := Stream.realignedRecords state.log
  let realigned := if (log = [] ∧ state.log ≠ []) ∨ rewritten = false then state
    else { state with table.log := log }
  realigned.bootstrapFromCatalogs env warmFields

def loadLiveRowsByRuntimeIndexRowRefs (rowRefs : List UInt64) : List LiveRow :=
  rowRefs.filterMap (state.rowAtWalOffset env)

end CachedTable

/-! ## Streams that are loaded or not -/

/-- The records of a durable stream that is not loaded are those of its file. -/
structure CachedStream where
  streamId : String
  durable : Bool
  loaded : Bool
  cached : CachedTable

inductive StreamCacheOp where
  | append (write : CachedTable.RowWrite)
  | appendBatch (payloads : List Bytes) (preparedRows : Option (List RowMap)) (timestampEpochMs : UInt64)
  | importWalRecords (records : List (TransactionRecord × Bool)) (replays : Bool)
      (warmFields : List String)
  | fill (fieldName : String)
  | clear
  | invalidate
  | read

namespace CachedStream

variable (env : CacheEnv) (stream : CachedStream)

def log : List TransactionRecord := stream.cached.log

def latestTransactionIdIfLoaded : Option UInt64 := if stream.loaded then stream.cached.head else none

/-- `cache_entry_matches_loaded_wal_head`: without a head every entry matches. -/
def matchesLoadedWalHead (entry : EqualityTableCacheEntry) : Bool :=
  stream.latestTransactionIdIfLoaded.all (· = entry.latestTxId)

def matchingEntry : Option EqualityTableCacheEntry :=
  stream.cached.entry.filter stream.matchesLoadedWalHead

def fillEntry (fieldName : String) : CachedStream :=
  match stream.matchingEntry with
  | some entry => { stream with cached.entry := some (entry.ensureFieldPostings fieldName) }
  | none =>
    let built := EqualityTableCacheEntry.build env (stream.cached.head.getD 0)
      (liveRows env.write stream.log) fieldName
    if built.withinBudget env then { stream with cached.entry := some built } else stream

/-- `invalidate_stream_cache`: a stream without a file loses its records. -/
def invalidateStreamCache : CachedStream :=
  { stream with
    loaded := false
    cached.table.log := if stream.durable then stream.log else [] }

/-- Appends are outside of any group. They and imports load the stream. -/
def apply : StreamCacheOp → CachedStream
  | .append write =>
    { stream with loaded := true, cached := stream.cached.appendRow env { write with groupId := none } }
  | .appendBatch payloads preparedRows timestampEpochMs =>
    { stream with
      loaded := true
      cached := stream.cached.appendBatch env payloads preparedRows timestampEpochMs none }
  | .importWalRecords records replays warmFields =>
    { stream with
      loaded := true
      cached := stream.cached.importWalRecords env records replays warmFields }
  | .fill fieldName => stream.fillEntry env fieldName
  | .clear =>
    { stream with
      cached := stream.cached.clearCachedTableState env.write.table.tableId stream.streamId }
  | .invalidate => stream.invalidateStreamCache
  | .read => { stream with loaded := true }

end CachedStream

end DistDb.Cache
