import DistDb.Execution.Lemmas.LiveRows
import DistDb.Session.Control
import DistDb.Wal.Requests

/-! # Conflict detection at commit

A commit is refused if a stream that it writes, or that the session has read, holds a data record with a later
timestamp than the session's `BEGIN`. -/

namespace DistDb.Isolation
open Lib Sql Session Wal Execution

/-! ## Latest writes of a stream -/

def isDataWrite (record : TransactionRecord) : Bool :=
  record.kind == .insert || record.kind == .update || record.kind == .delete

def writeTimestampIfDataWrite (record : TransactionRecord) : Option UInt64 :=
  if isDataWrite record then some record.timestampEpochMs else none

def raiseHighWater (highWater : Option UInt64) : Option UInt64 → Option UInt64
  | none => highWater
  | some writeTs =>
    match highWater with
    | none => some writeTs
    | some current => some (if current < writeTs then writeTs else current)

def latestWriteTimestamp (entries : List TransactionRecord) : Option UInt64 :=
  (entries.map writeTimestampIfDataWrite).foldl raiseHighWater none

structure WalStream where
  entries : StreamLog
  writeHighWater : Option UInt64

namespace WalStream

def new : WalStream := ⟨KeyedLog.empty, none⟩

def append (stream : WalStream) (records : List TransactionRecord) : WalStream where
  entries := stream.entries.mergeAll records
  writeHighWater := raiseHighWater stream.writeHighWater (latestWriteTimestamp records)

def hasWriteAfter (stream : WalStream) (timestampEpochMs : UInt64) : Bool :=
  match stream.writeHighWater with
  | some maxTs => timestampEpochMs < maxTs
  | none => (latestWriteTimestamp stream.entries.entries).any (timestampEpochMs < ·)

end WalStream

/-! ## The node -/

structure Names where
  databaseIdFromName : String → Option String
  stableId : String → String

structure CatalogEntity where
  key : String
  name : String
  walStreamId : String
  deriving DecidableEq

structure DatabaseCatalog where
  entities : List CatalogEntity
  deriving DecidableEq

def DatabaseCatalog.entityWalStreamId (catalog : DatabaseCatalog) (entityId : String) : Option String :=
  ((catalog.entities.find? (·.key == entityId)).or (catalog.entities.find? (·.name == entityId))).map
    (·.walStreamId)

structure Node where
  catalogs : Finmap fun _ : String => DatabaseCatalog
  wal : Finmap fun _ : String => WalStream

namespace Node

def obfuscatedStreamKey (names : Names) (walId : String) : Option String :=
  let normalized := toAsciiLowercase (trim walId)
  if normalized = "" then none else some (names.stableId normalized)

def stream (names : Names) (node : Node) (walId : String) : WalStream :=
  ((obfuscatedStreamKey names walId).bind node.wal.lookup).getD .new

def records (names : Names) (node : Node) (walId : String) : List TransactionRecord :=
  (node.stream names walId).entries.entries

def hasWriteAfter (names : Names) (node : Node) (walId : String) (timestampEpochMs : UInt64) : Bool :=
  (node.stream names walId).hasWriteAfter timestampEpochMs

def catalog (names : Names) (node : Node) (databaseId : String) : Option DatabaseCatalog :=
  (resolveCatalogKey names.databaseIdFromName (fun key => (node.catalogs.lookup key).isSome) databaseId).bind
    node.catalogs.lookup

/-- The stream looked at for a table has a write after `BEGIN`; an unknown name is taken as the name
of a stream. -/
def hasLateWrite (names : Names) (node : Node) (snapshotEpochMs : UInt64) (databaseId tableId : String) : Bool :=
  match node.catalog names databaseId with
  | none => false
  | some catalog =>
    node.hasWriteAfter names ((catalog.entityWalStreamId tableId).getD tableId) snapshotEpochMs

def touchedTables (parse : Parser) (stagedQueries : List DataQuery) : List (String × String) :=
  stagedQueries.flatMap fun query =>
    ((parse query).elim [] dmlObjectNames).map fun tableId => (query.databaseId, tableId)

def detectWriteWriteConflict (names : Names) (parse : Parser) (node : Node) (snapshotEpochMs : UInt64)
    (stagedQueries : List DataQuery) : Option String :=
  ((touchedTables parse stagedQueries).find? fun table =>
      node.hasLateWrite names snapshotEpochMs table.1 table.2).map fun table =>
    "snapshot isolation conflict detected for database '" ++ table.1 ++ "' table '" ++ table.2 ++ "'"

def detectPredicateReadConflicts (names : Names) (node : Node) (observations : Option (List ReadObservation))
    (snapshotEpochMs : UInt64) : Option String :=
  observations.bind fun observations =>
    (observations.find? fun observation =>
        node.hasLateWrite names snapshotEpochMs observation.databaseId observation.tableId).map fun observation =>
      "serializable predicate conflict detected for database '" ++ observation.databaseId ++ "' table '" ++
        observation.tableId ++ "'"

/-- The checks of `commit_staged_queries`; a session without a begin time is not checked. -/
def commitConflict (names : Names) (parse : Parser) (node : Node) (input : CommitInput σ) : Option String :=
  if 0 < input.snapshotEpochMs then
    let snapshotEpochMs := UInt64.ofNat input.snapshotEpochMs
    (node.detectWriteWriteConflict names parse snapshotEpochMs input.stagedQueries).or
      (node.detectPredicateReadConflicts names input.observations snapshotEpochMs)
  else none

/-! ## Appends -/

/-- Records appended to a stream by a statement, a write group, a terminal marker or an import; the
worker may refuse them. -/
structure Append where
  walId : String
  records : List TransactionRecord
  acknowledged : Bool

def step (names : Names) (node : Node) (event : Append) : Node :=
  match obfuscatedStreamKey names event.walId with
  | none => node
  | some streamKey =>
    if event.acknowledged then
      { node with wal := node.wal.insert streamKey ((node.stream names event.walId).append event.records) }
    else node

/-! ## What staged queries write -/

def writtenWalIds (names : Names) (parse : Parser) (node : Node) (stagedQueries : List DataQuery) : List String :=
  (touchedTables parse stagedQueries).filterMap fun table =>
    (node.catalog names table.1).bind (·.entityWalStreamId (normalizeIdentifier table.2))

end Node

end DistDb.Isolation
