import DistDb.Lib.KeyedLog
import DistDb.Wal.Storage

/-! # The stream worker

Each stream has one worker that handles its commands in turn. What the disk and the locks do during
a command is an input of the step. -/

namespace DistDb.Wal
open Lib

structure WalEnv where
  prims : PayloadPrimitives
  maxFrameBytes : Nat
  syncOnAppend : Bool

def WalEnv.unset (prims : PayloadPrimitives) : WalEnv := ⟨prims, 64 * 1024 * 1024, true⟩

/-! ## Files -/

/-- `write_all`: a failed call may have written some of the bytes. -/
inductive WriteOutcome where
  | stored
  | failed (written : Nat)
  deriving DecidableEq, Repr

/-- `fs::write` truncates the file before it writes. -/
inductive RewriteOutcome where
  | stored
  | notOpened
  | failed (written : Nat)
  deriving DecidableEq, Repr

/-- What the locks, the file system and the random source answer while one command is handled. -/
structure IoOutcome where
  storageLock : Bool
  entriesLock : Bool
  openAppend : Bool
  write : WriteOutcome
  reopenAppend : Bool
  retryWrite : WriteOutcome
  sync : Bool
  rewrite : RewriteOutcome
  openForSync : Bool
  rand : Nat → Option Nonce

def IoOutcome.success : IoOutcome where
  storageLock := true
  entriesLock := true
  openAppend := true
  write := .stored
  reopenAppend := true
  retryWrite := .stored
  sync := true
  rewrite := .stored
  openForSync := true
  rand _ := some ⟨List.replicate 12 0, rfl⟩

/-- A log file and the worker's append handle on it; `contents` is `none` for a missing file. -/
structure WalFile where
  contents : Option Bytes
  appendFile : Bool
  deriving DecidableEq, Repr

namespace WalFile

def openWalAppendFile (file : WalFile) (opened : Bool) : WalFile :=
  if opened then ⟨some (file.contents.getD []), true⟩ else { file with appendFile := false }

def writeAll (file : WalFile) (bytes : Bytes) : WriteOutcome → WalFile
  | .stored => { file with contents := some (file.contents.getD [] ++ bytes) }
  | .failed written => { file with contents := some (file.contents.getD [] ++ bytes.take written) }

def syncData (env : WalEnv) (io : IoOutcome) (file : WalFile) : WalFile × Except String Unit :=
  if env.syncOnAppend && !io.sync then (file, .error "failed to sync WAL bytes to disk")
  else (file, .ok ())

/-- The second half of `append_wal_bytes`: reopen the handle and write everything again. -/
def retryAppend (env : WalEnv) (io : IoOutcome) (file : WalFile) (bytes : Bytes) :
    WalFile × Except String Unit :=
  if io.reopenAppend then
    let file := (file.openWalAppendFile true).writeAll bytes io.retryWrite
    match io.retryWrite with
    | .stored => file.syncData env io
    | .failed _ => (file, .error "failed to persist WAL bytes to disk")
  else (file, .error "failed to open WAL append file")

def appendHandle (file : WalFile) : WalFile :=
  if file.appendFile then file else file.openWalAppendFile true

def appendWalBytes (env : WalEnv) (io : IoOutcome) (file : WalFile) (bytes : Bytes) :
    WalFile × Except String Unit :=
  if file.appendFile || io.openAppend then
    let file := file.appendHandle.writeAll bytes io.write
    match io.write with
    | .stored => file.syncData env io
    | .failed _ => file.retryAppend env io bytes
  else (file, .error "failed to open WAL append file")

def writeBytes (file : WalFile) (bytes : Bytes) : RewriteOutcome → WalFile × Bool
  | .stored => ({ file with contents := some bytes }, true)
  | .notOpened => (file, false)
  | .failed written => ({ file with contents := some (bytes.take written) }, false)

def rewriteWalFileWithContext (env : WalEnv) (io : IoOutcome) (file : WalFile)
    (records : List TransactionRecord) (context : TransactionPayloadContext) :
    WalFile × Except String Unit :=
  match frameRecords env.prims context io.rand records with
  | .error e => (file, .error e)
  | .ok frames =>
    match file.writeBytes (makeHeader ++ frames) io.rewrite with
    | (file, false) => (file, .error "failed to rewrite compacted WAL file")
    | (file, true) =>
      if env.syncOnAppend && !io.openForSync then (file, .error "failed to reopen WAL file for sync")
      else if env.syncOnAppend && !io.sync then (file, .error "failed to sync rewritten WAL file")
      else (file, .ok ())

end WalFile

/-! ## Placing a record -/

def isOrdered (entries : List TransactionRecord) (record : TransactionRecord) : Bool :=
  match entries.getLast? with
  | some last => last.id.val < record.id.val
  | none => true

/-- `binary_search_by_key(..).unwrap_or_else(|idx| idx)` -/
def basePos (entries : List TransactionRecord) (record : TransactionRecord) : Nat :=
  match binarySearchByKey entries record.key TransactionRecord.key with
  | .ok idx => idx
  | .error idx => idx

def exactRecordDuplicateFrom (record : TransactionRecord) : List TransactionRecord → Bool
  | [] => false
  | entry :: entries =>
    if entry.id = record.id then entry = record || exactRecordDuplicateFrom record entries
    else false

/-- The scan only goes forward from `startIdx`. -/
def exactRecordDuplicateAtOrAfter (entries : List TransactionRecord) (record : TransactionRecord)
    (startIdx : Nat) : Bool :=
  exactRecordDuplicateFrom record (entries.drop startIdx)

def insertPos (entries : List TransactionRecord) (record : TransactionRecord) (startIdx : Nat) :
    Nat :=
  startIdx + ((entries.drop startIdx).takeWhile fun entry => entry.id.val ≤ record.id.val).length

/-- Out-of-order placement: `none` for an exact duplicate, which both requests drop silently. -/
def placeOutOfOrder (entries : List TransactionRecord) (record : TransactionRecord) :
    Option (List TransactionRecord) :=
  let basePos := basePos entries record
  if exactRecordDuplicateAtOrAfter entries record basePos then none
  else some (entries.insertIdx (insertPos entries record basePos) record)

def batchOrdered : (previousId : Option UInt64) → List TransactionRecord → Bool
  | _, [] => true
  | previousId, record :: records =>
    (match previousId with
      | some lastId => lastId < record.id.val
      | none => true) && batchOrdered (some record.id.val) records

structure BatchState where
  workingEntries : List TransactionRecord
  mergedOutOfOrder : Bool
  stagedDirty : Bool

def BatchState.place (batch : BatchState) (record : TransactionRecord) : BatchState :=
  if isOrdered batch.workingEntries record then
    { batch with workingEntries := batch.workingEntries ++ [record], stagedDirty := true }
  else
    match placeOutOfOrder batch.workingEntries record with
    | none => batch
    | some entries => ⟨entries, true, true⟩

def mergeBatch (entries : List TransactionRecord) (records : List TransactionRecord) : BatchState :=
  records.foldl BatchState.place ⟨entries, false, false⟩

/-! ## Reading from a position -/

/-- `partition_point`: a binary search, whether or not the records are in the order of their ids. -/
def firstRecordIndexAfterId (entries : List TransactionRecord) (minId : TransactionId) : Nat :=
  partitionPoint (fun entry => entry.id.val ≤ minId.val) entries

def entriesSince (entries : List TransactionRecord) : Option TransactionId → List TransactionRecord
  | some minId => entries.drop (firstRecordIndexAfterId entries minId)
  | none => entries

/-! ## Compaction -/

def latestOf (p : TransactionKind → Bool) (entries : List TransactionRecord) :
    Option TransactionRecord :=
  entries.reverse.find? fun record => p record.kind

def renumberFrom : Nat → List TransactionRecord → List TransactionRecord
  | _, [] => []
  | position, record :: records =>
    { record with id := ⟨UInt64.ofNat position⟩ } :: renumberFrom (position + 1) records

def compactEntriesToLatestSchemaAndMetadata (entries : List TransactionRecord) (actor : UserId)
    (timestampEpochMs : UInt64) : List TransactionRecord :=
  let latestSchema := latestOf (· == .schemaChange) entries
  let latestMetadata := latestOf (fun kind => kind == .metadataChange || kind == .securityChange) entries
  let retainedIds := (latestSchema.toList ++ latestMetadata.toList).map (·.id)
  -- A record is kept by id, so records that share a retained id are kept with it.
  let rebuilt := (entries.map fun record =>
    if record.id ∈ retainedIds then record
    else { record with kind := .ignore, refid := none, payload := none }).filter (·.kind != .ignore)
  let rebuilt := rebuilt.map fun record =>
    match record.refid with
    | some refid => if refid ∈ retainedIds then record else { record with refid := none }
    | none => record
  renumberFrom 0 (rebuilt ++ [⟨⟨0⟩, none, none, timestampEpochMs, actor, .truncate, none⟩])

/-! ## Commands -/

inductive WalCommand where
  | append (record : TransactionRecord) (context : TransactionPayloadContext)
  | appendBatch (records : List TransactionRecord) (context : TransactionPayloadContext)
  | compactToLatestSchemaAndMetadata (actor : UserId) (timestampEpochMs : UInt64)
  | shutdown

def WalCommand.sendError : WalCommand → String
  | append .. => "failed to send WAL append command"
  | appendBatch .. => "failed to send WAL append-batch command"
  | compactToLatestSchemaAndMetadata .. => "failed to send WAL compact command"
  | shutdown => "failed to send WAL shutdown command"

/-- `walFile` is `none` for a stream kept in memory only. A worker that failed to take a lock has
left its loop, and its channel refuses further commands. -/
structure Worker where
  entries : List TransactionRecord
  walFile : Option WalFile
  running : Bool

abbrev Handled := Worker × Except String Unit

namespace Worker

def handleAppend (env : WalEnv) (io : IoOutcome) (worker : Worker) (record : TransactionRecord)
    (context : TransactionPayloadContext) : Handled :=
  if isOrdered worker.entries record then
    match worker.walFile with
    | none => ({ worker with entries := worker.entries ++ [record] }, .ok ())
    | some file =>
      match frameRecordWithContext env.prims (io.rand 0) record context with
      | .error e => (worker, .error e)
      | .ok frame =>
        match file.appendWalBytes env io frame with
        | (file, .error _) =>
          ({ worker with walFile := some file }, .error "failed to persist WAL record to disk")
        | (file, .ok ()) =>
          ({ worker with entries := worker.entries ++ [record], walFile := some file }, .ok ())
  else
    match placeOutOfOrder worker.entries record with
    | none => (worker, .ok ())
    | some stagedEntries =>
      match worker.walFile with
      | none => ({ worker with entries := stagedEntries }, .ok ())
      | some file =>
        match file.rewriteWalFileWithContext env io stagedEntries context with
        | (file, .error e) => ({ worker with walFile := some file }, .error e)
        | (file, .ok ()) =>
          ({ worker with
              entries := stagedEntries
              walFile := some (file.openWalAppendFile io.reopenAppend) }, .ok ())

def handleAppendBatch (env : WalEnv) (io : IoOutcome) (worker : Worker)
    (records : List TransactionRecord) (context : TransactionPayloadContext) : Handled :=
  if batchOrdered (worker.entries.getLast?.map (·.id.val)) records then
    match worker.walFile with
    | none => ({ worker with entries := worker.entries ++ records }, .ok ())
    | some file =>
      match frameRecords env.prims context io.rand records with
      | .error e => (worker, .error e)
      | .ok frames =>
        match file.appendWalBytes env io frames with
        | (file, .error _) =>
          ({ worker with walFile := some file },
            .error "failed to persist WAL record batch to disk")
        | (file, .ok ()) =>
          ({ worker with entries := worker.entries ++ records, walFile := some file }, .ok ())
  else
    let batch := mergeBatch worker.entries records
    match worker.walFile with
    | none => ({ worker with entries := batch.workingEntries }, .ok ())
    | some file =>
      if batch.stagedDirty then
        match file.rewriteWalFileWithContext env io batch.workingEntries context with
        | (file, .error e) => ({ worker with walFile := some file }, .error e)
        | (file, .ok ()) =>
          let file := if batch.mergedOutOfOrder then file.openWalAppendFile io.reopenAppend else file
          ({ worker with entries := batch.workingEntries, walFile := some file }, .ok ())
      else (worker, .ok ())

def handleCompact (env : WalEnv) (io : IoOutcome) (worker : Worker) (actor : UserId)
    (timestampEpochMs : UInt64) : Handled :=
  let entries := compactEntriesToLatestSchemaAndMetadata worker.entries actor timestampEpochMs
  match worker.walFile with
  | none => ({ worker with entries := entries }, .ok ())
  | some file =>
    match file.rewriteWalFileWithContext env io entries default with
    | (file, .error e) => ({ worker with entries := entries, walFile := some file }, .error e)
    | (file, .ok ()) =>
      ({ worker with
          entries := entries
          walFile := some (file.openWalAppendFile io.reopenAppend) }, .ok ())

def withLocks (io : IoOutcome) (worker : Worker) (handle : Handled) : Handled :=
  if io.storageLock && io.entriesLock then handle
  else ({ worker with running := false }, .error "failed to lock WAL storage")

def step (env : WalEnv) (worker : Worker) (command : WalCommand) (io : IoOutcome) : Handled :=
  if worker.running then
    match command with
    | .append record context => worker.withLocks io (worker.handleAppend env io record context)
    | .appendBatch records context =>
      if records.isEmpty then (worker, .ok ())
      else worker.withLocks io (worker.handleAppendBatch env io records context)
    | .compactToLatestSchemaAndMetadata actor timestampEpochMs =>
      worker.withLocks io (worker.handleCompact env io actor timestampEpochMs)
    | .shutdown => ({ worker with running := false }, .ok ())
  else (worker, .error command.sendError)

end Worker

end DistDb.Wal
