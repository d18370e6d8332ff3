import DistDb.Wal.Worker

/-! # The manager's part of a stream

What `ConcurrentWalManager` keeps for one durable stream, the file included, and the operations on it.
The write high-water mark is left out: none of these operations reads it. -/

namespace DistDb.Wal
open Lib

structure WorkerHandle where
  appendFile : Bool
  running : Bool
  deriving DecidableEq, Repr

/-- `entries` is `none` while the stream is not hydrated, `contents` while its file is missing. -/
structure Stream where
  entries : Option (List TransactionRecord)
  worker : Option WorkerHandle
  contents : Option Bytes
  deriving DecidableEq, Repr

/-- What else can go wrong around a command: reading the file, the lock on the worker table, writing
the header of a new file. -/
structure StreamIo extends IoOutcome where
  openRead : Bool
  workersLock : Bool
  createHeader : RewriteOutcome

def StreamIo.success : StreamIo := { IoOutcome.success with
  openRead := true
  workersLock := true
  createHeader := .stored }

namespace Stream

def fresh : Stream := ⟨none, none, none⟩

/-- Hydration always reads under the default context. -/
def hydrateStreamIfNeeded (env : WalEnv) (io : StreamIo) (stream : Stream) : Stream :=
  match stream.entries with
  | some _ => stream
  | none =>
    if io.storageLock then
      match stream.contents with
      | none => { stream with entries := some [] }
      | some contents =>
        let opened := if io.openRead then some contents else none
        { stream with entries := some (loadRecordsFromPath env.prims env.maxFrameBytes opened) }
    else stream

/-- A new worker makes sure the file has a header; it only logs if that fails. -/
def spawnWorker (io : StreamIo) (stream : Stream) : Stream :=
  let contents :=
    match stream.contents with
    | some contents => some contents
    | none => ((⟨none, false⟩ : WalFile).writeBytes makeHeader io.createHeader).1.contents
  let file := (⟨contents, false⟩ : WalFile).openWalAppendFile io.openAppend
  { stream with worker := some ⟨file.appendFile, true⟩, contents := file.contents }

def getOrSpawnWorker (io : StreamIo) (stream : Stream) : Except String Stream :=
  if io.workersLock then
    match stream.worker with
    | some _ => .ok stream
    | none => .ok (stream.spawnWorker io)
  else .error "failed to lock WAL workers"

def toWorker (stream : Stream) (handle : WorkerHandle) : Worker :=
  ⟨stream.entries.getD [], some ⟨stream.contents, handle.appendFile⟩, handle.running⟩

/-- What a handled command leaves: the worker only inserts a missing entry list once it has the
storage lock. -/
def ofWorker (io : StreamIo) (stream : Stream) (worker : Worker) : Stream where
  entries := if io.storageLock then some worker.entries else stream.entries
  worker := some ⟨(worker.walFile.map (·.appendFile)).getD false, worker.running⟩
  contents := worker.walFile.bind (·.contents)

def sendCommand (env : WalEnv) (io : StreamIo) (stream : Stream) (command : WalCommand) :
    Stream × Except String Unit :=
  let stream := stream.hydrateStreamIfNeeded env io
  match stream.getOrSpawnWorker io with
  | .error e => (stream, .error e)
  | .ok stream =>
    match stream.worker with
    | none => (stream, .error "failed to receive WAL worker startup acknowledgement")
    | some handle =>
      let handled := (stream.toWorker handle).step env command io.toIoOutcome
      (stream.ofWorker io handled.1, handled.2)

def appendWithContext (env : WalEnv) (io : StreamIo) (stream : Stream) (record : TransactionRecord)
    (context : TransactionPayloadContext) : Stream × Except String Unit :=
  stream.sendCommand env io (.append record context)

def appendBatchWithContext (env : WalEnv) (io : StreamIo) (stream : Stream)
    (records : List TransactionRecord) (context : TransactionPayloadContext) :
    Stream × Except String Unit :=
  if records.isEmpty then (stream, .ok ())
  else stream.sendCommand env io (.appendBatch records context)

def compactStreamToLatestSchemaAndMetadata (env : WalEnv) (io : StreamIo) (stream : Stream)
    (actor : UserId) (timestampEpochMs : UInt64) : Stream × Except String Unit :=
  stream.sendCommand env io (.compactToLatestSchemaAndMetadata actor timestampEpochMs)

/-! ## Realignment -/

/-- The new position of the last live record with this id. -/
def idRemap (rebuilt : List TransactionRecord) (id : TransactionId) : Option TransactionId :=
  ((rebuilt.map (·.id)).reverse.idxOf? id).map fun fromEnd =>
    ⟨UInt64.ofNat (rebuilt.length - 1 - fromEnd)⟩

def realignRecord (remap : TransactionId → Option TransactionId) (record : TransactionRecord) :
    TransactionRecord :=
  { record with refid := record.refid.bind remap, groupid := record.groupid.bind remap }

/-- Live records, renumbered by position, with their references remapped. -/
def realignedRecords (entries : List TransactionRecord) : List TransactionRecord :=
  let rebuilt := entries.filter (·.kind != .ignore)
  renumberFrom 0 (rebuilt.map (realignRecord (idRemap rebuilt)))

def realignStreamRecords (env : WalEnv) (io : StreamIo) (stream : Stream) :
    Stream × Except String Unit :=
  let stream := stream.hydrateStreamIfNeeded env io
  match stream.entries with
  | none => (stream, .error "WAL stream is unavailable")
  | some entries =>
    if io.entriesLock then
      let rebuilt := realignedRecords entries
      if rebuilt.isEmpty && !entries.isEmpty then
        (stream, .error "WAL realignment refused: no live records remain")
      else
        let file : WalFile := ⟨stream.contents, (stream.worker.map (·.appendFile)).getD false⟩
        match file.rewriteWalFileWithContext env io.toIoOutcome rebuilt default with
        | (file, .error e) => ({ stream with contents := file.contents }, .error e)
        | (file, .ok ()) => (⟨some rebuilt, stream.worker, file.contents⟩, .ok ())
    else (stream, .error "failed to lock WAL records")

/-! ## Dropping -/

/-- The worker is dropped first, so it is gone even if a later step fails. -/
def clearStreamRecords (io : StreamIo) (stream : Stream) : Stream × Except String Unit :=
  if io.workersLock then
    let stream := { stream with worker := none }
    if io.storageLock then
      match (⟨stream.contents, false⟩ : WalFile).writeBytes makeHeader io.rewrite with
      | (file, true) => (⟨none, none, file.contents⟩, .ok ())
      | (file, false) => (⟨none, none, file.contents⟩, .error "failed to clear WAL file")
    else (stream, .error "failed to lock WAL storage")
  else (stream, .error "failed to lock WAL workers")

def invalidateStreamCache (io : StreamIo) (stream : Stream) : Stream × Except String Unit :=
  if io.storageLock then ({ stream with entries := none }, .ok ())
  else (stream, .error "failed to lock WAL storage")

end Stream

inductive StreamOp where
  | append (record : TransactionRecord) (context : TransactionPayloadContext)
  | appendBatch (records : List TransactionRecord) (context : TransactionPayloadContext)
  | compact (actor : UserId) (timestampEpochMs : UInt64)
  | realign
  | clear
  | invalidate

def Stream.apply (env : WalEnv) (stream : Stream) (op : StreamOp) (io : StreamIo) :
    Stream × Except String Unit :=
  match op with
  | .append record context => stream.appendWithContext env io record context
  | .appendBatch records context => stream.appendBatchWithContext env io records context
  | .compact actor timestampEpochMs =>
    stream.compactStreamToLatestSchemaAndMetadata env io actor timestampEpochMs
  | .realign => stream.realignStreamRecords env io
  | .clear => stream.clearStreamRecords io
  | .invalidate => stream.invalidateStreamCache io

end DistDb.Wal
