import DistDb.Lib.Chunks
import DistDb.Lib.LiveLog
import DistDb.Payload.Row
import DistDb.Transaction.Record

/-! # Live rows of a table's log

A first pass collects the write groups that were committed or aborted, a second applies the records that are visible,
in chunks whose payloads are decoded by several workers. -/

namespace DistDb.Execution
open Lib

def liveRowApplyParallelMinRecords : Nat := 500000

def liveRowApplyParallelChunkSize : Nat := 200000

structure TerminalGroups where
  committed : Finset UInt64
  aborted : Finset UInt64
  deriving DecidableEq

def TerminalGroups.note (groups : TerminalGroups) (record : TransactionRecord) : TerminalGroups :=
  match record.kind, record.groupid with
  | .writeCommit, some groupId => { groups with committed := insert groupId.val groups.committed }
  | .writeAbort, some groupId => { groups with aborted := insert groupId.val groups.aborted }
  | _, _ => groups

def terminalGroups (walRecords : List TransactionRecord) : TerminalGroups :=
  walRecords.foldl TerminalGroups.note ⟨∅, ∅⟩

def recordVisibleForLiveRowApply (record : TransactionRecord) (groups : TerminalGroups) : Bool :=
  match record.groupid with
  | none => true
  | some groupId =>
    if groupId.val ∈ groups.aborted then false
    else if groupId.val ∉ groups.committed ∧ record.kind ≠ .writeCommit ∧ record.kind ≠ .writeAbort
    then false
    else true

def decodeLiveRow (schema : TableSchema) (groups : TerminalGroups) (record : TransactionRecord) :
    Option RowMap :=
  if recordVisibleForLiveRowApply record groups = true ∧
      (record.kind = .insert ∨ record.kind = .update) then
    match record.payload with
    | none => none
    | some payload =>
      match decodeRowPayload schema payload with
      | .ok row => some row
      | .error _ => none
  else none

def decodeLiveRowsAt (schema : TableSchema) (groups : TerminalGroups)
    (records : List (TransactionRecord × Nat)) : List (Nat × RowMap) :=
  records.filterMap fun entry => (decodeLiveRow schema groups entry.1).map (entry.2, ·)

def decodeLiveRowChunk (schema : TableSchema) (groups : TerminalGroups) (workers : Nat)
    (chunk : List TransactionRecord) : List (Nat × RowMap) :=
  if workers ≤ 1 ∨ chunk.length < 2 then decodeLiveRowsAt schema groups chunk.zipIdx
  else
    let chunkSize := (chunk.length + workers - 1) / workers
    (workerSlices chunkSize chunk 0 workers).flatMap fun slice =>
      decodeLiveRowsAt schema groups (slice.2.zipIdx slice.1)

abbrev LiveRowState := Replay UInt64 RowMap

def applyRecord (schema : TableSchema) (groups : TerminalGroups) (state : LiveRowState)
    (record : TransactionRecord) : LiveRowState :=
  if recordVisibleForLiveRowApply record groups then
    match record.kind with
    | .insert | .update =>
      match record.payload with
      | none => state
      | some payload =>
        match decodeRowPayload schema payload with
        | .ok row => state.put record.id.val row
        | .error _ => state
    | .delete =>
      match record.refid with
      | some refid => state.del refid.val
      | none => state
    | _ => state
  else state

def applyDecoded (groups : TerminalGroups) (state : LiveRowState × List (Nat × RowMap))
    (entry : TransactionRecord × Nat) : LiveRowState × List (Nat × RowMap) :=
  match entry.1.kind with
  | .insert | .update =>
    match state.2 with
    | (offset, row) :: decoded =>
      if offset = entry.2 then (state.1.put entry.1.id.val row, decoded) else state
    | [] => state
  | .delete =>
    if recordVisibleForLiveRowApply entry.1 groups then
      match entry.1.refid with
      | some refid => (state.1.del refid.val, state.2)
      | none => state
    else state
  | _ => state

def applyChunk (schema : TableSchema) (groups : TerminalGroups) (workers : Nat) (state : LiveRowState)
    (chunk : List TransactionRecord) : LiveRowState :=
  (chunk.zipIdx.foldl (applyDecoded groups)
    (state, decodeLiveRowChunk schema groups workers chunk)).1

def collectLiveRowsInChunks (schema : TableSchema) (walRecords : List TransactionRecord)
    (chunkSize workers : Nat) : List (UInt64 × RowMap) :=
  ((chunks chunkSize walRecords).foldl (applyChunk schema (terminalGroups walRecords) workers)
    Replay.empty).finish

/-- `apply_workers` is the configured number of workers or that of the machine, whichever is less. -/
def collectLiveRowsFromRecords (schema : TableSchema) (walRecords : List TransactionRecord)
    (applyWorkers : Nat) : List (UInt64 × RowMap) :=
  if applyWorkers > 1 ∧ walRecords.length ≥ liveRowApplyParallelMinRecords then
    collectLiveRowsInChunks schema walRecords liveRowApplyParallelChunkSize applyWorkers
  else
    (walRecords.foldl (applyRecord schema (terminalGroups walRecords)) Replay.empty).finish

end DistDb.Execution
