import DistDb.Execution.LiveRows
import DistDb.Wal.Requests

/-! # Terminal markers of write groups

A transaction writes to the streams of its tables under one group id. It ends with a commit marker
in each of them, one stream after the other, or with an abort marker in each. -/

namespace DistDb.Group
open Lib Wal

abbrev Streams := String → List TransactionRecord

def serverUser : UserId := ⟨"b0efd4bd9c99b322"⟩

def payloadRecord (log : List TransactionRecord) (kind : TransactionKind) (payload : Bytes)
    (timestampEpochMs : UInt64) (groupId : Option TransactionId) : TransactionRecord where
  id := nextTransactionId log
  groupid := groupId.or (if kind = .writeBegin then some (nextTransactionId log) else none)
  refid := latestTransactionId log
  timestampEpochMs := timestampEpochMs
  actor := serverUser
  kind := kind
  payload := some payload

def groupedStreamExpectedRecordCount (log : List TransactionRecord) (groupId : TransactionId) : Nat :=
  (log.filter fun record => record.groupid = some groupId ∧ record.kind ≠ .writeBegin ∧
    record.kind ≠ .writeCommit ∧ record.kind ≠ .writeAbort).length

def encodeWriteGroupTerminalPayload (expectedCount : Nat) : Bytes := leBytes 8 expectedCount

def terminalRecord (log : List TransactionRecord) (kind : TransactionKind) (groupId : TransactionId)
    (timestampEpochMs : UInt64) : TransactionRecord :=
  payloadRecord log kind
    (encodeWriteGroupTerminalPayload (groupedStreamExpectedRecordCount log groupId))
    timestampEpochMs (some groupId)

/-- The streams as the process has them in memory, and as the next process reads them from their files. -/
structure StoredStreams where
  memory : Streams
  files : Streams

inductive Replayer where
  | process
  | restart
  deriving DecidableEq, Repr

def StoredStreams.seenBy (stored : StoredStreams) : Replayer → Streams
  | .process => stored.memory
  | .restart => stored.files

inductive MarkerOutcome where
  | stored
  | failed (error : String)
  | crashed
  deriving DecidableEq, Repr

/-- What becomes of one marker. The file may have it whatever the outcome is: an append that fails at its sync, or a
process that stops then, can have written all of it, and a marker that was stored is lost behind a torn frame. -/
structure MarkerIo where
  timestampEpochMs : UInt64
  outcome : MarkerOutcome
  onDisk : Bool

def MarkerIo.reaches (io : MarkerIo) : Replayer → Bool
  | .process => io.outcome = .stored
  | .restart => io.onDisk

inductive Ending where
  | returned (result : Except String Unit)
  | crashed

def Streams.append (streams : Streams) (streamId : String) (record : TransactionRecord) : Streams :=
  Function.update streams streamId (streams streamId ++ [record])

def StoredStreams.mark (stored : StoredStreams) (kind : TransactionKind) (groupId : TransactionId) (io : MarkerIo)
    (streamId : String) : StoredStreams :=
  let record := terminalRecord (stored.memory streamId) kind groupId io.timestampEpochMs
  ⟨if io.reaches .process then stored.memory.append streamId record else stored.memory,
    if io.reaches .restart then stored.files.append streamId record else stored.files⟩

/-- The loop over the streams of a group, which a failed append ends or not. -/
def markStreams (kind : TransactionKind) (endsAtFailure : Bool) (io : String → MarkerIo) (groupId : TransactionId) :
    List String → StoredStreams → StoredStreams × Ending
  | [], stored => (stored, .returned (.ok ()))
  | streamId :: streamIds, stored =>
    let marked := stored.mark kind groupId (io streamId) streamId
    match (io streamId).outcome with
    | .stored => markStreams kind endsAtFailure io groupId streamIds marked
    | .failed error =>
      if endsAtFailure then (marked, .returned (.error error))
      else markStreams kind endsAtFailure io groupId streamIds marked
    | .crashed => (marked, .crashed)

def commitExternalWriteGroup : (String → MarkerIo) → TransactionId → List String → StoredStreams →
    StoredStreams × Ending := markStreams .writeCommit true

/-- The error of an append is dropped. -/
def abortExternalWriteGroup : (String → MarkerIo) → TransactionId → List String → StoredStreams →
    StoredStreams × Ending := markStreams .writeAbort false

/-- What happens while a group ends; without `abort` the process stops before it gets there. -/
structure GroupIo where
  commit : String → MarkerIo
  abort : Option (String → MarkerIo)

/-- The end of `commit_staged_queries`: a commit that returns an error is followed by an abort. -/
def finishWriteGroup (io : GroupIo) (groupId : TransactionId) (streamIds : List String)
    (stored : StoredStreams) : StoredStreams :=
  match commitExternalWriteGroup io.commit groupId streamIds stored with
  | (stored, .returned (.error _)) =>
    match io.abort with
    | some abortIo => (abortExternalWriteGroup abortIo groupId streamIds stored).1
    | none => stored
  | (stored, .returned (.ok ())) => stored
  | (stored, .crashed) => stored

/-! ## Which markers reach their streams -/

def goesOn (endsAtFailure : Bool) : MarkerOutcome → Bool
  | .stored => true
  | .failed _ => !endsAtFailure
  | .crashed => false

def markerReaches (endsAtFailure : Bool) (io : String → MarkerIo) (replayer : Replayer) : List String → String → Bool
  | [], _ => false
  | streamId :: streamIds, target =>
    (target == streamId && (io streamId).reaches replayer) ||
      (goesOn endsAtFailure (io streamId).outcome && markerReaches endsAtFailure io replayer streamIds target)

def commitFails (io : String → MarkerIo) : List String → Bool
  | [] => false
  | streamId :: streamIds =>
    match (io streamId).outcome with
    | .stored => commitFails io streamIds
    | .failed _ => true
    | .crashed => false

/-- The stream has a commit marker and no abort marker for the one who replays it. -/
def GroupIo.leavesCommitted (io : GroupIo) (replayer : Replayer) (streamIds : List String) (target : String) : Bool :=
  markerReaches true io.commit replayer streamIds target &&
    !(commitFails io.commit streamIds &&
      io.abort.any fun abortIo => markerReaches false abortIo replayer streamIds target)

end DistDb.Group
