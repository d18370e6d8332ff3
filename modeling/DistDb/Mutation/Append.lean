import DistDb.Group.Terminal
import DistDb.Table.RuntimeIndex

/-! # Row records

How a statement appends the records of its rows to a table's stream, and keeps the runtime indexes in
step with them. -/

namespace DistDb.Mutation
open Lib Wal Execution

abbrev LiveRow := UInt64 × RowMap

/-- What a statement finds around a table. Faults and times may depend on all that was written. -/
structure WriteEnv where
  table : DatabaseTable
  values : ValuePrimitives
  prims : PayloadPrimitives
  context : TransactionPayloadContext
  fault : AppendFault
  clock : List TransactionRecord → UInt64
  applyWorkers : Nat

namespace WriteEnv

variable (env : WriteEnv)

def schema : TableSchema := env.table.schema

def encode (row : RowMap) : Bytes := encodeRowPayload env.values env.schema row

def decode (payload : Bytes) : Except String RowMap := decodeRowPayload env.schema payload

end WriteEnv

structure TableState where
  log : List TransactionRecord
  indexes : RuntimeIndexStore

abbrev Outcome (α : Type) := TableState × Except String α

variable (env : WriteEnv)

/-! ## Live rows -/

def resolveRecord (record : TransactionRecord) : Except String TransactionRecord :=
  match resolveWalStoragePayload env.prims env.context record.payload with
  | .ok payload => .ok { record with payload := payload }
  | .error e => .error (mapPayloadTransformError e)

def resolveRecords : List TransactionRecord → Except String (List TransactionRecord)
  | [] => .ok []
  | record :: records =>
    match resolveRecord env record with
    | .error e => .error e
    | .ok record =>
      match resolveRecords records with
      | .error e => .error e
      | .ok records => .ok (record :: records)

def sinceWithContext (log : List TransactionRecord) : Except String (List TransactionRecord) :=
  if env.context = default then .ok log else resolveRecords env log

def loadLiveRowsWithContext (log : List TransactionRecord) : Except String (List LiveRow) :=
  match sinceWithContext env log with
  | .ok records => .ok (collectLiveRowsFromRecords env.schema records env.applyWorkers)
  | .error e => .error e

/-! ## Single records -/

def checkLiveRow (refid : Option TransactionId) (expectedLiveRowIds : Option (List UInt64))
    (log : List TransactionRecord) : Except String Unit :=
  match refid with
  | none => .ok ()
  | some refid =>
    match expectedLiveRowIds with
    | some liveRowIds => stale refid liveRowIds
    | none =>
      match loadLiveRowsWithContext env log with
      | .error e => .error s!"live row load failed: {e}"
      | .ok rows => stale refid (rows.map Prod.fst)
where
  stale (refid : TransactionId) (liveRowIds : List UInt64) : Except String Unit :=
    if refid.val ∈ liveRowIds then .ok ()
    else
      let id := refid.val
      .error s!"row mutation references stale or missing live transaction id {id}"

def rowForIndexes (payload : Bytes) (preparedRow : Option RowMap) : Except String RowMap :=
  match preparedRow with
  | some row => .ok row
  | none =>
    match env.decode payload with
    | .ok row => .ok row
    | .error e => .error s!"row payload decode failed: {e}"

def applyTableRowMutation (indexes : List DatabaseIndex) (kind : TransactionKind) (latestTxId : UInt64)
    (row : RowMap) (rowRef : Option UInt64) (store : RuntimeIndexStore) : RuntimeIndexStore :=
  match kind with
  | .delete => RuntimeIndexStore.removeTableRowForTable store indexes row rowRef
  | .insert | .update => RuntimeIndexStore.recordTableRowForTable store indexes row (some latestTxId)
  | _ => store

def rowRecord (log : List TransactionRecord) (kind : TransactionKind) (payload : Bytes)
    (refid groupId : Option TransactionId) : TransactionRecord where
  id := nextTransactionId log
  groupid := groupId
  refid := refid.or (latestTransactionId log)
  timestampEpochMs := env.clock log
  actor := Group.serverUser
  kind := kind
  payload := some payload

/-- `append_row_payload_record_with_live_row_ids_and_prepared_row_map`, for the kinds of row records.
A table without indexes decodes nothing. -/
def appendRowPayloadRecord (kind : TransactionKind) (payload : Bytes) (refid : Option TransactionId)
    (expectedLiveRowIds : Option (List UInt64)) (preparedRow : Option RowMap)
    (groupId : Option TransactionId) (state : TableState) : Outcome Unit :=
  match checkLiveRow env refid expectedLiveRowIds state.log with
  | .error e => (state, .error e)
  | .ok () =>
  match (if env.table.derivedIndexes = [] then .ok ∅ else rowForIndexes env payload preparedRow) with
  | .error e => (state, .error e)
  | .ok row =>
    let record := rowRecord env state.log kind payload refid groupId
    match appendRecords env.fault state.log [record] with
    | .error e => (state, .error e)
    | .ok log =>
      (⟨log, applyTableRowMutation env.table.derivedIndexes kind record.id.val row
        (record.refid.map (·.val)) state.indexes⟩, .ok ())

/-! ## Batches -/

def nextSaturating (id : TransactionId) : TransactionId := ⟨RuntimeIndexStore.nextRowRef id.val⟩

def batchRecords (timestampEpochMs : UInt64) (groupId : Option TransactionId) :
    TransactionId → Option TransactionId → List Bytes → List TransactionRecord
  | _, _, [] => []
  | id, refid, payload :: payloads =>
    { id := id
      groupid := groupId
      refid := refid
      timestampEpochMs := timestampEpochMs
      actor := Group.serverUser
      kind := .insert
      payload := some payload } ::
    batchRecords timestampEpochMs groupId (nextSaturating id) (some id) payloads

def firstRowId (log : List TransactionRecord) : TransactionId :=
  match latestTransactionId log with
  | some id => nextSaturating id
  | none => ⟨1⟩

def decodeRows : List Bytes → Except String (List RowMap)
  | [] => .ok []
  | payload :: payloads =>
    match rowForIndexes env payload none with
    | .error e => .error e
    | .ok row =>
      match decodeRows payloads with
      | .error e => .error e
      | .ok rows => .ok (row :: rows)

def consecutiveIds : TransactionId → List TransactionRecord → Bool
  | _, [] => true
  | id, record :: records =>
    decide (record.id = id) && decide (record.kind = .insert) && consecutiveIds (nextSaturating id) records

def batchRows (payloads : List Bytes) (preparedRows : Option (List RowMap)) :
    Except String (List RowMap) :=
  if env.table.derivedIndexes = [] then .ok []
  else if (preparedRows.getD []).length = payloads.length then .ok (preparedRows.getD [])
  else decodeRows env payloads

def appendRowPayloadRecordsBatch (payloads : List Bytes) (preparedRows : Option (List RowMap))
    (timestampEpochMs : UInt64) (groupId : Option TransactionId) (state : TableState) : Outcome Unit :=
  if payloads = [] then (state, .ok ())
  else
    match batchRows env payloads preparedRows with
    | .error e => (state, .error e)
    | .ok rows =>
      let firstId := firstRowId state.log
      match appendRecords env.fault state.log (batchRecords timestampEpochMs groupId firstId
        (latestTransactionId state.log) payloads) with
      | .error e => (state, .error e)
      | .ok log =>
        if consecutiveIds firstId (log.drop (log.length - payloads.length)) then
          (⟨log, RuntimeIndexStore.recordTableRowsBatchWithFirstRowRef state.indexes
            env.table.derivedIndexes firstId.val rows⟩, .ok ())
        else (⟨log, state.indexes⟩, .error "row reference alignment mismatch after WAL append")

end DistDb.Mutation
