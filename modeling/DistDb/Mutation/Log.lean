import DistDb.Execution.Lemmas.LiveRows
import DistDb.Lib.Maps
import DistDb.Lib.Run
import DistDb.Mutation.Append

/-! # Row records at the end of a stream

What the appends of row records do, and which rows are live then. -/

namespace DistDb.Mutation
open Lib Wal Execution

variable {env : WriteEnv} {log records : List TransactionRecord} {record : TransactionRecord}

def liveRows (env : WriteEnv) (log : List TransactionRecord) : List LiveRow :=
  collectLiveRowsFromRecords env.schema log env.applyWorkers

/-- Ids rise along the log, so none occurs twice. -/
def InOrder (log : List TransactionRecord) : Prop := log.Pairwise (·.key < ·.key)

def lastKey (log : List TransactionRecord) : Nat := (log.getLast?.map (·.key)).getD 0

@[simp] theorem lastKey_concat : lastKey (log ++ [record]) = record.key := by simp [lastKey]

/-- `n` ids are left behind the last one. -/
def HasRoom (log : List TransactionRecord) (n : Nat) : Prop := lastKey log + n < 2 ^ 64

instance (n : Nat) : Decidable (HasRoom log n) := inferInstanceAs (Decidable (lastKey log + n < 2 ^ 64))

theorem HasRoom.mono {n m : Nat} (h : HasRoom log n) (hm : m ≤ n) : HasRoom log m := by
  unfold HasRoom at *
  omega

theorem InOrder.le_lastKey (h : InOrder log) {r : TransactionRecord} (hr : r ∈ log) : r.key ≤ lastKey log := by
  rcases List.eq_nil_or_concat' log with hnil | ⟨init, last, rfl⟩
  · rw [hnil] at hr
    cases hr
  · rw [lastKey_concat]
    rcases List.mem_append.mp hr with hr | hr
    · exact Nat.le_of_lt ((List.pairwise_append.mp h).2.2 r hr last (List.mem_singleton_self _))
    · rw [List.mem_singleton.mp hr]

theorem toNat_nextTransactionId (h : HasRoom log 1) : (nextTransactionId log).val.toNat = lastKey log + 1 := by
  unfold HasRoom lastKey at h
  unfold nextTransactionId latestTransactionId lastKey
  cases hlast : log.getLast? with
  | none => rfl
  | some last =>
    rw [hlast] at h
    simp only [Option.map_some, Option.getD_some, TransactionRecord.key] at h ⊢
    rw [UInt64.toNat_add]
    exact Nat.mod_eq_of_lt h

theorem toNat_nextRowRef {id : UInt64} (h : id.toNat + 1 < 2 ^ 64) :
    (RuntimeIndexStore.nextRowRef id).toNat = id.toNat + 1 := by
  rw [RuntimeIndexStore.nextRowRef, if_pos h, UInt64.toNat_add]
  exact Nat.mod_eq_of_lt h

theorem toNat_firstRowId (h : HasRoom log 1) : (firstRowId log).val.toNat = lastKey log + 1 := by
  unfold HasRoom lastKey at h
  unfold firstRowId latestTransactionId lastKey
  cases hlast : log.getLast? with
  | none => rfl
  | some last =>
    rw [hlast] at h
    exact toNat_nextRowRef h

theorem inOrder_append : InOrder (log ++ records) ↔ InOrder log ∧ NumberedOn log records := by
  unfold InOrder NumberedOn
  rw [List.pairwise_append]

theorem InOrder.concat (h : InOrder log) (hkey : lastKey log < record.key) : InOrder (log ++ [record]) := by
  refine inOrder_append.mpr ⟨h, List.pairwise_singleton .., fun x hx r hr => ?_⟩
  rw [List.mem_singleton.mp hr]
  exact Nat.lt_of_le_of_lt (h.le_lastKey hx) hkey

theorem InOrder.nodup_ids (h : InOrder log) : (log.map (·.id)).Nodup :=
  List.pairwise_map.mpr (List.Pairwise.imp (fun hlt heq => by
    simp only [TransactionRecord.key, heq, Nat.lt_irrefl] at hlt) h)

def RowRecords (records : List TransactionRecord) : Prop :=
  ∀ r ∈ records, r.groupid = none ∧ (r.kind = .insert ∨ r.kind = .delete)

def rowEvent (env : WriteEnv) (record : TransactionRecord) : LogEvent UInt64 RowMap :=
  recordEvent env.schema ⟨∅, ∅⟩ record

theorem recordEvent_of_ungrouped (h : record.groupid = none) (groups : TerminalGroups) :
    recordEvent env.schema groups record = rowEvent env record := by
  have hvisible : ∀ groups, recordVisibleForLiveRowApply record groups = true := fun groups => by
    simp [recordVisibleForLiveRowApply, h]
  simp only [rowEvent, recordEvent, decodeLiveRow, hvisible]

theorem RowRecords.terminalGroups_append (h : RowRecords records) :
    terminalGroups (log ++ records) = terminalGroups log :=
  Execution.terminalGroups_append fun r hr => by
    rcases (h r hr).2 with hkind | hkind <;> simp [hkind]

theorem logEvents_append (h : RowRecords records) :
    logEvents env.schema (log ++ records) = logEvents env.schema log ++ records.map (rowEvent env) := by
  rw [logEvents, h.terminalGroups_append, List.map_append]
  exact congrArg _ (List.map_congr_left fun r hr => recordEvent_of_ungrouped (h r hr).1 _)

theorem liveRows_eq (h : InOrder log) : liveRows env log = live (logEvents env.schema log) := by
  rw [liveRows, collectLiveRowsFromRecords_eq_replay, replayEvents_logEvents h.nodup_ids]

theorem liveRows_append (horder : InOrder (log ++ records)) (h : RowRecords records) : liveRows env (log ++ records) =
      (liveRows env log).filter (fun row => row.1 ∉ deletedKeys (records.map (rowEvent env))) ++
        live (records.map (rowEvent env)) := by
  rw [liveRows_eq horder, liveRows_eq (inOrder_append.mp horder).1, logEvents_append h, live_append]

theorem rowEvent_insert {payload : Bytes} {row : RowMap} (hgroup : record.groupid = none)
    (hkind : record.kind = .insert) (hpayload : record.payload = some payload)
    (hdecode : env.decode payload = .ok row) : rowEvent env record = .put record.id.val row := by
  refine recordEvent_eq_put.mpr ⟨rfl, decodeLiveRow_eq_some.mpr ⟨?_, .inl hkind, payload, hpayload, hdecode⟩⟩
  simp [recordVisibleForLiveRowApply, hgroup]

theorem rowEvent_delete {rowId : UInt64} (hgroup : record.groupid = none) (hkind : record.kind = .delete)
    (href : record.refid = some ⟨rowId⟩) : rowEvent env record = .del rowId := by
  refine recordEvent_eq_del.mpr ⟨?_, hkind, href⟩
  simp [recordVisibleForLiveRowApply, hgroup]

theorem nodup_liveRows (h : InOrder log) : ((liveRows env log).map Prod.fst).Nodup := by
  rw [liveRows_eq h]
  exact (map_fst_live_sublist _).nodup (putKeys_logEvents_nodup h.nodup_ids)

theorem exists_put_of_mem_liveRows {row : LiveRow} (hrow : row ∈ liveRows env log) :
    ∃ r ∈ log, r.id.val = row.1 ∧ (r.kind = .insert ∨ r.kind = .update) ∧
      ∃ payload, r.payload = some payload ∧ env.decode payload = .ok row.2 := by
  rw [liveRows, collectLiveRowsFromRecords_eq_replay] at hrow
  obtain ⟨r, hr, hevent⟩ := List.mem_map.mp (Replay.put_mem_of_mem_finish hrow)
  obtain ⟨hid, hdecode⟩ := recordEvent_eq_put.mp hevent
  obtain ⟨-, hkind, hpayload⟩ := decodeLiveRow_eq_some.mp hdecode
  exact ⟨r, hr, hid, hkind, hpayload⟩

/-! ## Appends -/

variable {state state' : TableState} {groupId : Option TransactionId}

theorem appendRecords_eq_ok {fault : AppendFault} {log records log' : List TransactionRecord}
    (h : appendRecords fault log records = .ok log') : fault log records = none ∧ log' = log ++ records := by
  unfold appendRecords at h
  split at h
  · rename_i hfault
    cases h
    exact ⟨hfault, rfl⟩
  · cases h

theorem appendRecords_eq_error {fault : AppendFault} {log records : List TransactionRecord} {e : String}
    (h : appendRecords fault log records = .error e) : fault log records = some e := by
  unfold appendRecords at h
  split at h
  · cases h
  · rename_i hfault
    cases h
    exact hfault

/-! ## Single records -/

theorem appendRowPayloadRecord_cases {kind : TransactionKind} {payload : Bytes}
    {refid : Option TransactionId} {expected : Option (List UInt64)} {prepared : Option RowMap}
    {result : Except String Unit}
    (h : appendRowPayloadRecord env kind payload refid expected prepared groupId state = (state', result)) :
    (∃ e, result = .error e ∧ state' = state) ∨ result = .ok () ∧ checkLiveRow env refid expected state.log = .ok () ∧
        ∃ row, (env.table.derivedIndexes ≠ [] → rowForIndexes env payload prepared = .ok row) ∧
          state' = ⟨state.log ++ [rowRecord env state.log kind payload refid groupId],
            applyTableRowMutation env.table.derivedIndexes kind (nextTransactionId state.log).val row
              ((refid.or (latestTransactionId state.log)).map (·.val)) state.indexes⟩ := by
  unfold appendRowPayloadRecord at h
  split at h
  · cases h
    exact .inl ⟨_, rfl, rfl⟩
  · rename_i hcheck
    split at h
    · cases h
      exact .inl ⟨_, rfl, rfl⟩
    · rename_i row hrow
      simp only at h
      split at h
      · cases h
        exact .inl ⟨_, rfl, rfl⟩
      · rename_i log hlog
        cases h
        refine .inr ⟨rfl, hcheck, row, fun hindexes => ?_, ?_⟩
        · rwa [if_neg hindexes] at hrow
        · rw [(appendRecords_eq_ok hlog).2]
          rfl

/-! ## Batches -/

theorem length_batchRecords (timestamp : UInt64) (id : TransactionId) (refid : Option TransactionId)
    (payloads : List Bytes) :
    (batchRecords timestamp groupId id refid payloads).length = payloads.length := by
  induction payloads generalizing id refid with
  | nil => rfl
  | cons payload payloads ih => simp [batchRecords, ih]

theorem consecutiveIds_batchRecords (timestamp : UInt64) (id : TransactionId)
    (refid : Option TransactionId) (payloads : List Bytes) :
    consecutiveIds id (batchRecords timestamp groupId id refid payloads) = true := by
  induction payloads generalizing id refid with
  | nil => rfl
  | cons payload payloads ih => simp [batchRecords, consecutiveIds, ih]

variable {payloads : List Bytes}

/-- A batch is stored and its rows given to the indexes, or nothing happens: the check of the row
references never fails. -/
theorem appendRowPayloadRecordsBatch_cases {prepared : Option (List RowMap)}
    {timestamp : UInt64} {result : Except String Unit}
    (h : appendRowPayloadRecordsBatch env payloads prepared timestamp groupId state = (state', result)) :
    (∃ e, result = .error e ∧ state' = state ∧ (batchRows env payloads prepared = .error e ∨
        env.fault state.log (batchRecords timestamp groupId (firstRowId state.log)
          (latestTransactionId state.log) payloads) = some e)) ∨
      result = .ok () ∧ (payloads = [] ∧ state' = state ∨
        payloads ≠ [] ∧ env.fault state.log (batchRecords timestamp groupId (firstRowId state.log)
            (latestTransactionId state.log) payloads) = none ∧
          ∃ rows, batchRows env payloads prepared = .ok rows ∧
          state' = ⟨state.log ++ batchRecords timestamp groupId (firstRowId state.log)
              (latestTransactionId state.log) payloads,
            RuntimeIndexStore.recordTableRowsBatchWithFirstRowRef state.indexes env.table.derivedIndexes
              (firstRowId state.log).val rows⟩) := by
  unfold appendRowPayloadRecordsBatch at h
  split at h
  · rename_i hempty
    cases h
    exact .inr ⟨rfl, .inl ⟨hempty, rfl⟩⟩
  · rename_i hne
    split at h
    · rename_i hrows
      cases h
      exact .inl ⟨_, rfl, rfl, .inl hrows⟩
    · rename_i rows hrows
      simp only at h
      split at h
      · rename_i hfault
        cases h
        exact .inl ⟨_, rfl, rfl, .inr (appendRecords_eq_error hfault)⟩
      · rename_i log hlog
        have hdrop : log.drop (log.length - payloads.length) =
            batchRecords timestamp groupId (firstRowId state.log) (latestTransactionId state.log) payloads := by
          rw [(appendRecords_eq_ok hlog).2, List.length_append, length_batchRecords, Nat.add_sub_cancel, List.drop_left]
        rw [hdrop, if_pos (consecutiveIds_batchRecords ..)] at h
        cases h
        obtain ⟨hfault, hlog⟩ := appendRecords_eq_ok hlog
        exact .inr ⟨rfl, .inr ⟨hne, hfault, rows, hrows, by rw [hlog]⟩⟩

theorem batchRecords_keys (timestamp : UInt64) (groupId : Option TransactionId) {id : TransactionId}
    (refid : Option TransactionId)
    (h : id.val.toNat + payloads.length ≤ 2 ^ 64) :
    (batchRecords timestamp groupId id refid payloads).map (·.key) = List.range' id.val.toNat payloads.length := by
  induction payloads generalizing id refid with
  | nil => rfl
  | cons payload payloads ih =>
    rw [batchRecords, List.map_cons, List.length_cons, List.range'_succ]
    refine congrArg _ ?_
    cases payloads with
    | nil => rfl
    | cons next payloads =>
      simp only [List.length_cons] at h ih
      have hnext : (nextSaturating id).val.toNat = id.val.toNat + 1 := toNat_nextRowRef (by omega)
      rw [ih _ (by omega), hnext, List.length_cons]

theorem inOrder_batch {log : List TransactionRecord} (timestamp : UInt64)
    (groupId : Option TransactionId) (horder : InOrder log)
    (hroom : HasRoom log payloads.length) (hne : payloads ≠ []) :
    InOrder (log ++ batchRecords timestamp groupId (firstRowId log) (latestTransactionId log) payloads) ∧
      lastKey (log ++ batchRecords timestamp groupId (firstRowId log) (latestTransactionId log) payloads) =
        lastKey log + payloads.length := by
  have hpos : 1 ≤ payloads.length := List.length_pos_of_ne_nil hne
  have hkeys : (batchRecords timestamp groupId (firstRowId log) (latestTransactionId log) payloads).map
      (·.key) = List.range' (lastKey log + 1) payloads.length := by
    have hfirst := toNat_firstRowId (hroom.mono hpos)
    rw [← hfirst]
    refine batchRecords_keys timestamp groupId _ ?_
    unfold HasRoom at hroom
    omega
  generalize batchRecords timestamp groupId (firstRowId log) (latestTransactionId log) payloads = batch at hkeys
  constructor
  · refine inOrder_append.mpr ⟨horder, List.pairwise_map.mp (hkeys ▸ List.pairwise_lt_range'), fun x hx r hr => ?_⟩
    have hr' : r.key ∈ List.range' (lastKey log + 1) payloads.length := hkeys ▸ List.mem_map_of_mem hr
    have hle := horder.le_lastKey hx
    have := (List.mem_range'_1.mp hr').1
    omega
  · have hlast : ((log ++ batch).map (·.key)).getLast? = some (lastKey log + payloads.length) := by
      rw [List.map_append, hkeys, List.getLast?_append, List.getLast?_range', if_neg (by omega)]
      simp
    rw [List.getLast?_map] at hlast
    rw [lastKey, hlast]
    rfl

/-- The payloads are those of the rows. -/
def Decodes (env : WriteEnv) (payloads : List Bytes) (rows : List RowMap) : Prop :=
  List.Forall₂ (fun payload row => env.decode payload = .ok row) payloads rows

theorem rowRecords_batch (timestamp : UInt64) (id : TransactionId) (refid : Option TransactionId)
    (payloads : List Bytes) : RowRecords (batchRecords timestamp none id refid payloads) := by
  induction payloads generalizing id refid with
  | nil => exact fun r hr => by cases hr
  | cons payload payloads ih =>
    intro r hr
    rcases List.mem_cons.mp hr with rfl | hr
    · exact ⟨rfl, .inl rfl⟩
    · exact ih _ _ r hr

theorem live_batch {rows : List RowMap} (h : Decodes env payloads rows)
    (timestamp : UInt64) (id : TransactionId) (refid : Option TransactionId) :
    deletedKeys ((batchRecords timestamp none id refid payloads).map (rowEvent env)) = [] ∧
      live ((batchRecords timestamp none id refid payloads).map (rowEvent env)) =
        ((batchRecords timestamp none id refid payloads).map (·.id.val)).zip rows := by
  induction h generalizing id refid with
  | nil => exact ⟨rfl, rfl⟩
  | cons hdecode _ ih =>
    obtain ⟨hdeleted, hlive⟩ := ih (nextSaturating id) (some id)
    rw [batchRecords, List.map_cons, rowEvent_insert rfl rfl rfl hdecode, deletedKeys_put, live, hdeleted, hlive]
    exact ⟨rfl, if_neg List.not_mem_nil⟩

theorem liveRows_batch {log : List TransactionRecord} {rows : List RowMap}
    (timestamp : UInt64) {id : TransactionId} {refid : Option TransactionId}
    (horder : InOrder (log ++ batchRecords timestamp none id refid payloads))
    (h : Decodes env payloads rows) :
    liveRows env (log ++ batchRecords timestamp none id refid payloads) =
      liveRows env log ++ ((batchRecords timestamp none id refid payloads).map (·.id.val)).zip rows := by
  obtain ⟨hdeleted, hlive⟩ := live_batch h timestamp id refid
  rw [liveRows_append horder (rowRecords_batch timestamp id refid payloads), hdeleted, hlive]
  simp

theorem batchRows_eq {rows rows' : List RowMap} {prepared : Option (List RowMap)}
    (h : Decodes env payloads rows) (hprepared : ∀ given ∈ prepared, given = rows)
    (hindexes : env.table.derivedIndexes ≠ []) (hrows : batchRows env payloads prepared = .ok rows') :
    rows' = rows := by
  have hdecode : ∀ {payloads : List Bytes} {rows rows' : List RowMap}, Decodes env payloads rows →
      decodeRows env payloads = .ok rows' → rows' = rows := by
    intro payloads rows rows' h hdecode
    induction h generalizing rows' with
    | nil =>
      cases hdecode
      rfl
    | cons hrow _ ih =>
      simp only [decodeRows, rowForIndexes, hrow] at hdecode
      split at hdecode
      · cases hdecode
      · rename_i rest hrest
        cases hdecode
        rw [ih hrest]
  rw [batchRows, if_neg hindexes] at hrows
  split at hrows
  · rename_i hlength
    cases hrows
    cases prepared with
    | some given => exact hprepared given rfl
    | none =>
      have hnil : rows.length = 0 := by rw [← h.length_eq, ← hlength]; rfl
      exact (List.length_eq_zero_iff.mp hnil).symm
  · exact hdecode h hrows

/-! ## Rebuilt indexes -/

/-! ## A table of keys -/

def keyedTable : DatabaseTable where
  tableId := "t"
  schema := ⟨[⟨1, "k", .blob, false, .primaryKey, none, none⟩, ⟨2, "v", .blob, true, .none, none, none⟩]⟩
  indexes := [⟨"t.pk", .primaryKey, .derived, ["k"], "k"⟩]
  nodup_indexIds := by decide

def keyedEnv : WriteEnv := ⟨keyedTable, .plain, .plain, default, fun _ _ => none, fun _ => 0, 1⟩

end DistDb.Mutation
