import DistDb.Cache.Lemmas.Answers

/-! # Writes

Which writes keep the indexes and caches of a table in step with its stream. -/

namespace DistDb.Cache
open Lib Wal Execution Mutation RuntimeIndexState CachedTable

variable {env : CacheEnv} {state : CachedTable} {log log' : List TransactionRecord}

/-! ## Conditions -/

/-- The rows do not take the entry over its limit. -/
def EntryHasRoom (env : CacheEnv) (state : CachedTable) (rows : List RowMap) : Prop :=
  ∀ entry ∈ state.entry, env.accessorCacheRowsMaxBytes = 0 ∨ entry.approxRowsBytes +
    (rows.map EqualityTableCacheEntry.estimateRowMapBytes).sum ≤ env.accessorCacheRowsMaxBytes

/-! ## Single records -/

theorem appendRow_cases (env : CacheEnv) (state : CachedTable) (write : RowWrite) : state.appendRow env write = state ∨
    ∃ row, (env.write.table.derivedIndexes ≠ [] → rowForIndexes env.write write.payload write.preparedRow = .ok row) ∧
      state.appendRow env write =
        ⟨⟨state.log ++ [rowRecord env.write state.log write.kind write.payload write.refid write.groupId],
            applyTableRowMutation env.write.table.derivedIndexes write.kind (nextTransactionId state.log).val row
              ((write.refid.or (latestTransactionId state.log)).map (·.val)) state.table.indexes⟩,
          if env.write.table.derivedIndexes = [] then state.entry
          else state.mutateEntry env (nextTransactionId state.log).val fun entry =>
            entry.mutateRow write.kind (cachedRowId state.log write.kind write.refid) row,
          state.probes⟩ := by
  unfold appendRow
  cases hresult : write.append env state.table with
  | mk table result =>
    rcases appendRowPayloadRecord_cases hresult with ⟨e, rfl, rfl⟩ | ⟨rfl, -, row, hrow, rfl⟩
    · exact .inl rfl
    · refine .inr ⟨row, hrow, ?_⟩
      dsimp only
      cases hindexes : env.write.table.derivedIndexes with
      | nil => rfl
      | cons index indexes =>
        have hok := hrow (by rw [hindexes]; exact List.cons_ne_nil _ _)
        simp only [hok, reduceCtorEq, ↓reduceIte]
        rfl

theorem bytes_insert_le (entry : EqualityTableCacheEntry) (rowId : UInt64) (row : RowMap) :
    (entry.applyCachedRowInsert rowId row).approxRowsBytes ≤
      entry.approxRowsBytes + EqualityTableCacheEntry.estimateRowMapBytes row :=
  Nat.add_le_add_right (Nat.sub_le ..) _

/-! ## Batches -/

theorem appendBatch_cases (env : CacheEnv) (state : CachedTable) (payloads : List Bytes)
    (preparedRows : Option (List RowMap)) (timestampEpochMs : UInt64) (groupId : Option TransactionId) :
    state.appendBatch env payloads preparedRows timestampEpochMs groupId = state ∨
      payloads ≠ [] ∧ ∃ rows, batchRows env.write payloads preparedRows = .ok rows ∧
        state.appendBatch env payloads preparedRows timestampEpochMs groupId =
          ⟨⟨state.log ++ batchRecords timestampEpochMs groupId (firstRowId state.log)
                (latestTransactionId state.log) payloads,
              RuntimeIndexStore.recordTableRowsBatchWithFirstRowRef state.table.indexes
                env.write.table.derivedIndexes (firstRowId state.log).val rows⟩,
            if env.write.table.derivedIndexes = [] then state.entry
            else if rows = [] then state.entry
            else state.mutateEntry env (lastRowId (firstRowId state.log).val rows) fun entry =>
              entry.insertRows (firstRowId state.log).val rows,
            state.probes⟩ := by
  unfold CachedTable.appendBatch
  cases hresult : appendRowPayloadRecordsBatch env.write payloads preparedRows timestampEpochMs groupId state.table with
  | mk table result =>
    rcases appendRowPayloadRecordsBatch_cases hresult with
      ⟨e, rfl, rfl, -⟩ | ⟨rfl, ⟨rfl, rfl⟩ | ⟨hne, -, rows, hrows, rfl⟩⟩
    · exact .inl rfl
    · left
      have hnone : ∀ row rows, batchRows env.write [] preparedRows ≠ .ok (row :: rows) := by
        intro row rows hrows
        unfold batchRows at hrows
        split at hrows
        · cases hrows
        · split at hrows
          · rename_i hlength
            rw [List.length_eq_zero_iff.mp hlength] at hrows
            cases hrows
          · cases hrows
      dsimp only
      split
      · rename_i hrows
        exact absurd hrows (hnone _ _)
      · rfl
    · refine .inr ⟨hne, rows, hrows, ?_⟩
      dsimp only
      cases hindexes : env.write.table.derivedIndexes with
      | nil => rfl
      | cons index indexes =>
        cases rows with
        | nil => simp [hrows, CachedTable.log]
        | cons row rows => simp [hrows, CachedTable.log]

theorem toNat_lastRowId (id : UInt64) {rows : List RowMap} (hne : rows ≠ [])
    (h : id.toNat + rows.length ≤ 2 ^ 64) : (lastRowId id rows).toNat + 1 = id.toNat + rows.length := by
  induction rows generalizing id with
  | nil => exact absurd rfl hne
  | cons row rows ih =>
    cases rows with
    | nil => rfl
    | cons next rows =>
      simp only [List.length_cons] at h ih ⊢
      have hnext : (RuntimeIndexStore.nextRowRef id).toNat = id.toNat + 1 := toNat_nextRowRef (by omega)
      have hrest := ih (RuntimeIndexStore.nextRowRef id) (List.cons_ne_nil next rows) (show
        (RuntimeIndexStore.nextRowRef id).toNat + (rows.length + 1) ≤ 2 ^ 64 by omega)
      simp only [lastRowId]
      omega

theorem insertRows_fields (entry : EqualityTableCacheEntry) (id : UInt64) (rows : List RowMap) :
    (entry.insertRows id rows).latestTxId = entry.latestTxId ∧
      (entry.insertRows id rows).approxRowsBytes ≤ entry.approxRowsBytes +
        (rows.map EqualityTableCacheEntry.estimateRowMapBytes).sum := by
  induction rows generalizing entry id with
  | nil => exact ⟨rfl, Nat.le_refl _⟩
  | cons row rows ih =>
    obtain ⟨hlatest, hbytes⟩ := ih (entry.applyCachedRowInsert id row) (RuntimeIndexStore.nextRowRef id)
    refine ⟨hlatest, hbytes.trans ?_⟩
    have := bytes_insert_le entry id row
    rw [List.map_cons, List.sum_cons]
    omega

/-! ## A stream that was loaded from its file -/

def keyedCacheEnv : CacheEnv := ⟨keyedEnv, 0, fun _ => 0, fun _ _ => []⟩

def firstRecord : TransactionRecord := ⟨⟨0⟩, none, none, 0, ⟨"a"⟩, .ignore, none⟩

def keyedRow (key value : Bytes) : RowMap := (({} : RowMap).insert "k" key).insert "v" value

def insertRow (key value : Bytes) (groupId : Option TransactionId) : RowWrite :=
  ⟨.insert, keyedEnv.encode (keyedRow key value), none, none, some (keyedRow key value), groupId⟩

theorem aligned_firstRecord : Aligned [firstRecord] :=
  ⟨List.cons_ne_nil _ _, fun i record hrecord => by
    cases i with
    | zero =>
      cases hrecord
      rfl
    | succ i => cases hrecord⟩

end DistDb.Cache
