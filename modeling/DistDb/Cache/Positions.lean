import DistDb.Cache.Coherence
import DistDb.Lib.Increasing
import DistDb.Wal.Compaction

/-! # Row references

A row reference is the id of a record and is used as a position in the stream. Both are the same only
where ids start at 0 and have no gaps. -/

namespace DistDb.Cache
open Lib Wal Execution Mutation CachedTable

variable {env : CacheEnv} {cached : CachedTable} {log : List TransactionRecord}

/-! ## Streams from the start -/

inductive TableStreamOp where
  | append (write : RowWrite)
  | appendBatch (payloads : List Bytes) (preparedRows : Option (List RowMap)) (timestampEpochMs : UInt64)
      (groupId : Option TransactionId)
  | appendPayload (kind : TransactionKind) (payload : Bytes) (timestampEpochMs : UInt64)
      (groupId : Option TransactionId) (stored : Bool)
  | importWalRecords (records : List (TransactionRecord × Bool)) (replays : Bool)
      (warmFields : List String)
  | truncate (streamId : String) (actor : UserId) (timestampEpochMs : UInt64) (rewritten : Bool)
  | realign (rewritten : Bool) (warmFields : List String)

def CachedTable.applyStreamOp (env : CacheEnv) (cached : CachedTable) : TableStreamOp → CachedTable
  | .append write => cached.appendRow env write
  | .appendBatch payloads preparedRows timestampEpochMs groupId =>
    cached.appendBatch env payloads preparedRows timestampEpochMs groupId
  | .appendPayload kind payload timestampEpochMs groupId stored =>
    if stored then
      { cached with table.log := cached.log ++
          [Group.payloadRecord cached.log kind payload timestampEpochMs groupId] }
    else cached
  | .importWalRecords records replays warmFields =>
    cached.importWalRecords env records replays warmFields
  | .truncate streamId actor timestampEpochMs rewritten =>
    cached.truncateTable env streamId actor timestampEpochMs rewritten
  | .realign rewritten warmFields => cached.realignAndBootstrap env rewritten warmFields

/-- There are ids left for the rows of the operation. -/
def IdsLeft (cached : CachedTable) : TableStreamOp → Prop
  | .appendBatch payloads _ _ _ => HasRoom cached.log payloads.length
  | _ => HasRoom cached.log 1

/-! ## Order -/

theorem inOrder_renumberFrom {records : List TransactionRecord} (h : records.length ≤ 2 ^ 64) :
    InOrder (renumberFrom 0 records) := by
  exact List.pairwise_map.mp ((pairwise_key_renumberFrom_iff records).mpr h)

theorem pairwise_keys (h : InOrder log) : (log.map (·.key)).Pairwise (· < ·) := List.pairwise_map.mpr h

theorem length_le_lastKey (h : InOrder log) : log.length ≤ lastKey log + 1 := by
  rcases List.eq_nil_or_concat' log with rfl | ⟨init, last, rfl⟩
  · exact Nat.zero_le _
  · have hlast : ((init ++ [last]).map (·.key))[init.length]? = some last.key := by simp
    have := le_of_getElem? (pairwise_keys h) hlast
    rw [lastKey_concat, List.length_append, List.length_singleton]
    omega

theorem lastKey_lt (log : List TransactionRecord) : lastKey log < 2 ^ 64 := by
  rcases List.eq_nil_or_concat' log with rfl | ⟨init, last, rfl⟩
  · decide
  · rw [lastKey_concat]
    exact last.id.val.toNat_lt

theorem inOrder_compact (h : InOrder log) (hroom : HasRoom log 1) (actor : UserId) (timestampEpochMs : UInt64) :
    InOrder (compactEntriesToLatestSchemaAndMetadata log actor timestampEpochMs) := by
  refine inOrder_renumberFrom ?_
  have hlength := length_le_lastKey h
  unfold HasRoom at hroom
  rw [List.length_append, List.length_map, List.length_singleton]
  refine Nat.le_trans (Nat.succ_le_succ (List.length_filter_le _ _)) ?_
  rw [List.length_map]
  omega

theorem inOrder_realigned (h : InOrder log) : InOrder (Stream.realignedRecords log) := by
  refine inOrder_renumberFrom ?_
  have hlength := length_le_lastKey h
  have hlast := lastKey_lt log
  rw [List.length_map]
  exact (List.length_filter_le _ _).trans (by omega)

theorem inOrder_applyStreamOp (h : InOrder cached.log) {op : TableStreamOp} (hroom : IdsLeft cached op) :
    InOrder (cached.applyStreamOp env op).log := by
  cases op with
  | append write =>
    have hid := toNat_nextTransactionId hroom
    rcases appendRow_cases env cached write with hsame | ⟨row, -, hcached⟩
    · rw [CachedTable.applyStreamOp, hsame]
      exact h
    · rw [CachedTable.applyStreamOp, hcached]
      exact h.concat (show lastKey cached.log < (nextTransactionId cached.log).val.toNat by omega)
  | appendBatch payloads preparedRows timestampEpochMs groupId =>
    rcases appendBatch_cases env cached payloads preparedRows timestampEpochMs groupId with
      hsame | ⟨hne, given, hgiven, hcached⟩
    · rw [CachedTable.applyStreamOp, hsame]
      exact h
    · rw [CachedTable.applyStreamOp, hcached]
      exact (inOrder_batch timestampEpochMs groupId h hroom hne).1
  | appendPayload kind payload timestampEpochMs groupId stored =>
    have hid := toNat_nextTransactionId hroom
    cases stored with
    | true => exact h.concat (show lastKey cached.log < (nextTransactionId cached.log).val.toNat by omega)
    | false => exact h
  | importWalRecords records replays warmFields =>
    rw [CachedTable.applyStreamOp, importWalRecords_log]
    exact inOrder_importRecords h
  | truncate streamId actor timestampEpochMs rewritten =>
    have hcompact := inOrder_compact h hroom actor timestampEpochMs
    cases rewritten with
    | true => exact hcompact
    | false => exact hcompact
  | realign rewritten warmFields =>
    rw [CachedTable.applyStreamOp, realignAndBootstrap, bootstrapFromCatalogs_log]
    split
    · exact h
    · exact inOrder_realigned h

/-! ## References -/

theorem rowAtWalOffset_eq_iff (horder : InOrder cached.log) {row : LiveRow}
    (hrow : row ∈ liveRows env.write cached.log) :
    cached.rowAtWalOffset env row.1 = some row ↔ (cached.log.map (·.key))[row.1.toNat]? = some row.1.toNat := by
  obtain ⟨r, hr, hid, hkind, payload, hpayload, hdecode⟩ := exists_put_of_mem_liveRows hrow
  rw [List.getElem?_map, CachedTable.rowAtWalOffset]
  cases hget : cached.log[row.1.toNat]? with
  | none => simp
  | some found =>
    simp only [Option.map_some, Option.some.injEq]
    constructor
    · intro hfound
      have hval : found.id.val = row.1 := by
        split at hfound
        · split at hfound
          · cases hfound
          · split at hfound
            · exact congrArg Prod.fst (Option.some.inj hfound)
            · cases hfound
        · cases hfound
      rw [TransactionRecord.key, hval]
    · intro hkey
      have hsame : found = r := by
        have hids : found.id = r.id := key_eq_iff.mp (hkey.trans (congrArg UInt64.toNat hid.symm))
        exact List.inj_on_of_nodup_map horder.nodup_ids (List.mem_of_getElem? hget) hr hids
      subst hsame
      simp only [hkind, ↓reduceIte, hpayload, hdecode, hid]

/-- In every stream that the server's operations lead to, the reference of a live row is resolved to the
row exactly if no id below its own is missing. -/
theorem row_reference_resolves_iff (env : CacheEnv) (ops : List TableStreamOp)
    (hrun : Along (CachedTable.applyStreamOp env) IdsLeft (CachedTable.startup env []) ops) (row : LiveRow)
    (hrow : row ∈ liveRows env.write
      (runFrom (CachedTable.applyStreamOp env) (CachedTable.startup env []) ops).log) :
    (runFrom (CachedTable.applyStreamOp env) (CachedTable.startup env []) ops
        ).loadLiveRowsByRuntimeIndexRowRefs env [row.1] = [row] ↔
      ∀ id < row.1.toNat, ∃ record ∈
        (runFrom (CachedTable.applyStreamOp env) (CachedTable.startup env []) ops).log, record.key = id := by
  have hstart : InOrder (CachedTable.startup env []).log := List.Pairwise.nil
  have horder : InOrder (runFrom (CachedTable.applyStreamOp env) (CachedTable.startup env []) ops).log :=
    hrun.invariant (I := fun cached => InOrder cached.log)
      (fun _ _ hroom h => inOrder_applyStreamOp h hroom) hstart
  generalize runFrom (CachedTable.applyStreamOp env) (CachedTable.startup env []) ops = cached at *
  obtain ⟨r, hr, hid, -, -⟩ := exists_put_of_mem_liveRows hrow
  have hmem : row.1.toNat ∈ cached.log.map (·.key) :=
    List.mem_map.mpr ⟨r, hr, congrArg UInt64.toNat hid⟩
  have hlookup : cached.loadLiveRowsByRuntimeIndexRowRefs env [row.1] = [row] ↔
      cached.rowAtWalOffset env row.1 = some row := by
    rw [loadLiveRowsByRuntimeIndexRowRefs, List.filterMap_cons]
    cases cached.rowAtWalOffset env row.1 with
    | none => simp
    | some found => simp
  rw [hlookup, rowAtWalOffset_eq_iff horder hrow, getElem?_self_iff (pairwise_keys horder) hmem]
  simp only [List.mem_map]

def truncatedAndInserted : List TableStreamOp :=
  [.truncate "d:t" ⟨"a"⟩ 0 true, .append (insertRow [97] [1] none)]

theorem truncated_reference_resolves :
    (runFrom (CachedTable.applyStreamOp keyedCacheEnv) (CachedTable.startup keyedCacheEnv [])
        truncatedAndInserted).loadLiveRowsByRuntimeIndexRowRefs keyedCacheEnv [1] =
      [(1, keyedRow [97] [1])] := by
  refine (row_reference_resolves_iff keyedCacheEnv truncatedAndInserted ⟨?_, ?_, trivial⟩
    (1, keyedRow [97] [1]) (by decide +kernel)).mpr (by decide +kernel)
  · change HasRoom _ 1
    decide +kernel
  · change HasRoom _ 1
    decide +kernel

/-- Two rows in a new stream, whose ids start at 1: the first reference leads to the second row, the
second nowhere. -/
theorem fresh_references_astray :
    let inserted := runFrom (CachedTable.applyStreamOp keyedCacheEnv) (CachedTable.startup keyedCacheEnv [])
      [.append (insertRow [97] [1] none), .append (insertRow [98] [2] none)]
    liveRows keyedEnv inserted.log = [(1, keyedRow [97] [1]), (2, keyedRow [98] [2])] ∧
      (RuntimeIndexStore.stateOrNew inserted.table.indexes "t.pk").rowRefsForKey [[97]] = {1} ∧
      inserted.loadLiveRowsByRuntimeIndexRowRefs keyedCacheEnv [1] = [(2, keyedRow [98] [2])] ∧
      (RuntimeIndexStore.stateOrNew inserted.table.indexes "t.pk").rowRefsForKey [[98]] = {2} ∧
      inserted.loadLiveRowsByRuntimeIndexRowRefs keyedCacheEnv [2] = [] := by
  decide +kernel

end DistDb.Cache
