import DistDb.Cache.Lemmas.Imports

/-! # Coherence of the cache entry

Writes keep the entry in step with the stream. Imports below the head do not move the head, and an entry that was
emptied because of its size is filled up again by the next write. -/

namespace DistDb.Cache
open Lib Wal Execution Mutation CachedTable

variable {env : CacheEnv} {stream : CachedStream} {cached : CachedTable} {log : List TransactionRecord}
  {record : TransactionRecord}

/-- Whatever entry is accepted has exactly the rows of full replay. -/
def Coherent (env : CacheEnv) (stream : CachedStream) : Prop :=
  ∀ entry ∈ stream.matchingEntry, ∀ row, row ∈ entry.rowsById ↔ row ∈ liveRows env.write stream.log

/-! ## Conditions -/

/-- There is an id left, the prepared row is the stored one, and the entry has room for it. -/
structure UngroupedAppendFits (env : CacheEnv) (cached : CachedTable) (write : RowWrite) : Prop where
  hasRoom : HasRoom cached.log 1
  readsBack : write.kind = .insert ∨ write.kind = .update →
    ∀ given ∈ write.preparedRow, env.write.decode write.payload = .ok given
  entryHasRoom : write.kind = .insert ∨ write.kind = .update →
    ∀ row, env.write.decode write.payload = .ok row → EntryHasRoom env cached [row]

/-- As for one row, for all rows of a batch. -/
structure UngroupedBatchFits (env : CacheEnv) (cached : CachedTable) (payloads : List Bytes)
    (preparedRows : Option (List RowMap)) (rows : List RowMap) : Prop where
  hasRoom : HasRoom cached.log payloads.length
  decodes : Decodes env.write payloads rows
  prepared : ∀ given ∈ preparedRows, given = rows
  entryHasRoom : EntryHasRoom env cached rows

/-- The import stores and replays everything and rebuilds an entry without limit. -/
structure WarmsAfterImport (env : CacheEnv) (records : List (TransactionRecord × Bool)) (replays : Bool)
    (warmFields : List String) : Prop where
  stored : ∀ r ∈ records, r.2 = true
  replays : replays = true
  indexed : env.write.table.derivedIndexes ≠ []
  warmFields : warmFields ≠ []
  unlimited : env.accessorCacheRowsMaxBytes = 0

/-- The operations after which the cached rows are still the live rows. -/
def StreamOpFits (env : CacheEnv) (stream : CachedStream) : StreamCacheOp → Prop
  | .append write => UngroupedAppendFits env stream.cached write
  | .appendBatch payloads preparedRows _ =>
    ∃ rows, UngroupedBatchFits env stream.cached payloads preparedRows rows
  | .importWalRecords records replays warmFields =>
    stream.cached.entry = none ∨ (∀ r ∈ records, LeavesRows r.1) ∨
      WarmsAfterImport env records replays warmFields
  | .invalidate => stream.cached.entry = none ∨ stream.durable = true ∧
      (env.write.table.derivedIndexes ≠ [] ∨ stream.matchingEntry ≠ none)
  | .fill _ => True
  | .clear => True
  | .read => True

/-! ## The invariant -/

structure EntryCoherent (env : CacheEnv) (loaded : Bool) (log : List TransactionRecord)
    (entry : EqualityTableCacheEntry) : Prop where
  withinBudget : entry.withinBudget env = true
  latest_le : entry.latestTxId.toNat ≤ lastKey log
  rows : env.write.table.derivedIndexes ≠ [] ∨ loaded = false ∨ entry.latestTxId.toNat = lastKey log →
    entry.rowsById = liveRows env.write log

structure StreamCoherent (env : CacheEnv) (stream : CachedStream) : Prop where
  inOrder : InOrder stream.log
  entry : ∀ entry ∈ stream.cached.entry, EntryCoherent env stream.loaded stream.log entry

theorem toNat_head_getD (cached : CachedTable) : (cached.head.getD 0).toNat = lastKey cached.log := by
  simp only [CachedTable.head, latestTransactionId, lastKey]
  cases cached.log.getLast? with
  | none => rfl
  | some last => rfl

variable {entry : EqualityTableCacheEntry}

theorem StreamCoherent.rows_of_matches (h : StreamCoherent env stream) (hentry : entry ∈ stream.matchingEntry) :
    EntryCoherent env stream.loaded stream.log entry ∧ entry.rowsById = liveRows env.write stream.log := by
  obtain ⟨hmem, hmatches⟩ := Option.filter_eq_some_iff.mp hentry
  have hcoherent := h.entry entry hmem
  refine ⟨hcoherent, hcoherent.rows (.inr ?_)⟩
  cases hloaded : stream.loaded with
  | false => exact .inl rfl
  | true =>
    right
    have hhead := toNat_head_getD stream.cached
    simp only [CachedStream.matchesLoadedWalHead, CachedStream.latestTransactionIdIfLoaded, hloaded,
      ↓reduceIte] at hmatches
    cases hlatest : stream.cached.head with
    | none =>
      rw [hlatest] at hhead
      have hle := hcoherent.latest_le
      have hzero : lastKey stream.log = 0 := hhead.symm
      omega
    | some head =>
      rw [hlatest] at hhead hmatches
      obtain rfl : head = entry.latestTxId := by simpa using hmatches
      exact hhead

theorem StreamCoherent.coherent (h : StreamCoherent env stream) : Coherent env stream := by
  intro entry hentry row
  rw [(h.rows_of_matches hentry).2]

theorem EntryCoherent.grow {loaded : Bool} {log' : List TransactionRecord}
    (h : EntryCoherent env loaded log entry) (hle : lastKey log ≤ lastKey log')
    (hrows : env.write.table.derivedIndexes ≠ [] ∨ lastKey log = lastKey log' →
      liveRows env.write log' = liveRows env.write log) :
    EntryCoherent env true log' entry := by
  refine ⟨h.withinBudget, h.latest_le.trans hle, fun hcounts => ?_⟩
  have hlatest := h.latest_le
  rcases hcounts with hne | hloaded | heq
  · rw [hrows (.inl hne)]
    exact h.rows (.inl hne)
  · cases hloaded
  · rw [hrows (.inr (by omega))]
    exact h.rows (.inr (.inr (by omega)))

theorem EntryCoherent.ensureFieldPostings {loaded : Bool}
    (h : EntryCoherent env loaded log entry) (fieldName : String) :
    EntryCoherent env loaded log (entry.ensureFieldPostings fieldName) := by
  unfold EqualityTableCacheEntry.ensureFieldPostings
  split
  · exact h
  · exact ⟨h.withinBudget, h.latest_le, h.rows⟩

theorem ensurePostings_fields (entry : EqualityTableCacheEntry) (fieldNames : List String) :
    (entry.ensurePostings fieldNames).rowsById = entry.rowsById ∧
      (entry.ensurePostings fieldNames).latestTxId = entry.latestTxId := by
  induction fieldNames generalizing entry with
  | nil => exact ⟨rfl, rfl⟩
  | cons fieldName fieldNames ih =>
    have hfield : (entry.ensureFieldPostings fieldName).rowsById = entry.rowsById ∧
        (entry.ensureFieldPostings fieldName).latestTxId = entry.latestTxId := by
      unfold EqualityTableCacheEntry.ensureFieldPostings
      split <;> exact ⟨rfl, rfl⟩
    obtain ⟨hrows, hlatest⟩ := ih (entry.ensureFieldPostings fieldName)
    exact ⟨hrows.trans hfield.1, hlatest.trans hfield.2⟩

/-! ## Appends -/

theorem terminalGroups_concat_ungrouped (hgroup : record.groupid = none) :
    terminalGroups (log ++ [record]) = terminalGroups log := by
  rw [terminalGroups, List.foldl_append]
  simp only [List.foldl_cons, List.foldl_nil, TerminalGroups.note, hgroup]
  cases record.kind <;> rfl

theorem liveRows_concat_ungrouped (env : WriteEnv) (horder : InOrder (log ++ [record]))
    (hgroup : record.groupid = none) :
    liveRows env (log ++ [record]) = (liveRows env log).filter (fun row => row.1 ∉ deletedKeys [rowEvent env record]) ++
        live [rowEvent env record] := by
  rw [liveRows_eq horder, liveRows_eq (inOrder_append.mp horder).1, logEvents,
    terminalGroups_concat_ungrouped hgroup, List.map_append, live_append, List.map_singleton,
    recordEvent_of_ungrouped hgroup]
  rfl

theorem notMem_liveRows {env : WriteEnv} (horder : InOrder log) {id : UInt64} (hid : lastKey log < id.toNat) :
    id ∉ (liveRows env log).map Prod.fst := by
  intro hmem
  obtain ⟨row, hrow, rfl⟩ := List.mem_map.mp hmem
  obtain ⟨r, hr, hval, -⟩ := exists_put_of_mem_liveRows hrow
  have hle := horder.le_lastKey hr
  rw [TransactionRecord.key, hval] at hle
  omega

variable {write : RowWrite}

theorem rowsById_mutateRow {row : RowMap}
    (horder : InOrder log) (hroom : HasRoom log 1) (hrows : entry.rowsById = liveRows env.write log)
    (hdecode : write.kind = .insert ∨ write.kind = .update → env.write.decode write.payload = .ok row) :
    (entry.mutateRow write.kind (cachedRowId log write.kind write.refid) row).rowsById =
      liveRows env.write (log ++ [Mutation.rowRecord env.write log write.kind write.payload write.refid none]) := by
  have hid := toNat_nextTransactionId hroom
  have hnew : (nextTransactionId log).val ∉ (liveRows env.write log).map Prod.fst :=
    notMem_liveRows horder (by omega)
  have hputs : write.kind = .insert ∨ write.kind = .update → rowEvent env.write
      (Mutation.rowRecord env.write log write.kind write.payload write.refid none) =
        .put (nextTransactionId log).val row := fun hkind =>
    recordEvent_eq_put.mpr ⟨rfl, decodeLiveRow_eq_some.mpr ⟨rfl, hkind, write.payload, rfl, hdecode hkind⟩⟩
  have horder' : InOrder (log ++ [Mutation.rowRecord env.write log write.kind write.payload write.refid none]) := by
    refine horder.concat ?_
    change lastKey log < (nextTransactionId log).val.toNat
    omega
  rw [liveRows_concat_ungrouped env.write horder' rfl]
  have hinsert : (entry.applyCachedRowInsert (nextTransactionId log).val row).rowsById =
      liveRows env.write log ++ [((nextTransactionId log).val, row)] := by
    rw [EqualityTableCacheEntry.applyCachedRowInsert, EqualityTableCacheEntry.withoutRow_eq_self (by
      rw [hrows]; exact hnew), hrows]
  cases hkind : write.kind with
  | insert =>
    rw [hkind] at hputs
    rw [hputs (.inl rfl)]
    simpa [EqualityTableCacheEntry.mutateRow, cachedRowId, live] using hinsert
  | update =>
    rw [hkind] at hputs
    rw [hputs (.inr rfl)]
    simpa [EqualityTableCacheEntry.mutateRow, cachedRowId, live] using hinsert
  | delete =>
    simp only [EqualityTableCacheEntry.mutateRow, EqualityTableCacheEntry.applyCachedRowDelete,
      EqualityTableCacheEntry.withoutRow, cachedRowId, hrows, ↓reduceIte]
    cases hrefid : write.refid.or (latestTransactionId log) with
    | none =>
      have hskip : rowEvent env.write (Mutation.rowRecord env.write log .delete write.payload write.refid none) =
          .skip := by
        simp [rowEvent, recordEvent, decodeLiveRow, Mutation.rowRecord, hrefid]
      rw [hskip]
      simp only [Option.getD_none, deletedKeys_skip, deletedKeys_nil, live, List.append_nil]
      refine List.filter_congr fun other hother => ?_
      have hne : other.1 ≠ (nextTransactionId log).val := fun heq =>
        hnew (heq ▸ List.mem_map_of_mem hother)
      simp [hne]
    | some refid =>
      have hdel : rowEvent env.write (Mutation.rowRecord env.write log .delete write.payload write.refid none) =
          .del refid.val := rowEvent_delete rfl rfl hrefid
      rw [hdel]
      simp [live]
  | _ =>
    have hskip : ∀ kind : TransactionKind, kind ≠ .insert → kind ≠ .update → kind ≠ .delete →
        rowEvent env.write (Mutation.rowRecord env.write log kind write.payload write.refid none) = .skip := by
      intro kind hinsert hupdate hdelete
      simp [rowEvent, recordEvent, decodeLiveRow, Mutation.rowRecord, hinsert, hupdate, hdelete]
    rw [hskip _ (by decide) (by decide) (by decide)]
    simpa [EqualityTableCacheEntry.mutateRow, live] using hrows

theorem withinBudget_mutateRow {row : RowMap} {rowId : UInt64} (h : entry.withinBudget env = true)
    (hroom : write.kind = .insert ∨ write.kind = .update → env.accessorCacheRowsMaxBytes = 0 ∨ entry.approxRowsBytes +
        EqualityTableCacheEntry.estimateRowMapBytes row ≤ env.accessorCacheRowsMaxBytes) :
    (entry.mutateRow write.kind rowId row).withinBudget env = true := by
  simp only [EqualityTableCacheEntry.withinBudget, decide_eq_true_eq] at h ⊢
  cases hkind : write.kind with
  | insert => exact (hroom (.inl hkind)).imp_right (bytes_insert_le ..).trans
  | update => exact (hroom (.inr hkind)).imp_right (bytes_insert_le ..).trans
  | delete => exact h.imp_right (Nat.sub_le ..).trans
  | _ => exact h

theorem latestTxId_mutateRow (entry : EqualityTableCacheEntry) (kind : TransactionKind) (rowId : UInt64)
    (row : RowMap) : (entry.mutateRow kind rowId row).latestTxId = entry.latestTxId := by
  cases kind <;> rfl

theorem mutateEntry_coherent {log' : List TransactionRecord} {latestTxId : UInt64}
    {f : EqualityTableCacheEntry → EqualityTableCacheEntry}
    (hlatest : latestTxId.toNat = lastKey log')
    (hf : ∀ entry, (f entry).latestTxId = entry.latestTxId)
    (hbudget : ∀ entry ∈ cached.entry, (f { entry with latestTxId := latestTxId }).withinBudget env = true)
    (hrows : ∀ entry ∈ cached.entry, (f { entry with latestTxId := latestTxId }).rowsById = liveRows env.write log') :
    ∀ entry ∈ cached.mutateEntry env latestTxId f, EntryCoherent env true log' entry := by
  intro entry hentry
  obtain ⟨old, hold, rfl⟩ := Option.map_eq_some_iff.mp hentry
  rw [EqualityTableCacheEntry.enforceEntryRowBudget, if_pos (hbudget old hold)]
  refine ⟨hbudget old hold, ?_, fun _ => hrows old hold⟩
  rw [hf]
  exact hlatest.le

theorem StreamCoherent.load (h : StreamCoherent env stream) : StreamCoherent env { stream with loaded := true } :=
  ⟨h.inOrder, fun entry hentry => (h.entry entry hentry).grow (Nat.le_refl _) fun _ => rfl⟩

theorem StreamCoherent.append (h : StreamCoherent env stream) (hfits : UngroupedAppendFits env stream.cached write) :
    StreamCoherent env { stream with
      loaded := true
      cached := stream.cached.appendRow env { write with groupId := none } } := by
  rcases appendRow_cases env stream.cached { write with groupId := none } with
    hsame | ⟨row, hrow, hcached⟩
  · rw [hsame]
    exact h.load
  have hid := toNat_nextTransactionId hfits.hasRoom
  have hkey : (Mutation.rowRecord env.write stream.cached.log write.kind write.payload write.refid none).key =
      lastKey stream.cached.log + 1 := hid
  have horder := h.inOrder.concat (show lastKey stream.cached.log <
    (Mutation.rowRecord env.write stream.cached.log write.kind write.payload write.refid none).key by omega)
  have hlast : lastKey (stream.cached.log ++
      [Mutation.rowRecord env.write stream.cached.log write.kind write.payload write.refid none]) =
        lastKey stream.cached.log + 1 := by
    rw [lastKey_concat, hkey]
  have hlt : lastKey stream.cached.log < lastKey (stream.cached.log ++
      [Mutation.rowRecord env.write stream.cached.log write.kind write.payload write.refid none]) := by omega
  rw [hcached]
  refine ⟨horder, ?_⟩
  by_cases hnil : env.write.table.derivedIndexes = []
  · rw [if_pos hnil]
    exact fun entry hentry => (h.entry entry hentry).grow hlt.le fun hcase => hcase.elim (absurd hnil) (absurd · hlt.ne)
  · have hdecode : write.kind = .insert ∨ write.kind = .update →
        env.write.decode write.payload = .ok row := fun hkind => by
      have hok : rowForIndexes env.write write.payload write.preparedRow = .ok row := hrow hnil
      cases hgiven : write.preparedRow with
      | some given =>
        rw [hgiven] at hok
        obtain rfl : given = row := by simpa [rowForIndexes] using hok
        exact hfits.readsBack hkind given hgiven
      | none =>
        rw [hgiven, rowForIndexes] at hok
        split at hok
        · rename_i heq
          rw [heq, ← hok]
        · cases hok
    rw [if_neg hnil]
    refine mutateEntry_coherent (hid.trans hlast.symm)
      (fun entry => latestTxId_mutateRow entry _ _ _) (fun entry hentry => ?_) fun entry hentry => ?_
    · refine withinBudget_mutateRow (h.entry entry hentry).withinBudget fun hkind => ?_
      simpa using hfits.entryHasRoom hkind row (hdecode hkind) entry hentry
    · exact rowsById_mutateRow h.inOrder hfits.hasRoom ((h.entry entry hentry).rows (.inl hnil)) hdecode

variable {rows : List RowMap}

theorem rowsById_insertRows (entry : EqualityTableCacheEntry) {id : UInt64}
    (hnodup : ((entry.rowsById ++ RuntimeIndexState.numberRows id rows).map Prod.fst).Nodup) :
    (entry.insertRows id rows).rowsById = entry.rowsById ++ RuntimeIndexState.numberRows id rows := by
  induction rows generalizing entry id with
  | nil => simp [RuntimeIndexState.numberRows, EqualityTableCacheEntry.insertRows]
  | cons row rows ih =>
    rw [RuntimeIndexState.numberRows, List.append_cons] at hnodup ⊢
    have hfirst : ((entry.rowsById ++ [(id, row)]).map Prod.fst).Nodup :=
      ((List.sublist_append_left ..).map _).nodup hnodup
    rw [List.map_append] at hfirst
    have hinsert : (entry.applyCachedRowInsert id row).rowsById = entry.rowsById ++ [(id, row)] := by
      rw [EqualityTableCacheEntry.applyCachedRowInsert, EqualityTableCacheEntry.withoutRow_eq_self
        fun hmem => List.disjoint_of_nodup_append hfirst hmem (List.mem_singleton_self _)]
    rw [← hinsert] at hnodup ⊢
    exact ih _ hnodup

theorem zip_batchRecords {payloads : List Bytes}
    (hlength : payloads.length = rows.length) (timestamp : UInt64) (groupId : Option TransactionId)
    (id : TransactionId) (refid : Option TransactionId) :
    ((batchRecords timestamp groupId id refid payloads).map (·.id.val)).zip rows =
      RuntimeIndexState.numberRows id.val rows := by
  induction payloads generalizing rows id refid with
  | nil =>
    obtain rfl := List.length_eq_zero_iff.mp hlength.symm
    rfl
  | cons payload payloads ih =>
    cases rows with
    | nil => cases hlength
    | cons row rows =>
      simp only [batchRecords, List.map_cons, List.zip_cons_cons, RuntimeIndexState.numberRows]
      rw [ih (Nat.succ.inj hlength)]
      rfl

theorem StreamCoherent.appendBatch (h : StreamCoherent env stream) {payloads : List Bytes}
    {preparedRows : Option (List RowMap)} {timestampEpochMs : UInt64}
    (hfits : UngroupedBatchFits env stream.cached payloads preparedRows rows) :
    StreamCoherent env { stream with
      loaded := true
      cached := stream.cached.appendBatch env payloads preparedRows timestampEpochMs none } := by
  rcases appendBatch_cases env stream.cached payloads preparedRows timestampEpochMs none with
    hsame | ⟨hne, given, hgiven, hcached⟩
  · rw [hsame]
    exact h.load
  have hlength : payloads.length = rows.length := hfits.decodes.length_eq
  have hpos : 1 ≤ payloads.length := List.length_pos_of_ne_nil hne
  have hroom : lastKey stream.cached.log + payloads.length < 2 ^ 64 := hfits.hasRoom
  have hfirst := toNat_firstRowId (hfits.hasRoom.mono hpos)
  have hstart : InOrder stream.cached.log := h.inOrder
  obtain ⟨horder, hlast⟩ := inOrder_batch timestampEpochMs none hstart hfits.hasRoom hne
  have hlive := liveRows_batch timestampEpochMs horder hfits.decodes
  rw [zip_batchRecords hlength] at hlive
  have hnodup : ((liveRows env.write _).map Prod.fst).Nodup := nodup_liveRows horder
  rw [hlive] at hnodup
  rw [hcached]
  refine ⟨horder, ?_⟩
  by_cases hnil : env.write.table.derivedIndexes = []
  · rw [if_pos hnil]
    refine fun entry hentry => (h.entry entry hentry).grow (hlast ▸ Nat.le_add_right ..) fun hcase => ?_
    rcases hcase with hindexes | heq
    · exact absurd hnil hindexes
    · have hgrown : lastKey stream.cached.log = lastKey stream.cached.log + payloads.length :=
        heq.trans hlast
      omega
  · obtain rfl := batchRows_eq hfits.decodes hfits.prepared hnil hgiven
    have hgivenNe : given ≠ [] := fun hempty => by
      rw [hempty, List.length_nil] at hlength
      omega
    rw [if_neg hnil, if_neg hgivenNe]
    have hlatest : (lastRowId (firstRowId stream.cached.log).val given).toNat =
        lastKey stream.cached.log + payloads.length := by
      have hlastRow := toNat_lastRowId (firstRowId stream.cached.log).val hgivenNe (by omega)
      omega
    refine mutateEntry_coherent (hlatest.trans hlast.symm) (fun entry => (insertRows_fields entry _ _).1)
      (fun entry hentry => ?_) fun entry hentry => ?_
    · simp only [EqualityTableCacheEntry.withinBudget, decide_eq_true_eq]
      exact (hfits.entryHasRoom entry hentry).imp_right
        ((insertRows_fields { entry with latestTxId := _ } _ _).2.trans ·)
    · have hrows : entry.rowsById = liveRows env.write stream.cached.log :=
        (h.entry entry hentry).rows (.inl hnil)
      rw [← hrows] at hnodup hlive
      refine Eq.trans (rowsById_insertRows _ ?_) hlive.symm
      exact hnodup

/-! ## Imports -/

variable {records : List (TransactionRecord × Bool)}

theorem importRecords_completed {log : List TransactionRecord}
    (h : ∀ r ∈ records, r.2 = true) : (importRecords log records).2 = true := by
  induction records generalizing log with
  | nil => rfl
  | cons r records ih =>
    obtain ⟨record, stored⟩ := r
    obtain ⟨rfl, hrest⟩ := List.forall_mem_cons.mp h
    unfold importRecords
    split
    · exact ih hrest
    · exact ih hrest

theorem warmEqualityCache_log (env : CacheEnv) (cached : CachedTable) (warmFields : List String) :
    (cached.warmEqualityCache env warmFields).log = cached.log := by
  unfold warmEqualityCache
  split
  · rfl
  · dsimp only
    split <;> rfl

theorem bootstrapFromCatalogs_log (env : CacheEnv) (cached : CachedTable) (warmFields : List String) :
    (cached.bootstrapFromCatalogs env warmFields).log = cached.log := by
  unfold bootstrapFromCatalogs
  split
  · rfl
  · rw [warmEqualityCache_log]
    rfl

theorem importWalRecords_log (env : CacheEnv) (cached : CachedTable)
    (records : List (TransactionRecord × Bool)) (replays : Bool) (warmFields : List String) :
    (cached.importWalRecords env records replays warmFields).log = (importRecords cached.log records).1 := by
  unfold importWalRecords
  dsimp only
  split
  · rw [bootstrapFromCatalogs_log]
    rfl
  · rfl

variable {warmFields : List String}

theorem warmEqualityCache_entry (h : entry ∈ (cached.warmEqualityCache env warmFields).entry) : entry ∈ cached.entry ∧
        (warmFields = [] ∨ env.accessorCacheRowsMaxBytes ≠ 0) ∨
      EntryCoherent env true cached.log entry := by
  unfold warmEqualityCache at h
  split at h
  · rename_i hnil
    exact .inl ⟨h, .inl hnil⟩
  · dsimp only at h
    split at h
    · rename_i hbudget
      obtain rfl := Option.some.inj h
      obtain ⟨hrows, hlatest⟩ := ensurePostings_fields ⟨cached.head.getD 0, liveRows env.write cached.log,
        env.estimateRowsByIdBytes (liveRows env.write cached.log), fun _ => none⟩ warmFields
      refine .inr ⟨hbudget, ?_, fun _ => hrows⟩
      rw [hlatest]
      exact (toNat_head_getD cached).le
    · rename_i hbudget
      refine .inl ⟨h, .inr fun hzero => hbudget ?_⟩
      simp [EqualityTableCacheEntry.withinBudget, hzero]

theorem importWalRecords_entry {replays : Bool}
    (h : entry ∈ (cached.importWalRecords env records replays warmFields).entry) :
    entry ∈ cached.entry ∧ (WarmsAfterImport env records replays warmFields →
        (importRecords cached.log records).1 = cached.log) ∨
      EntryCoherent env true (importRecords cached.log records).1 entry := by
  unfold importWalRecords at h
  dsimp only at h
  split at h
  · unfold bootstrapFromCatalogs at h
    split at h
    · rename_i hnil
      exact .inl ⟨h, fun hwarms => absurd hnil hwarms.indexed⟩
    · rcases warmEqualityCache_entry h with ⟨hentry, hreason⟩ | hcoherent
      · refine .inl ⟨hentry, fun hwarms => ?_⟩
        exact (hreason.elim hwarms.warmFields fun hlimit => hlimit hwarms.unlimited).elim
      · exact .inr hcoherent
  · rename_i hskip
    refine .inl ⟨h, fun hwarms => ?_⟩
    by_contra hchanged
    exact hskip ⟨importRecords_completed hwarms.stored, hchanged, hwarms.replays⟩

theorem StreamCoherent.importWalRecords (h : StreamCoherent env stream) {replays : Bool}
    (hfits : stream.cached.entry = none ∨ (∀ r ∈ records, LeavesRows r.1) ∨
      WarmsAfterImport env records replays warmFields) :
    StreamCoherent env { stream with
      loaded := true
      cached := stream.cached.importWalRecords env records replays warmFields } := by
  have hlog := importWalRecords_log env stream.cached records replays warmFields
  have horder : InOrder (importRecords stream.cached.log records).1 := inOrder_importRecords h.inOrder
  have hle : lastKey stream.log ≤ lastKey (importRecords stream.log records).1 :=
    lastKey_le_importRecords h.inOrder
  rw [← hlog] at horder
  refine ⟨horder, fun entry hentry => ?_⟩
  rw [CachedStream.log, hlog]
  rcases importWalRecords_entry hentry with ⟨hold, hsame⟩ | hcoherent
  · refine (h.entry entry hold).grow hle fun _ => ?_
    rcases hfits with hnone | hleaves | hwarms
    · rw [hnone] at hold
      cases hold
    · exact liveRows_importRecords h.inOrder hleaves
    · exact congrArg (liveRows env.write) (hsame hwarms)
  · exact hcoherent

/-! ## Runs -/

theorem StreamCoherent.fillEntry (h : StreamCoherent env stream) (fieldName : String) :
    StreamCoherent env (stream.fillEntry env fieldName) := by
  unfold CachedStream.fillEntry
  cases hmatching : stream.matchingEntry with
  | some entry =>
    refine ⟨h.inOrder, fun entry' hentry' => ?_⟩
    obtain rfl := Option.some.inj hentry'
    exact (h.rows_of_matches hmatching).1.ensureFieldPostings fieldName
  | none =>
    dsimp only
    split
    · rename_i hbudget
      refine ⟨h.inOrder, fun entry hentry => ?_⟩
      obtain rfl := Option.some.inj hentry
      have hbuilt := ensurePostings_fields ⟨stream.cached.head.getD 0, liveRows env.write stream.log,
        env.estimateRowsByIdBytes (liveRows env.write stream.log), fun _ => none⟩ [fieldName]
      refine ⟨hbudget, ?_, fun _ => hbuilt.1⟩
      exact (congrArg UInt64.toNat hbuilt.2).trans_le (toNat_head_getD stream.cached).le
    · exact h

theorem StreamCoherent.invalidate (h : StreamCoherent env stream)
    (hfits : stream.cached.entry = none ∨ stream.durable = true ∧
      (env.write.table.derivedIndexes ≠ [] ∨ stream.matchingEntry ≠ none)) :
    StreamCoherent env stream.invalidateStreamCache := by
  rcases hfits with hnone | ⟨hdurable, haccepted⟩
  · refine ⟨?_, fun entry hentry => ?_⟩
    · cases hdurable : stream.durable with
      | true => simpa [CachedStream.invalidateStreamCache, CachedStream.log, CachedTable.log, hdurable]
          using h.inOrder
      | false => simp [CachedStream.invalidateStreamCache, CachedStream.log, CachedTable.log, hdurable,
          InOrder]
    · rw [CachedStream.invalidateStreamCache, hnone] at hentry
      cases hentry
  · have hlog : stream.invalidateStreamCache.log = stream.log := by
      simp [CachedStream.invalidateStreamCache, CachedStream.log, CachedTable.log, hdurable]
    refine ⟨hlog ▸ h.inOrder, fun entry hentry => ?_⟩
    have hcoherent := h.entry entry hentry
    rw [hlog]
    refine ⟨hcoherent.withinBudget, hcoherent.latest_le, fun _ => ?_⟩
    rcases haccepted with hne | hmatches
    · exact hcoherent.rows (.inl hne)
    · obtain ⟨accepted, haccepted⟩ := Option.ne_none_iff_exists'.mp hmatches
      have hsame : stream.cached.entry = some accepted := (Option.filter_eq_some_iff.mp haccepted).1
      obtain rfl : accepted = entry := Option.some.inj (hsame.symm.trans hentry)
      exact (h.rows_of_matches haccepted).2

theorem StreamCoherent.apply (h : StreamCoherent env stream) {op : StreamCacheOp}
    (hfits : StreamOpFits env stream op) : StreamCoherent env (stream.apply env op) := by
  cases op with
  | append write => exact h.append hfits
  | appendBatch payloads preparedRows timestampEpochMs =>
    obtain ⟨rows, hfits⟩ := hfits
    exact h.appendBatch hfits
  | importWalRecords records replays warmFields => exact h.importWalRecords hfits
  | fill fieldName => exact h.fillEntry fieldName
  | clear =>
    refine ⟨h.inOrder, fun entry hentry => h.entry entry ?_⟩
    simp only [CachedStream.apply, CachedTable.clearCachedTableState] at hentry
    split at hentry
    · cases hentry
    · exact hentry
  | invalidate => exact h.invalidate hfits
  | read => exact h.load

def CachedStream.uncached (env : CacheEnv) (streamId : String) (durable loaded : Bool)
    (log : List TransactionRecord) : CachedStream :=
  ⟨streamId, durable, loaded, CachedTable.startup env log⟩

/-- In a run whose steps fit, every entry that is accepted has the rows of full replay. -/
theorem accepted_entry_replays (env : CacheEnv) (streamId : String) (durable loaded : Bool)
    (log : List TransactionRecord) (horder : InOrder log) (ops : List StreamCacheOp)
    (hrun : Along (CachedStream.apply env) (StreamOpFits env)
      (CachedStream.uncached env streamId durable loaded log) ops) :
    Coherent env
      (runFrom (CachedStream.apply env) (CachedStream.uncached env streamId durable loaded log) ops) := by
  have hstart : StreamCoherent env (CachedStream.uncached env streamId durable loaded log) :=
    ⟨horder, fun entry hentry => by cases hentry⟩
  exact (hrun.invariant (fun _ _ hfits h => h.apply hfits) hstart).coherent

/-- The entry is filled and follows an insert; the stream is then dropped from memory and read again. -/
theorem filled_entry_replays : Coherent keyedCacheEnv (runFrom (CachedStream.apply keyedCacheEnv)
    (CachedStream.uncached keyedCacheEnv "d:t" true true [firstRecord])
    [.fill "k", .append (insertRow [97] [1] none), .invalidate, .read]) := by
  refine accepted_entry_replays keyedCacheEnv "d:t" true true [firstRecord] aligned_firstRecord.inOrder
    [.fill "k", .append (insertRow [97] [1] none), .invalidate, .read]
    ⟨trivial, ⟨by decide +kernel, fun _ given hgiven => ?_, fun _ row hrow entry hentry => .inl rfl⟩,
      .inr ⟨rfl, .inl (by decide +kernel)⟩, trivial, trivial⟩
  obtain rfl : keyedRow [97] [1] = given := Option.some.inj hgiven
  decide +kernel

def laterRecord : TransactionRecord := { firstRecord with id := ⟨5⟩ }

def importedRow : TransactionRecord :=
  ⟨⟨2⟩, none, none, 0, ⟨"a"⟩, .insert, some (keyedEnv.encode (keyedRow [97] [1]))⟩

def smallCacheEnv : CacheEnv := { keyedCacheEnv with accessorCacheRowsMaxBytes := 200 }

/-- After an import below the head, the entry that was filled before is accepted without the row. An
entry that was emptied when its second row came is accepted with the third alone. -/
theorem stale_entry_accepted :
    let imported := runFrom (CachedStream.apply keyedCacheEnv)
      (CachedStream.uncached keyedCacheEnv "d:t" true true [laterRecord])
      [.fill "k", .importWalRecords [(importedRow, true)] true []]
    let evicted := runFrom (CachedStream.apply smallCacheEnv)
      (CachedStream.uncached smallCacheEnv "d:t" true true [firstRecord])
      [.fill "k", .append (insertRow [97] [1] none), .append (insertRow [98] [2] none),
        .append (insertRow [99] [3] none)]
    imported.matchingEntry.map (·.rowsById) = some [] ∧
      liveRows keyedEnv imported.log = [(2, keyedRow [97] [1])] ∧
      evicted.matchingEntry.map (·.rowsById) = some [(3, keyedRow [99] [3])] ∧
      liveRows keyedEnv evicted.log =
        [(1, keyedRow [97] [1]), (2, keyedRow [98] [2]), (3, keyedRow [99] [3])] := by
  refine ⟨?_, ?_, ?_, ?_⟩ <;> decide +kernel

end DistDb.Cache
