import DistDb.Cache.ColdScan

/-! # Cached, scanned and counted rows

Postings and one of the counters compare bytes, where the scans compare values; the counter of a whole table does not
look at payloads at all. -/

namespace DistDb.Cache
open Lib Wal Execution Mutation CachedTable

variable {env : CacheEnv} {filters : EqualityFilters} {records : List TransactionRecord} {rows : List LiveRow}

/-! ## Postings and comparisons -/

theorem nodup_ids_liveRows (env : WriteEnv) (records : List TransactionRecord) :
    ((liveRows env records).map Prod.fst).Nodup := by
  rw [liveRows, collectLiveRowsFromRecords_eq_replay]
  exact Replay.nodup_map_fst_finish _

/-- The row has the bytes of every filter. -/
def HasValues (filters : EqualityFilters) (row : RowMap) : Prop :=
  ∀ filter ∈ filters, row.lookup filter.1 = some filter.2

theorem HasValues.rowMatches {row : RowMap} (h : HasValues filters row) :
    rowMatchesEqualityFilters env filters row = true := by
  refine List.all_eq_true.mpr fun filter hfilter => ?_
  rw [h filter hfilter]
  exact storedFieldValuesEqual_self _ _

theorem mem_cachedRows {entry : EqualityTableCacheEntry} (h : Mirrors entry rows)
    (hnodup : (rows.map Prod.fst).Nodup) (hne : filters ≠ []) {row : LiveRow} :
    row ∈ (entry.ensurePostings (filters.map Prod.fst)).rowsForFieldValues filters ↔
      row ∈ rows ∧ HasValues filters row.2 := by
  obtain ⟨hmirrors, hfields⟩ := h.ensurePostings (filters.map Prod.fst)
  rw [hmirrors.rowsForFieldValues_eq hnodup hne fun filter hfilter =>
    hfields filter.1 (.inr (List.mem_map_of_mem hfilter)), List.mem_filter, List.all_eq_true]
  simp only [decide_eq_true_eq, HasValues]

/-- Postings find the rows that the comparison selects exactly if rows that compare equal have the very bytes that
are looked for. -/
theorem cached_lookup_rows_iff (env : CacheEnv) (filters : EqualityFilters) (records : List TransactionRecord)
    (entry : EqualityTableCacheEntry) (hrows : rows.Perm (liveRows env.write records)) (hentry : Mirrors entry rows) :
    (∀ row, row ∈ (entry.ensurePostings (filters.map Prod.fst)).rowsForFieldValues filters ↔
      row ∈ liveRows env.write records ∧ rowMatchesEqualityFilters env filters row.2 = true) ↔
      (filters = [] → liveRows env.write records = []) ∧
        ∀ row ∈ liveRows env.write records, rowMatchesEqualityFilters env filters row.2 = true →
          HasValues filters row.2 := by
  have hnodup : (rows.map Prod.fst).Nodup :=
    (hrows.map Prod.fst).nodup_iff.mpr (nodup_ids_liveRows env.write records)
  by_cases hne : filters = []
  · subst hne
    have hnone : (entry.ensurePostings (([] : EqualityFilters).map Prod.fst)).rowsForFieldValues [] = [] := rfl
    have hall : ∀ row, rowMatchesEqualityFilters env [] row = true := fun _ => rfl
    simp only [hnone, hall, List.not_mem_nil, and_true, false_iff, imp_iff_right]
    rw [List.eq_nil_iff_forall_not_mem, and_iff_left]
    exact fun _ _ _ hfilter => absurd hfilter List.not_mem_nil
  · simp only [hne, false_imp_iff, true_and]
    refine forall_congr' fun row => ?_
    rw [mem_cachedRows hentry hnodup hne, hrows.mem_iff]
    constructor
    · intro hiff hrow hmatch
      exact (hiff.mpr ⟨hrow, hmatch⟩).2
    · intro hvalues
      exact ⟨fun h => ⟨h.1, h.2.rowMatches⟩, fun h => ⟨h.1, hvalues h.1 h.2⟩⟩

def zeroPadded : List TransactionRecord := [rowRecord 1 .insert none none [some [48, 55], some [1]]]

def plainEntry (rows : List LiveRow) : EqualityTableCacheEntry := ⟨1, rows, 0, fun _ => none⟩

theorem mirrors_rows (latestTxId : UInt64) (rows : List LiveRow) (approxRowsBytes : Nat) :
    Mirrors ⟨latestTxId, rows, approxRowsBytes, fun _ => none⟩ rows :=
  ⟨rfl, fun _ _ h => by cases h⟩

theorem zeroPadded_same_bytes :
    Mirrors (plainEntry (liveRows keyedEnv zeroPadded)) (liveRows keyedEnv zeroPadded) ∧
    ∀ row, row ∈ ((plainEntry (liveRows keyedEnv zeroPadded)).ensurePostings ["k"]).rowsForFieldValues
        [("k", [48, 55])] ↔
      row ∈ liveRows keyedEnv zeroPadded ∧ rowMatchesEqualityFilters keyedCacheEnv [("k", [48, 55])] row.2 = true := by
  refine ⟨mirrors_rows 1 _ 0, (cached_lookup_rows_iff keyedCacheEnv [("k", [48, 55])] zeroPadded _ (List.Perm.refl _)
    (mirrors_rows 1 _ 0)).mpr ⟨by simp, ?_⟩⟩
  have hrows : liveRows keyedEnv zeroPadded = [(1, keyedRow [48, 55] [1])] := by decide +kernel
  intro row hrow _ filter hfilter
  rw [show liveRows keyedCacheEnv.write zeroPadded = _ from hrows, List.mem_singleton] at hrow
  rw [hrow, List.mem_singleton.mp hfilter]
  decide +kernel

/-- The key "07" compares equal to "7" but is not found under it. -/
theorem zeroPadded_not_cached :
    ((plainEntry (liveRows keyedEnv zeroPadded)).ensurePostings ["k"]).rowsForFieldValues [("k", [55])] = [] ∧
      (liveRows keyedEnv zeroPadded).filter (fun row =>
        rowMatchesEqualityFilters keyedCacheEnv [("k", [55])] row.2) = [(1, keyedRow [48, 55] [1])] := by
  decide +kernel

/-! ## Counting over the records -/

def countVisibleIds (test : TransactionRecord → Bool) (records : List TransactionRecord) : Finset UInt64 :=
  records.foldl (fun ids record =>
    if recordVisibleForLiveRowApply record (terminalGroups records) then
      match record.kind with
      | .insert | .update => if test record then insert record.id.val ids else ids
      | .delete =>
        match record.refid with
        | some refid => ids.erase refid.val
        | none => ids
      | _ => ids
    else ids) ∅

def matchesForCount (env : CacheEnv) (filters : EqualityFilters) (record : TransactionRecord) : Bool :=
  match record.payload with
  | none => false
  | some payload =>
    match singleFilter filters with
    | some filter =>
      match decodeRowFieldValueWithSchemaCache (rowPayloadSchemaCache env.write.schema) payload filter.1 with
      | .ok (some value) => value = filter.2
      | .ok none => false
      | .error _ => false
    | none =>
      match decodeRowPayloadWithSchemaCache (rowPayloadSchemaCache env.write.schema) payload with
      | .ok row => rowMatchesEqualityFilters env filters row
      | .error _ => false

def countLoadedRecords (env : CacheEnv) (filters : EqualityFilters) (records : List TransactionRecord) : Nat :=
  (countVisibleIds (matchesForCount env filters) records).card

def loadLiveRowCount (cached : Option (UInt64 × Nat)) (headIfLoaded : Option UInt64)
    (records : List TransactionRecord) : Nat :=
  match cached with
  | some (latestTxId, count) =>
    if headIfLoaded = some latestTxId then count else (countVisibleIds (fun _ => true) records).card
  | none => (countVisibleIds (fun _ => true) records).card

/-! ## The ways of a lookup -/

/-- Where a direct scan finds the records: in memory, or in the file of a stream that is not loaded. -/
inductive StreamRecords where
  | loaded (records : List TransactionRecord)
  | onDisk (records : List TransactionRecord)

namespace StreamRecords

def toList : StreamRecords → List TransactionRecord
  | loaded records => records
  | onDisk records => records

def directWalScan (env : CacheEnv) (filters : EqualityFilters) : StreamRecords → List LiveRow
  | loaded records => scanLoadedRecords env filters (scanChunking env.write.applyWorkers records) records
  | onDisk records => if filters = [] then [] else coldScanRows env filters records

def countDirectWalScan (env : CacheEnv) (filters : EqualityFilters) : StreamRecords → Nat
  | loaded records => if filters = [] then 0 else countLoadedRecords env filters records
  | onDisk records => if filters = [] then 0 else (coldScanRows env filters records).length

end StreamRecords

/-- What a lookup meets: an entry of the table cache for the stream's head, a usable probe result, the choice between
a direct scan and the rows that an accessor restores, and the stream. -/
structure LookupSources where
  entry : Option EqualityTableCacheEntry
  probe : Option (List LiveRow)
  usesDirectScan : Bool
  restored : List LiveRow
  stream : StreamRecords

namespace LookupSources

variable (env : CacheEnv) (filters : EqualityFilters) (sources : LookupSources)

def loadLiveRows : List LiveRow :=
  if filters = [] then []
  else
    match sources.entry with
    | some entry => (entry.ensurePostings (filters.map Prod.fst)).rowsForFieldValues filters
    | none =>
      match sources.probe with
      | some rows => rows
      | none =>
        if sources.usesDirectScan then sources.stream.directWalScan env filters
        else
          ((⟨0, sources.restored, 0, fun _ => none⟩ : EqualityTableCacheEntry).ensurePostings
            (filters.map Prod.fst)).rowsForFieldValues filters

def countRowsForFieldValues (entry : EqualityTableCacheEntry) : Nat :=
  match filters with
  | [filter] => (entry.postingsFor filter).length
  | _ => (entry.rowsForFieldValues filters).length

def countLiveRows : Nat :=
  if filters = [] then 0
  else
    match sources.entry with
    | some entry => countRowsForFieldValues filters (entry.ensurePostings (filters.map Prod.fst))
    | none =>
      match sources.probe with
      | some rows => rows.length
      | none =>
        if sources.usesDirectScan then sources.stream.countDirectWalScan env filters
        else (sources.loadLiveRows env filters).length

/-- An entry has the live rows of the stream. -/
def Consistent : Prop :=
  ∀ entry ∈ sources.entry, ∃ rows, rows.Perm (liveRows env.write sources.stream.toList) ∧ Mirrors entry rows

/-- The lookup scans the loaded stream for one field. -/
def ComparesBytes (filter : String × Bytes) (records : List TransactionRecord) : Prop :=
  sources.entry = none ∧ sources.probe = none ∧ sources.usesDirectScan = true ∧
    sources.stream = .loaded records ∧ filters = [filter]

end LookupSources

/-! ## What the counters count -/

/-- A visible record with this id passes the test, and no visible delete of it follows. -/
def Standing (records : List TransactionRecord) (test : TransactionRecord → Prop) (id : UInt64) : Prop :=
  ∃ pre r post, records = pre ++ r :: post ∧ r.id.val = id ∧ (r.kind = .insert ∨ r.kind = .update) ∧
    Visible records r ∧ test r ∧ ∀ d ∈ post, d.kind = .delete → d.refid = some ⟨id⟩ → ¬ Visible records d

variable {id : UInt64}

theorem Standing.imp {test test' : TransactionRecord → Prop} (himp : ∀ r, test r → test' r)
    (h : Standing records test id) : Standing records test' id := by
  obtain ⟨pre, r, post, heq, hid, hkind, hvisible, htest, hdel⟩ := h
  exact ⟨pre, r, post, heq, hid, hkind, hvisible, himp r htest, hdel⟩

def countEvent (test : TransactionRecord → Bool) (groups : TerminalGroups) (record : TransactionRecord) :
    LogEvent UInt64 Unit :=
  if recordVisibleForLiveRowApply record groups then
    match record.kind with
    | .insert | .update => if test record then .put record.id.val () else .skip
    | .delete =>
      match record.refid with
      | some refid => .del refid.val
      | none => .skip
    | _ => .skip
  else .skip

theorem countVisibleIds_eq (test : TransactionRecord → Bool) : countVisibleIds test records =
    keysAfter (records.map (countEvent test (terminalGroups records))) := by
  rw [countVisibleIds, keysAfter, List.foldl_map]
  refine List.foldl_ext _ _ _ fun ids record _ => ?_
  unfold countEvent
  by_cases hvisible : recordVisibleForLiveRowApply record (terminalGroups records) = true
  · rw [if_pos hvisible, if_pos hvisible]
    cases record.kind with
    | insert | update => by_cases htest : test record = true <;> simp [htest]
    | delete => cases record.refid <;> rfl
    | _ => rfl
  · rw [if_neg hvisible, if_neg hvisible]

variable {record : TransactionRecord}

theorem not_marker_of_row (h : record.kind = .insert ∨ record.kind = .update) :
    record.kind ≠ .writeCommit ∧ record.kind ≠ .writeAbort := by
  rcases h with h | h <;> simp [h]

variable {test : TransactionRecord → Bool}

theorem countEvent_eq_put : (∃ value, countEvent test (terminalGroups records) record = .put id value) ↔
      record.id.val = id ∧ (record.kind = .insert ∨ record.kind = .update) ∧ Visible records record ∧
        test record = true := by
  unfold countEvent
  by_cases hkind : record.kind = .insert ∨ record.kind = .update
  · obtain ⟨hcommit, habort⟩ := not_marker_of_row hkind
    rw [← recordVisibleForLiveRowApply_iff hcommit habort]
    by_cases hvisible : recordVisibleForLiveRowApply record (terminalGroups records) = true
    · rcases hkind with hkind | hkind <;> by_cases htest : test record = true <;> simp [hvisible, hkind, htest]
    · simp [hvisible]
  · simp only [hkind, false_and, and_false, iff_false, not_exists]
    intro value heq
    split at heq
    · split at heq
      · rename_i h
        exact hkind (.inl h)
      · rename_i h
        exact hkind (.inr h)
      · split at heq <;> cases heq
      · cases heq
    · cases heq

theorem countEvent_eq_del : countEvent test (terminalGroups records) record = .del id ↔
      record.kind = .delete ∧ record.refid = some ⟨id⟩ ∧ Visible records record := by
  unfold countEvent
  by_cases hkind : record.kind = .delete
  · rw [← recordVisibleForLiveRowApply_iff (by simp [hkind]) (by simp [hkind])]
    by_cases hvisible : recordVisibleForLiveRowApply record (terminalGroups records) = true
    · cases href : record.refid with
      | none => simp [hvisible, hkind]
      | some refid =>
        simp only [hvisible, hkind, ↓reduceIte, LogEvent.del.injEq, Option.some.injEq, true_and, and_true]
        exact ⟨fun h => by rw [← h], fun h => by rw [h]⟩
    · simp [hvisible]
  · simp only [hkind, false_and, iff_false]
    intro heq
    split at heq
    · split at heq
      · split at heq <;> cases heq
      · split at heq <;> cases heq
      · rename_i h
        exact hkind h
      · cases heq
    · cases heq

theorem mem_countVisibleIds : id ∈ countVisibleIds test records ↔ Standing records (test · = true) id := by
  rw [countVisibleIds_eq, mem_keysAfter, exists_held_map_iff]
  refine exists_congr fun pre => exists_congr fun r => exists_congr fun post => and_congr_right fun _ => ?_
  rw [countEvent_eq_put, and_assoc, and_assoc, and_assoc]
  refine and_congr_right fun _ => and_congr_right fun _ => and_congr_right fun _ => and_congr_right fun _ => ?_
  refine forall₂_congr fun d _ => ?_
  rw [Ne, countEvent_eq_del, not_and]
  exact forall_congr' fun _ => not_and

/-- The row of the record passes the test. -/
def RowPasses (env : CacheEnv) (test : RowMap → Prop) (r : TransactionRecord) : Prop :=
  ∃ payload row, r.payload = some payload ∧ decodeRowPayload env.write.schema payload = .ok row ∧ test row

variable {r : TransactionRecord}

theorem putsRow_iff_passes {test : RowMap → Prop} : (∃ row, PutsRow env records r row ∧ test row) ↔
      (r.kind = .insert ∨ r.kind = .update) ∧ Visible records r ∧ RowPasses env test r := by
  constructor
  · rintro ⟨row, ⟨hvisible, hkind, payload, hpayload, hdecode⟩, htest⟩
    exact ⟨hkind, hvisible, payload, row, hpayload, hdecode, htest⟩
  · rintro ⟨hkind, hvisible, payload, row, hpayload, hdecode, htest⟩
    exact ⟨row, ⟨hvisible, hkind, payload, hpayload, hdecode⟩, htest⟩

theorem mem_keysAfter_restrict {p : RowMap → Bool} :
    id ∈ keysAfter ((logEvents env.write.schema records).map (LogEvent.restrict p)) ↔
      Standing records (RowPasses env (p · = true)) id := by
  rw [mem_keysAfter, logEvents, List.map_map, exists_held_map_iff]
  refine exists_congr fun pre => exists_congr fun r => exists_congr fun post => and_congr_right fun _ => ?_
  have hput : (∃ value, (LogEvent.restrict p ∘ recordEvent env.write.schema (terminalGroups records)) r =
      .put id value) ↔ r.id.val = id ∧ (r.kind = .insert ∨ r.kind = .update) ∧ Visible records r ∧
        RowPasses env (p · = true) r := by
    simp only [Function.comp_apply, restrict_eq_put_iff, recordEvent_put_iff, and_assoc, exists_and_left,
      ← putsRow_iff_passes]
  rw [hput, and_assoc, and_assoc, and_assoc]
  refine and_congr_right fun _ => and_congr_right fun _ => and_congr_right fun _ => and_congr_right fun _ => ?_
  refine forall₂_congr fun d _ => ?_
  simp only [Function.comp_apply, ne_eq, restrict_eq_del_iff, recordEvent_del_iff]
  exact ⟨fun hnot hkind href hvisible => hnot ⟨hvisible, hkind, href⟩, fun hnot h => hnot h.2.1 h.2.2 h.1⟩

theorem map_restrict_true (log : List (LogEvent UInt64 RowMap)) : log.map (LogEvent.restrict fun _ => true) = log := by
  refine (List.map_congr_left fun event _ => ?_).trans (List.map_id log)
  cases event <;> rfl

theorem length_liveRows_eq (env : CacheEnv) (records : List TransactionRecord) : (liveRows env.write records).length =
      (keysAfter ((logEvents env.write.schema records).map (LogEvent.restrict fun _ => true))).card := by
  rw [liveRows, collectLiveRowsFromRecords_eq_replay, replayEvents, Replay.length_finish, map_restrict_true]

theorem length_scanLoadedRecords_eq (hne : filters ≠ []) :
    (scanLoadedRecords env filters (scanChunking env.write.applyWorkers records) records).length =
      (keysAfter ((logEvents env.write.schema records).map
        (LogEvent.restrict (rowMatchesEqualityFilters env filters)))).card := by
  rw [scanLoadedRecords_eq hne scanChunking_pos, replayEvents, Replay.length_finish]

theorem card_eq_iff_of_standing {ids ids' : Finset UInt64} {test test' : TransactionRecord → Prop}
    (hids : ∀ id, id ∈ ids ↔ Standing records test id) (hids' : ∀ id, id ∈ ids' ↔ Standing records test' id)
    (himp : ∀ r, test r → test' r) :
    ids.card = ids'.card ↔ ∀ id, Standing records test' id → Standing records test id := by
  have hsub : ids ⊆ ids' := fun id hid => (hids' id).mpr (((hids id).mp hid).imp himp)
  constructor
  · intro hcard id hstanding
    rw [← hids, Finset.eq_of_subset_of_card_le hsub hcard.ge]
    exact (hids' id).mpr hstanding
  · intro hback
    exact congrArg Finset.card (hsub.antisymm fun id hid => (hids id).mpr (hback id ((hids' id).mp hid)))

theorem matchesForCount_single {filter : String × Bytes} :
    matchesForCount env [filter] r = true ↔ RowPasses env (fun row => row.lookup filter.1 = some filter.2) r := by
  unfold matchesForCount RowPasses
  cases r.payload with
  | none => simp
  | some payload =>
    simp only [singleFilter, decodeRowFieldValue_eq]
    cases hdecode : decodeRowPayload env.write.schema payload with
    | error e => simp [Except.map, hdecode]
    | ok row => cases hvalue : row.lookup filter.1 <;> simp [Except.map, hdecode, hvalue]

theorem matchesForCount_many (hmany : singleFilter filters = none) :
    matchesForCount env filters r = true ↔ RowPasses env (rowMatchesEqualityFilters env filters · = true) r := by
  unfold matchesForCount RowPasses
  cases r.payload with
  | none => simp
  | some payload =>
    simp only [hmany]
    rw [show decodeRowPayloadWithSchemaCache (rowPayloadSchemaCache env.write.schema) payload =
      decodeRowPayload env.write.schema payload from rfl]
    cases hdecode : decodeRowPayload env.write.schema payload <;> simp [hdecode]

/-! ## When the counts agree -/

theorem loadLiveRowCount_eq_iff (env : CacheEnv) {cached : Option (UInt64 × Nat)} {headIfLoaded : Option UInt64}
    (hcached : ∀ entry ∈ cached, headIfLoaded = some entry.1 → entry.2 = (liveRows env.write records).length) :
    loadLiveRowCount cached headIfLoaded records = (liveRows env.write records).length ↔
      (∃ entry ∈ cached, headIfLoaded = some entry.1) ∨
        ∀ id, Standing records (fun _ => True) id → Standing records (RowPasses env fun _ => True) id := by
  have hcount : (countVisibleIds (fun _ => true) records).card = (liveRows env.write records).length ↔
      ∀ id, Standing records (fun _ => True) id → Standing records (RowPasses env fun _ => True) id := by
    rw [length_liveRows_eq, eq_comm]
    refine card_eq_iff_of_standing (fun id => ?_) (fun id => ?_) fun _ _ => trivial
    · rw [mem_keysAfter_restrict]
      exact ⟨Standing.imp fun r => by simp [RowPasses], Standing.imp fun r => by simp [RowPasses]⟩
    · rw [mem_countVisibleIds]
      exact ⟨Standing.imp fun _ _ => trivial, Standing.imp fun _ _ => rfl⟩
  unfold loadLiveRowCount
  cases cached with
  | none => simpa using hcount
  | some entry =>
    by_cases hhead : headIfLoaded = some entry.1
    · simp only [hhead, ↓reduceIte, Option.mem_def, Option.some.injEq, exists_eq_left', true_or, iff_true]
      exact hcached entry rfl hhead
    · simpa [hhead] using hcount

theorem countLoadedRecords_eq_iff (hne : filters ≠ []) : countLoadedRecords env filters records =
      (scanLoadedRecords env filters (scanChunking env.write.applyWorkers records) records).length ↔
    ∀ filter ∈ singleFilter filters, ∀ id,
      Standing records (RowPasses env (rowMatchesEqualityFilters env [filter] · = true)) id →
        Standing records (RowPasses env fun row => row.lookup filter.1 = some filter.2) id := by
  rw [countLoadedRecords, length_scanLoadedRecords_eq hne]
  cases hsingle : singleFilter filters with
  | none =>
    simp only [Option.mem_def, reduceCtorEq, false_imp_iff, implies_true, iff_true]
    have hsame : countVisibleIds (matchesForCount env filters) records =
        keysAfter ((logEvents env.write.schema records).map
          (LogEvent.restrict (rowMatchesEqualityFilters env filters))) := by
      ext id
      rw [mem_countVisibleIds, mem_keysAfter_restrict]
      exact ⟨Standing.imp fun r => (matchesForCount_many hsingle).mp,
        Standing.imp fun r => (matchesForCount_many hsingle).mpr⟩
    rw [hsame]
  | some filter =>
    obtain rfl := singleFilter_eq_some hsingle
    simp only [Option.mem_def, Option.some.injEq, forall_eq']
    refine card_eq_iff_of_standing (fun id => ?_) (fun id => mem_keysAfter_restrict) ?_
    · rw [mem_countVisibleIds]
      exact ⟨Standing.imp fun r => matchesForCount_single.mp, Standing.imp fun r => matchesForCount_single.mpr⟩
    · rintro r ⟨payload, row, hpayload, hdecode, hvalue⟩
      refine ⟨payload, row, hpayload, hdecode, HasValues.rowMatches fun filter' hfilter' => ?_⟩
      rw [List.mem_singleton.mp hfilter']
      exact hvalue

theorem countRowsForFieldValues_eq {entry : EqualityTableCacheEntry} (h : Mirrors entry rows)
    (hnodup : (rows.map Prod.fst).Nodup) (hne : filters ≠ []) :
    LookupSources.countRowsForFieldValues filters (entry.ensurePostings (filters.map Prod.fst)) =
      ((entry.ensurePostings (filters.map Prod.fst)).rowsForFieldValues filters).length := by
  obtain ⟨hmirrors, hfields⟩ := h.ensurePostings (filters.map Prod.fst)
  unfold LookupSources.countRowsForFieldValues
  split
  · rename_i filter
    have hfield := hfields filter.1 (.inr (by simp))
    rw [hmirrors.rowsForFieldValues_eq hnodup hne fun filter' hfilter' => by
      rwa [List.mem_singleton.mp hfilter'], hmirrors.postingsFor_eq hfield, List.length_map]
    simp
  · rfl

/-- Counts and rows agree exactly if no row that does not decode is left (or the count is a kept one), and the
scan for one filter over loaded records meets no row that only compares equal. -/
theorem counts_agree_iff (env : CacheEnv) (filters : EqualityFilters) (sources : LookupSources)
    (hconsistent : sources.Consistent env) (cached : Option (UInt64 × Nat)) (headIfLoaded : Option UInt64)
    (hcached : ∀ entry ∈ cached, headIfLoaded = some entry.1 →
      entry.2 = (liveRows env.write sources.stream.toList).length) :
    (loadLiveRowCount cached headIfLoaded sources.stream.toList =
          (liveRows env.write sources.stream.toList).length ∧
        sources.countLiveRows env filters = (sources.loadLiveRows env filters).length) ↔
      ((∃ entry ∈ cached, headIfLoaded = some entry.1) ∨ ∀ id, Standing sources.stream.toList (fun _ => True) id →
          Standing sources.stream.toList (RowPasses env fun _ => True) id) ∧
        ∀ filter records, sources.ComparesBytes filters filter records → ∀ id,
          Standing records (RowPasses env (rowMatchesEqualityFilters env [filter] · = true)) id →
            Standing records (RowPasses env fun row => row.lookup filter.1 = some filter.2) id := by
  refine and_congr (loadLiveRowCount_eq_iff env hcached) ?_
  by_cases hne : filters = []
  · subst hne
    refine iff_of_true rfl fun filter records hbytes => ?_
    cases hbytes.2.2.2.2
  · unfold LookupSources.countLiveRows LookupSources.loadLiveRows LookupSources.ComparesBytes
    rw [if_neg hne, if_neg hne]
    cases hentry : sources.entry with
    | some entry =>
      obtain ⟨rows, hperm, hmirrors⟩ := hconsistent entry hentry
      have hnodup : (rows.map Prod.fst).Nodup :=
        (hperm.map Prod.fst).nodup_iff.mpr (nodup_ids_liveRows env.write _)
      simpa using countRowsForFieldValues_eq hmirrors hnodup hne
    | none =>
      cases hprobe : sources.probe with
      | some rows => simp
      | none =>
        cases hdirect : sources.usesDirectScan with
        | false => simp
        | true =>
          cases hstream : sources.stream with
          | onDisk records => simp [StreamRecords.countDirectWalScan, StreamRecords.directWalScan, hne]
          | loaded records =>
            simp only [StreamRecords.countDirectWalScan, StreamRecords.directWalScan, if_neg hne, ↓reduceIte,
              true_and, StreamRecords.loaded.injEq]
            rw [countLoadedRecords_eq_iff hne]
            constructor
            · rintro hbytes filter _ ⟨rfl, rfl⟩
              exact hbytes filter rfl
            · rintro hbytes filter hfilter
              exact hbytes filter records ⟨rfl, singleFilter_eq_some hfilter⟩

def cachedSources (records : List TransactionRecord) : LookupSources :=
  ⟨some (plainEntry (liveRows keyedEnv records)), none, true, [], .loaded records⟩

def scannedSources (records : List TransactionRecord) : LookupSources := ⟨none, none, true, [], .loaded records⟩

theorem cached_counts_agree :
    loadLiveRowCount (some (1, 1)) (some 1) zeroPadded = (liveRows keyedEnv zeroPadded).length ∧
      (cachedSources zeroPadded).countLiveRows keyedCacheEnv [("k", [48, 55])] =
        ((cachedSources zeroPadded).loadLiveRows keyedCacheEnv [("k", [48, 55])]).length := by
  have hcount : (liveRows keyedEnv zeroPadded).length = 1 := by decide +kernel
  refine (counts_agree_iff keyedCacheEnv [("k", [48, 55])] (cachedSources zeroPadded) ?_ (some (1, 1)) (some 1)
    ?_).mpr ⟨.inl ⟨_, rfl, rfl⟩, ?_⟩
  · rintro entry hentry
    cases hentry
    exact ⟨_, List.Perm.refl _, mirrors_rows 1 _ 0⟩
  · rintro entry hentry -
    cases hentry
    exact hcount.symm
  · rintro filter records ⟨hentry, -⟩
    cases hentry

def payloadLost : List TransactionRecord := [⟨⟨1⟩, none, none, 0, ⟨"user"⟩, .insert, none⟩]

/-- The scan for the key "7" finds the row with the key "07" but does not count it; a record without a row is
counted. -/
theorem uncounted_row_and_counted_record :
    (scannedSources zeroPadded).countLiveRows keyedCacheEnv [("k", [55])] = 0 ∧
      ((scannedSources zeroPadded).loadLiveRows keyedCacheEnv [("k", [55])]).length = 1 ∧
      loadLiveRowCount none none payloadLost = 1 ∧ (liveRows keyedEnv payloadLost).length = 0 := by
  decide +kernel

end DistDb.Cache
