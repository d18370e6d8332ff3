import DistDb.Cache.Lemmas.Writes
import DistDb.Execution.Realignment
import DistDb.Lib.HeldLog
import DistDb.Payload.FieldLookup

/-! # Equality lookups by scanning the stream

A row that does not match is skipped, so it does not replace an earlier row of the same id. -/

namespace DistDb.Cache
open Lib Wal Execution Mutation CachedTable

variable (env : CacheEnv)

def singleFilter : EqualityFilters → Option (String × Bytes)
  | [filter] => some filter
  | _ => none

/-! ## One record after the other -/

def decodeMatchingRow (filters : EqualityFilters) (payload : Bytes) : Option RowMap :=
  match singleFilter filters with
  | some filter =>
    match decodeRowPayloadIfFieldEqualsWithSchemaCache env.write.values (rowPayloadSchemaCache env.write.schema)
      payload filter.1 filter.2 with
    | .ok (some row) => if rowMatchesEqualityFilters env filters row then some row else none
    | .ok none => none
    | .error _ => none
  | none =>
    match decodeRowPayload env.write.schema payload with
    | .ok row => if rowMatchesEqualityFilters env filters row then some row else none
    | .error _ => none

def scanRecord (groups : TerminalGroups) (filters : EqualityFilters) (state : LiveRowState)
    (record : TransactionRecord) : LiveRowState :=
  if recordVisibleForLiveRowApply record groups then
    match record.kind with
    | .insert | .update =>
      match record.payload with
      | none => state
      | some payload =>
        match decodeMatchingRow env filters payload with
        | some row => state.put record.id.val row
        | none => state
    | .delete =>
      match record.refid with
      | some refid => state.del refid.val
      | none => state
    | _ => state
  else state

/-! ## In chunks, with several workers -/

def decodeMatchingLiveRow (groups : TerminalGroups) (filter : String × Bytes) (record : TransactionRecord) :
    Option RowMap :=
  if recordVisibleForLiveRowApply record groups = true ∧ (record.kind = .insert ∨ record.kind = .update) then
    match record.payload with
    | none => none
    | some payload =>
      match decodeRowPayloadIfFieldEqualsWithSchemaCache env.write.values (rowPayloadSchemaCache env.write.schema)
        payload filter.1 filter.2 with
      | .ok row => row
      | .error _ => none
  else none

def decodeMatchingLiveRowsAt (groups : TerminalGroups) (filter : String × Bytes)
    (records : List (TransactionRecord × Nat)) : List (Nat × RowMap) :=
  records.filterMap fun entry => (decodeMatchingLiveRow env groups filter entry.1).map (entry.2, ·)

def decodeMatchingLiveRowChunk (groups : TerminalGroups) (workers : Nat) (filter : String × Bytes)
    (chunk : List TransactionRecord) : List (Nat × RowMap) :=
  if workers ≤ 1 ∨ chunk.length < 2 then decodeMatchingLiveRowsAt env groups filter chunk.zipIdx
  else
    let chunkSize := (chunk.length + workers - 1) / workers
    (workerSlices chunkSize chunk 0 workers).flatMap fun slice =>
      decodeMatchingLiveRowsAt env groups filter (slice.2.zipIdx slice.1)

def decodeScannedChunk (groups : TerminalGroups) (workers : Nat) (filters : EqualityFilters)
    (chunk : List TransactionRecord) : List (Nat × RowMap) :=
  match singleFilter filters with
  | some filter => decodeMatchingLiveRowChunk env groups workers filter chunk
  | none => decodeLiveRowChunk env.write.schema groups workers chunk

def scanDecoded (groups : TerminalGroups) (filters : EqualityFilters) (state : LiveRowState × List (Nat × RowMap))
    (entry : TransactionRecord × Nat) : LiveRowState × List (Nat × RowMap) :=
  match entry.1.kind with
  | .insert | .update =>
    match state.2 with
    | (offset, row) :: decoded =>
      if offset = entry.2 then
        if (singleFilter filters).isSome = true ∨ rowMatchesEqualityFilters env filters row = true then
          (state.1.put entry.1.id.val row, decoded)
        else (state.1, decoded)
      else state
    | [] => state
  | .delete =>
    if recordVisibleForLiveRowApply entry.1 groups then
      match entry.1.refid with
      | some refid => (state.1.del refid.val, state.2)
      | none => state
    else state
  | _ => state

def scanChunk (groups : TerminalGroups) (filters : EqualityFilters) (workers : Nat) (state : LiveRowState)
    (chunk : List TransactionRecord) : LiveRowState :=
  (chunk.zipIdx.foldl (scanDecoded env groups filters)
    (state, decodeScannedChunk env groups workers filters chunk)).1

def scanChunking (applyWorkers : Nat) (records : List TransactionRecord) : Option (Nat × Nat) :=
  if applyWorkers > 1 ∧ records.length ≥ liveRowApplyParallelMinRecords then
    some (liveRowApplyParallelChunkSize, applyWorkers)
  else none

def scanLoadedRecords (filters : EqualityFilters) (chunking : Option (Nat × Nat))
    (records : List TransactionRecord) : List LiveRow :=
  if filters = [] then []
  else
    match chunking with
    | none => (records.foldl (scanRecord env (terminalGroups records) filters) Replay.empty).finish
    | some (chunkSize, workers) =>
      ((chunks chunkSize records).foldl (scanChunk env (terminalGroups records) filters workers)
        Replay.empty).finish

def applyRowLimitIfAny (rows : List LiveRow) (rowLimit : Option Nat) : List LiveRow :=
  match rowLimit with
  | some limit => rows.take limit
  | none => rows

theorem scanChunking_pos {applyWorkers : Nat} {records : List TransactionRecord} :
    ∀ plan ∈ scanChunking applyWorkers records, 0 < plan.1 := by
  intro plan hplan
  unfold scanChunking at hplan
  split at hplan
  · cases hplan
    exact (by decide : 0 < liveRowApplyParallelChunkSize)
  · cases hplan

/-! ## Both loops replay the records that match -/

variable {env} {filters : EqualityFilters} {groups : TerminalGroups} {record : TransactionRecord}
  {records : List TransactionRecord}

def scanEvent (env : CacheEnv) (filters : EqualityFilters) (groups : TerminalGroups) (record : TransactionRecord) :
    LogEvent UInt64 RowMap :=
  (recordEvent env.write.schema groups record).restrict (rowMatchesEqualityFilters env filters)

theorem rowMatches_single (filter : String × Bytes) (row : RowMap) : rowMatchesEqualityFilters env [filter] row =
      (row.lookup filter.1).any (storedFieldValuesEqual env.write.values · filter.2) := by
  simp [rowMatchesEqualityFilters, CacheEnv.valuesEqual]

theorem singleFilter_eq_some {filter : String × Bytes} (h : singleFilter filters = some filter) :
    filters = [filter] := by
  unfold singleFilter at h
  split at h
  · rw [Option.some.inj h]
  · cases h

theorem decodeMatchingRow_eq (payload : Bytes) : decodeMatchingRow env filters payload =
    match decodeRowPayload env.write.schema payload with
    | .ok row => if rowMatchesEqualityFilters env filters row then some row else none
    | .error _ => none := by
  unfold decodeMatchingRow
  cases hsingle : singleFilter filters with
  | none => rfl
  | some filter =>
    rw [singleFilter_eq_some hsingle]
    dsimp only
    rw [decodeRowPayloadIfFieldEquals_eq]
    cases decodeRowPayload env.write.schema payload with
    | error e => rfl
    | ok row =>
      simp only [Except.map, rowMatches_single]
      by_cases hmatch : (row.lookup filter.1).any (storedFieldValuesEqual env.write.values · filter.2) = true
      · simp [hmatch]
      · simp [hmatch]

theorem scanRecord_eq (state : LiveRowState) :
    scanRecord env groups filters state record = state.apply (scanEvent env filters groups record) := by
  rw [scanEvent, ← applyVisibleEqualityRecord_eq]
  unfold scanRecord CachedTable.applyVisibleEqualityRecord WriteEnv.decode
  by_cases hvisible : recordVisibleForLiveRowApply record groups = true
  · rw [if_pos hvisible, if_pos hvisible]
    cases record.kind with
    | insert | update =>
      cases record.payload with
      | none => rfl
      | some payload =>
        simp only [decodeMatchingRow_eq]
        cases decodeRowPayload env.write.schema payload with
        | error e => rfl
        | ok row =>
          by_cases hmatch : rowMatchesEqualityFilters env filters row = true
          · simp only [if_pos hmatch]
          · simp only [if_neg hmatch]
    | _ => rfl
  · rw [if_neg hvisible, if_neg hvisible]

def decodedAt (decode : TransactionRecord → Option RowMap) (records : List (TransactionRecord × Nat)) :
    List (Nat × RowMap) :=
  records.filterMap fun entry => (decode entry.1).map (entry.2, ·)

def decodeAhead (env : CacheEnv) (filters : EqualityFilters) (groups : TerminalGroups)
    (record : TransactionRecord) : Option RowMap :=
  match singleFilter filters with
  | some filter => decodeMatchingLiveRow env groups filter record
  | none => decodeLiveRow env.write.schema groups record

theorem decodeMatchingLiveRowChunk_eq (workers : Nat) (filter : String × Bytes) (chunk : List TransactionRecord) :
    decodeMatchingLiveRowChunk env groups workers filter chunk =
      decodeMatchingLiveRowsAt env groups filter chunk.zipIdx := by
  unfold decodeMatchingLiveRowChunk
  split
  · rfl
  · rename_i hworkers
    exact filterMap_workerSlices (fun hle => hworkers (.inl hle)) _ chunk

theorem decodeScannedChunk_eq (workers : Nat) (chunk : List TransactionRecord) :
    decodeScannedChunk env groups workers filters chunk = decodedAt (decodeAhead env filters groups) chunk.zipIdx := by
  unfold decodeScannedChunk
  cases hsingle : singleFilter filters with
  | none =>
    simp only [decodeLiveRowChunk_eq, decodeLiveRowsAt, decodedAt, decodeAhead, hsingle]
  | some filter =>
    simp only [decodeMatchingLiveRowChunk_eq, decodeMatchingLiveRowsAt, decodedAt, decodeAhead, hsingle]

theorem decodeMatchingLiveRow_eq (filter : String × Bytes) : decodeMatchingLiveRow env groups filter record =
    (decodeLiveRow env.write.schema groups record).filter (rowMatchesEqualityFilters env [filter]) := by
  unfold decodeMatchingLiveRow decodeLiveRow
  split
  · cases record.payload with
    | none => rfl
    | some payload =>
      dsimp only
      rw [decodeRowPayloadIfFieldEquals_eq]
      cases decodeRowPayload env.write.schema payload with
      | error e => rfl
      | ok row => simp only [Except.map, Option.filter, rowMatches_single]
  · rfl

theorem decodeAhead_spec (env : CacheEnv) (filters : EqualityFilters) (groups : TerminalGroups)
    (record : TransactionRecord) : (∀ row, decodeAhead env filters groups record = some row →
      decodeLiveRow env.write.schema groups record = some row ∧
        ((singleFilter filters).isSome = true ∨ rowMatchesEqualityFilters env filters row = true ↔
          rowMatchesEqualityFilters env filters row = true)) ∧
    (decodeAhead env filters groups record = none → ∀ row,
      decodeLiveRow env.write.schema groups record = some row → rowMatchesEqualityFilters env filters row = false) := by
  unfold decodeAhead
  cases hsingle : singleFilter filters with
  | none =>
    refine ⟨fun row hrow => ⟨hrow, by simp⟩, fun hnone row hrow => ?_⟩
    cases hrow.symm.trans hnone
  | some filter =>
    rw [singleFilter_eq_some hsingle]
    dsimp only
    rw [decodeMatchingLiveRow_eq]
    constructor
    · intro row hrow
      obtain ⟨hdecode, hmatch⟩ := Option.filter_eq_some_iff.mp hrow
      exact ⟨hdecode, by simp [hmatch]⟩
    · intro hnone row hrow
      rw [hrow, Option.filter_some] at hnone
      by_contra hmatch
      simp [hmatch] at hnone

theorem scanDecoded_eq (state : LiveRowState) (record : TransactionRecord) (k : Nat) (decoded : List (Nat × RowMap))
    (hlater : ∀ entry ∈ decoded, entry.1 ≠ k) :
    scanDecoded env groups filters (state, ((decodeAhead env filters groups record).map (k, ·)).toList ++ decoded)
        (record, k) = (state.apply (scanEvent env filters groups record), decoded) := by
  obtain ⟨hsome, hnone⟩ := decodeAhead_spec env filters groups record
  cases hahead : decodeAhead env filters groups record with
  | some row =>
    obtain ⟨hdecode, hkeep⟩ := hsome row hahead
    have hevent : recordEvent env.write.schema groups record = .put record.id.val row :=
      recordEvent_eq_put.mpr ⟨rfl, hdecode⟩
    obtain ⟨-, hkind, -⟩ := decodeLiveRow_eq_some.mp hdecode
    have hscan : scanDecoded env groups filters (state, (k, row) :: decoded) (record, k) =
        (state.apply (scanEvent env filters groups record), decoded) := by
      unfold scanEvent
      rw [hevent, LogEvent.restrict]
      by_cases hmatch : rowMatchesEqualityFilters env filters row = true
      · rcases hkind with hkind | hkind <;> simp [scanDecoded, hkind, hmatch, Replay.apply]
      · have hdrop : ¬ ((singleFilter filters).isSome = true ∨ rowMatchesEqualityFilters env filters row = true) :=
          fun h => hmatch (hkeep.mp h)
        rcases hkind with hkind | hkind <;>
          simp only [scanDecoded, hkind, ↓reduceIte, if_neg hdrop, if_neg hmatch, Replay.apply]
    exact hscan
  | none =>
    have hskip : ∀ key row, scanEvent env filters groups record ≠ .put key row := by
      intro key row hput
      obtain ⟨hevent, hmatch⟩ := restrict_eq_put_iff.mp hput
      rw [hnone hahead row (recordEvent_eq_put.mp hevent).2] at hmatch
      cases hmatch
    have hdelete : record.kind ≠ .delete → scanEvent env filters groups record = .skip := by
      intro hkind
      cases hevent : scanEvent env filters groups record with
      | skip => rfl
      | put key row => exact absurd hevent (hskip key row)
      | del key =>
        unfold scanEvent at hevent
        cases hrecord : recordEvent env.write.schema groups record with
        | skip => simp [hrecord, LogEvent.restrict] at hevent
        | del key' => exact absurd (recordEvent_eq_del.mp hrecord).2.1 hkind
        | put key' row =>
          rw [hrecord, LogEvent.restrict] at hevent
          split at hevent <;> cases hevent
    cases hkind : record.kind with
    | insert | update =>
      rw [hdelete (by simp [hkind])]
      cases decoded with
      | nil => simp [scanDecoded, hkind, Replay.apply]
      | cons entry rest => simp [scanDecoded, hkind, Replay.apply, hlater entry List.mem_cons_self]
    | delete =>
      have hnorow : decodeLiveRow env.write.schema groups record = none := by
        simp [decodeLiveRow, hkind]
      by_cases hvisible : recordVisibleForLiveRowApply record groups = true
      · cases href : record.refid <;>
          simp [scanDecoded, scanEvent, recordEvent, hkind, hnorow, hvisible, href, Replay.apply, LogEvent.restrict]
      · simp [scanDecoded, scanEvent, recordEvent, hkind, hnorow, hvisible, Replay.apply, LogEvent.restrict]
    | _ =>
      rw [hdelete (by simp [hkind])]
      simp [scanDecoded, hkind, Replay.apply]

theorem scanLoadedRecords_eq (hfilters : filters ≠ []) {chunking : Option (Nat × Nat)}
    (hsize : ∀ plan ∈ chunking, 0 < plan.1) :
    scanLoadedRecords env filters chunking records = replayEvents
      ((logEvents env.write.schema records).map (LogEvent.restrict (rowMatchesEqualityFilters env filters))) := by
  have hevents : (logEvents env.write.schema records).map (LogEvent.restrict (rowMatchesEqualityFilters env filters)) =
      records.map (scanEvent env filters (terminalGroups records)) := by
    rw [logEvents, List.map_map]
    rfl
  rw [hevents]
  unfold scanLoadedRecords replayEvents
  rw [if_neg hfilters]
  cases chunking with
  | none =>
    dsimp only
    rw [List.foldl_map]
    exact congrArg Replay.finish (List.foldl_ext _ _ _ fun state record _ => scanRecord_eq state)
  | some plan =>
    obtain ⟨chunkSize, workers⟩ := plan
    have hchunk : scanChunk env (terminalGroups records) filters workers = fun state chunk =>
        chunk.foldl
          (fun state record => state.apply (scanEvent env filters (terminalGroups records) record)) state := by
      funext state chunk
      rw [scanChunk, decodeScannedChunk_eq]
      exact congrArg Prod.fst (foldl_decoded_ahead scanDecoded_eq state 0 chunk)
    dsimp only
    rw [hchunk, foldl_chunks (hsize _ rfl), List.foldl_map]

/-! ## When the scan returns the rows of the replay -/

/-- A visible record with this row. -/
def PutsRow (env : CacheEnv) (records : List TransactionRecord) (record : TransactionRecord) (row : RowMap) : Prop :=
  Visible records record ∧ HoldsRow env.write.schema record row

/-- Among the visible records of an id, one that matches is followed by others that do not, and no delete of the
id is behind it. -/
def MatchOutdated (env : CacheEnv) (filters : EqualityFilters) (records : List TransactionRecord) (id : UInt64) :
    Prop :=
  ∃ pre record post, records = pre ++ record :: post ∧ record.id.val = id ∧
    (∃ row, PutsRow env records record row ∧ rowMatchesEqualityFilters env filters row = true) ∧
    (∀ d ∈ post, d.kind = .delete → d.refid = some ⟨id⟩ → ¬ Visible records d) ∧
    (∃ later ∈ post, later.id.val = id ∧ ∃ row, PutsRow env records later row) ∧
    ∀ later ∈ post, later.id.val = id → ∀ row, PutsRow env records later row →
      rowMatchesEqualityFilters env filters row = false

theorem recordEvent_put_iff {id : UInt64} {row : RowMap} :
    recordEvent env.write.schema (terminalGroups records) record = .put id row ↔
      record.id.val = id ∧ PutsRow env records record row := by
  rw [recordEvent_eq_put, decodeLiveRow_eq_some]
  refine and_congr_right fun _ => ?_
  constructor
  · rintro ⟨hvisible, hkind, hpayload⟩
    exact ⟨(recordVisibleForLiveRowApply_iff (by rintro h; simp [h] at hkind)
      (by rintro h; simp [h] at hkind)).mp hvisible, hkind, hpayload⟩
  · rintro ⟨hvisible, hkind, hpayload⟩
    exact ⟨(recordVisibleForLiveRowApply_iff (by rintro h; simp [h] at hkind)
      (by rintro h; simp [h] at hkind)).mpr hvisible, hkind, hpayload⟩

theorem recordEvent_del_iff {id : UInt64} : recordEvent env.write.schema (terminalGroups records) record = .del id ↔
      Visible records record ∧ record.kind = .delete ∧ record.refid = some ⟨id⟩ := by
  rw [recordEvent_eq_del]
  constructor
  · rintro ⟨hvisible, hkind, href⟩
    exact ⟨(recordVisibleForLiveRowApply_iff (by simp [hkind]) (by simp [hkind])).mp hvisible, hkind, href⟩
  · rintro ⟨hvisible, hkind, href⟩
    exact ⟨(recordVisibleForLiveRowApply_iff (by simp [hkind]) (by simp [hkind])).mpr hvisible, hkind, href⟩

theorem superseded_logEvents_iff {id : UInt64} :
    Superseded (rowMatchesEqualityFilters env filters) (logEvents env.write.schema records) id ↔
      MatchOutdated env filters records id := by
  have hput : ∀ {post : List TransactionRecord} {row : RowMap},
      LogEvent.put id row ∈ post.map (recordEvent env.write.schema (terminalGroups records)) ↔
        ∃ later ∈ post, later.id.val = id ∧ PutsRow env records later row := by
    intro post row
    simp only [List.mem_map, recordEvent_put_iff]
  have hdel : ∀ {post : List TransactionRecord},
      id ∈ deletedKeys (post.map (recordEvent env.write.schema (terminalGroups records))) ↔
        ∃ d ∈ post, Visible records d ∧ d.kind = .delete ∧ d.refid = some ⟨id⟩ := by
    intro post
    simp only [mem_deletedKeys, List.mem_map, recordEvent_del_iff]
  constructor
  · rintro ⟨pre, row, post, heq, hmatch, hnodel, hlater, hfails⟩
    obtain ⟨pre', rest, hrecords, rfl, hrest⟩ := List.map_eq_append_iff.mp heq
    obtain ⟨record, post', rfl, hrecord, rfl⟩ := List.map_eq_cons_iff.mp hrest
    obtain ⟨hid, hrow⟩ := recordEvent_put_iff.mp hrecord
    refine ⟨pre', record, post', hrecords, hid, ⟨row, hrow, hmatch⟩, ?_, ?_, ?_⟩
    · intro d hd hkind href hvisible
      exact hnodel (hdel.mpr ⟨d, hd, hvisible, hkind, href⟩)
    · obtain ⟨row', hmem⟩ := mem_putKeys.mp hlater
      obtain ⟨later, hmem, hid', hrow'⟩ := hput.mp hmem
      exact ⟨later, hmem, hid', row', hrow'⟩
    · intro later hmem hid' row' hrow'
      exact hfails row' (hput.mpr ⟨later, hmem, hid', hrow'⟩)
  · rintro ⟨pre, record, post, hrecords, hid, ⟨row, hrow, hmatch⟩, hnodel, ⟨later, hmem, hid', row', hrow'⟩, hfails⟩
    refine ⟨pre.map (recordEvent env.write.schema (terminalGroups records)), row,
      post.map (recordEvent env.write.schema (terminalGroups records)), ?_, hmatch, ?_, ?_, ?_⟩
    · rw [← recordEvent_put_iff.mpr ⟨hid, hrow⟩, ← List.map_cons, ← List.map_append, ← hrecords]
      rfl
    · rintro hkey
      obtain ⟨d, hd, hvisible, hkind, href⟩ := hdel.mp hkey
      exact hnodel d hd hkind href hvisible
    · exact mem_putKeys.mpr ⟨row', hput.mpr ⟨later, hmem, hid', hrow'⟩⟩
    · intro row'' hmem'
      obtain ⟨later', hmem', hid'', hrow''⟩ := hput.mp hmem'
      exact hfails later' hmem' hid'' row'' hrow''

section Sorted

variable (hsorted : records.Pairwise (·.key ≤ ·.key))
include hsorted

theorem pairwise_replayEvents {events : TransactionRecord → LogEvent UInt64 RowMap}
    (hevents : ∀ record id row, events record = .put id row → id = record.id.val) :
    (replayEvents (records.map events)).Pairwise (·.1.toNat < ·.1.toNat) := by
  have hids : (putKeys (records.map events)).Pairwise fun a b => a ≠ b → a.toNat < b.toNat := by
    refine List.Pairwise.sublist (putKeys_map_sublist hevents records) ?_
    refine List.pairwise_map.mpr (hsorted.imp fun {a b} hle hne => ?_)
    exact lt_of_le_of_ne hle fun heq => hne (UInt64.toNat_inj.mp heq)
  exact Replay.pairwise_finish hids

theorem pairwise_restricted (env : CacheEnv) (filters : EqualityFilters) :
    (replayEvents ((logEvents env.write.schema records).map
      (LogEvent.restrict (rowMatchesEqualityFilters env filters)))).Pairwise (·.1.toNat < ·.1.toNat) := by
  rw [logEvents, List.map_map]
  refine pairwise_replayEvents hsorted fun record id row hput => ?_
  exact (recordEvent_eq_put.mp (restrict_eq_put_iff.mp hput).1).1.symm

open scoped Classical in
theorem filter_liveRows_eq (env : CacheEnv) (filters : EqualityFilters) :
    (liveRows env.write records).filter (fun row => rowMatchesEqualityFilters env filters row.2) =
      (replayEvents ((logEvents env.write.schema records).map
        (LogEvent.restrict (rowMatchesEqualityFilters env filters)))).filter
          fun row => ¬ MatchOutdated env filters records row.1 := by
  have hlive : liveRows env.write records = replayEvents (logEvents env.write.schema records) :=
    collectLiveRowsFromRecords_eq_replay _
  have hpairs : (liveRows env.write records).Pairwise (·.1.toNat < ·.1.toNat) := by
    rw [hlive, logEvents]
    exact pairwise_replayEvents hsorted fun record id row hput => (recordEvent_eq_put.mp hput).1.symm
  refine (eq_iff_of_pairwise (hpairs.sublist List.filter_sublist)
    ((pairwise_restricted hsorted env filters).sublist List.filter_sublist)).mpr ?_
  rintro ⟨id, row⟩
  rw [List.mem_filter, List.mem_filter, decide_eq_true_iff, ← superseded_logEvents_iff, hlive]
  exact (and_congr_left fun _ => Replay.mem_finish_iff).trans
    (held_and_iff_restrict.trans (and_congr_left fun _ => Replay.mem_finish_iff.symm))

/-- The scan returns the matching rows of the replay exactly if there is a filter to look for, and the limit is
filled before the first id whose matching row is outdated. -/
theorem direct_scan_rows_iff (env : CacheEnv) (filters : EqualityFilters) (chunking : Option (Nat × Nat))
    (hsize : ∀ plan ∈ chunking, 0 < plan.1) (rowLimit : Option Nat) :
    applyRowLimitIfAny (scanLoadedRecords env filters chunking records) rowLimit =
        applyRowLimitIfAny ((liveRows env.write records).filter fun row =>
          rowMatchesEqualityFilters env filters row.2) rowLimit ↔
      (filters = [] → liveRows env.write records = [] ∨ rowLimit = some 0) ∧
      ∀ id, MatchOutdated env filters records id → ∃ limit, rowLimit = some limit ∧
        limit ≤ (((liveRows env.write records).filter fun row =>
          rowMatchesEqualityFilters env filters row.2).filter fun row => row.1.toNat < id.toNat).length := by
  classical
  by_cases hfilters : filters = []
  · have hall : ∀ row, rowMatchesEqualityFilters env filters row = true := fun row => by
      simp [hfilters, rowMatchesEqualityFilters]
    have hcurrent : ∀ id, ¬ MatchOutdated env filters records id := by
      rintro id ⟨pre, record, post, -, -, -, -, ⟨later, hmem, hid, row, hrow⟩, hfails⟩
      have hfalse := hfails later hmem hid row hrow
      rw [hall row] at hfalse
      cases hfalse
    rw [and_iff_left fun id h => absurd h (hcurrent id), imp_iff_right hfilters,
      List.filter_eq_self.mpr fun row _ => hall row.2]
    have hscan : scanLoadedRecords env filters chunking records = [] := if_pos hfilters
    rw [hscan]
    cases rowLimit with
    | none =>
      simp only [applyRowLimitIfAny, reduceCtorEq, or_false]
      exact eq_comm
    | some limit =>
      simp only [applyRowLimitIfAny, List.take_nil, Option.some.injEq]
      rw [eq_comm, List.take_eq_nil_iff]
      exact or_comm
  · rw [and_iff_right fun h => absurd h hfilters, scanLoadedRecords_eq hfilters hsize, filter_liveRows_eq hsorted]
    have hids : ∀ id, MatchOutdated env filters records id → ∃ row, (id, row) ∈ replayEvents
        ((logEvents env.write.schema records).map (LogEvent.restrict (rowMatchesEqualityFilters env filters))) := by
      intro id hid
      obtain ⟨⟨row, hheld⟩, -⟩ := superseded_iff.mp (superseded_logEvents_iff.mpr hid)
      exact ⟨row, Replay.mem_finish_iff.mpr hheld⟩
    have hpairs := pairwise_restricted hsorted env filters
    generalize replayEvents ((logEvents env.write.schema records).map
      (LogEvent.restrict (rowMatchesEqualityFilters env filters))) = rows at hids hpairs ⊢
    cases rowLimit with
    | none =>
      simp only [applyRowLimitIfAny, reduceCtorEq, false_and, exists_false]
      rw [eq_comm, List.filter_eq_self]
      constructor
      · intro hall id hid
        obtain ⟨row, hrow⟩ := hids id hid
        exact of_decide_eq_true (hall _ hrow) hid
      · intro hnone row _
        exact decide_eq_true (hnone row.1)
    | some limit =>
      simp only [applyRowLimitIfAny, Option.some.injEq, exists_eq_left']
      rw [eq_comm, take_filter_eq_take_iff_count hpairs]
      constructor
      · intro hall id hid
        obtain ⟨row, hrow⟩ := hids id hid
        exact hall _ hrow (by simpa using hid)
      · intro hlimit row _ hfails
        exact hlimit row.1 (by simpa using hfails)

end Sorted

def writtenTwice : List TransactionRecord :=
  [rowRecord 5 .insert none none [some [97], some [1]], rowRecord 5 .update none none [some [98], some [2]]]

theorem writtenTwice_current_value : applyRowLimitIfAny
      (scanLoadedRecords keyedCacheEnv [("k", [98])] (some (1, 2)) writtenTwice) (some 3) =
    applyRowLimitIfAny ((liveRows keyedEnv writtenTwice).filter fun row =>
      rowMatchesEqualityFilters keyedCacheEnv [("k", [98])] row.2) (some 3) := by
  refine (direct_scan_rows_iff (by decide) keyedCacheEnv _ (some (1, 2)) (by simp) (some 3)).mpr ⟨by simp, ?_⟩
  rintro id ⟨pre, record, post, heq, -, -, -, ⟨later, hmem, hid, row, hrow⟩, hfails⟩
  -- only the second record has one before it, and its row matches
  obtain ⟨rfl, hpost⟩ : pre = [] ∧ post = [rowRecord 5 .update none none [some [98], some [2]]] := by
    rcases pre with - | ⟨first, - | ⟨second, pre⟩⟩
    · exact ⟨rfl, (List.cons.inj heq).2.symm⟩
    · obtain ⟨-, -, rfl⟩ := List.cons.inj (List.cons.inj heq).2
      cases hmem
    · simp [writtenTwice] at heq
  subst hpost
  obtain rfl := List.mem_singleton.mp hmem
  have hvalue : row = keyedRow [98] [2] := by
    obtain ⟨-, -, payload, hpayload, hdecode⟩ := hrow
    cases hpayload
    exact Except.ok.inj (hdecode.symm.trans (by decide +kernel))
  have hmatch : rowMatchesEqualityFilters keyedCacheEnv [("k", [98])] row = false := hfails _ hmem hid row hrow
  rw [hvalue] at hmatch
  exact absurd hmatch (by decide +kernel)

/-- The value that was replaced is still found. -/
theorem replaced_value_found :
    writtenTwice.Pairwise (·.key ≤ ·.key) ∧
      scanLoadedRecords keyedCacheEnv [("k", [97])] none writtenTwice = [(5, keyedRow [97] [1])] ∧
      (liveRows keyedEnv writtenTwice).filter (fun row =>
        rowMatchesEqualityFilters keyedCacheEnv [("k", [97])] row.2) = [] := by
  decide +kernel

end DistDb.Cache
