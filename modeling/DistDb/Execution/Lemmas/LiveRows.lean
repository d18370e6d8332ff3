import DistDb.Execution.LiveRows

/-! # Replay as a log of puts and deletes -/

namespace DistDb.Execution
open Lib

variable {schema : TableSchema} {groups : TerminalGroups} {record : TransactionRecord}
  {records : List TransactionRecord}

/-! ## Terminal groups and visibility -/

theorem mem_foldl_note (records : List TransactionRecord) (groups : TerminalGroups) (g : UInt64) :
    (g ∈ (records.foldl TerminalGroups.note groups).committed ↔
        g ∈ groups.committed ∨ ∃ r ∈ records, r.kind = .writeCommit ∧ r.groupid = some ⟨g⟩) ∧
      (g ∈ (records.foldl TerminalGroups.note groups).aborted ↔
        g ∈ groups.aborted ∨ ∃ r ∈ records, r.kind = .writeAbort ∧ r.groupid = some ⟨g⟩) := by
  induction records generalizing groups with
  | nil => simp
  | cons record records ih =>
    have hstep : (g ∈ (groups.note record).committed ↔
          g ∈ groups.committed ∨ record.kind = .writeCommit ∧ record.groupid = some ⟨g⟩) ∧
        (g ∈ (groups.note record).aborted ↔
          g ∈ groups.aborted ∨ record.kind = .writeAbort ∧ record.groupid = some ⟨g⟩) := by
      unfold TerminalGroups.note
      cases hg : record.groupid with
      | none => cases hk : record.kind <;> simp
      | some groupId =>
        have heq : (groupId = ⟨g⟩) ↔ g = groupId.val :=
          ⟨fun h => by rw [h], fun h => by rw [h]⟩
        cases hk : record.kind <;> simp [heq, or_comm]
    obtain ⟨hcommitted, haborted⟩ := ih (groups.note record)
    simp only [List.foldl_cons, List.exists_mem_cons_iff]
    rw [hcommitted, haborted, hstep.1, hstep.2, or_assoc, or_assoc]
    exact ⟨Iff.rfl, Iff.rfl⟩

theorem mem_committed {g : UInt64} : g ∈ (terminalGroups records).committed ↔
    ∃ r ∈ records, r.kind = .writeCommit ∧ r.groupid = some ⟨g⟩ := by
  simpa [terminalGroups] using (mem_foldl_note records ⟨∅, ∅⟩ g).1

theorem mem_aborted {g : UInt64} : g ∈ (terminalGroups records).aborted ↔
    ∃ r ∈ records, r.kind = .writeAbort ∧ r.groupid = some ⟨g⟩ := by
  simpa [terminalGroups] using (mem_foldl_note records ⟨∅, ∅⟩ g).2

theorem terminalGroups_append {log : List TransactionRecord}
    (h : ∀ r ∈ records, r.kind ≠ .writeCommit ∧ r.kind ≠ .writeAbort) :
    terminalGroups (log ++ records) = terminalGroups log := by
  unfold terminalGroups
  rw [List.foldl_append]
  generalize log.foldl TerminalGroups.note ⟨∅, ∅⟩ = groups
  induction records generalizing groups with
  | nil => rfl
  | cons record records ih =>
    have hnote : groups.note record = groups := by
      obtain ⟨hcommit, habort⟩ := h record (List.mem_cons_self ..)
      unfold TerminalGroups.note
      split
      · rename_i heq _
        exact absurd heq hcommit
      · rename_i heq _
        exact absurd heq habort
      · rfl
    rw [List.foldl_cons, hnote]
    exact ih (fun r hr => h r (List.mem_cons_of_mem _ hr)) groups

/-- A record counts unless it belongs to a group that was not committed or was aborted. -/
def Visible (records : List TransactionRecord) (record : TransactionRecord) : Prop :=
  ∀ g ∈ record.groupid,
    (∃ c ∈ records, c.kind = .writeCommit ∧ c.groupid = some g) ∧
      ¬ ∃ a ∈ records, a.kind = .writeAbort ∧ a.groupid = some g

instance : Decidable (Visible records record) :=
  inferInstanceAs (Decidable (∀ g ∈ record.groupid,
    (∃ c ∈ records, c.kind = .writeCommit ∧ c.groupid = some g) ∧
      ¬ ∃ a ∈ records, a.kind = .writeAbort ∧ a.groupid = some g))

theorem recordVisibleForLiveRowApply_iff (hcommit : record.kind ≠ .writeCommit) (habort : record.kind ≠ .writeAbort) :
    recordVisibleForLiveRowApply record (terminalGroups records) = true ↔ Visible records record := by
  unfold recordVisibleForLiveRowApply Visible
  cases hg : record.groupid with
  | none => simp
  | some groupId =>
    simp only [Option.mem_def, Option.some.injEq, forall_eq', ← mem_committed, ← mem_aborted]
    by_cases ha : groupId.val ∈ (terminalGroups records).aborted
    · simp [ha]
    · by_cases hc : groupId.val ∈ (terminalGroups records).committed
      · simp [ha, hc]
      · simp [ha, hc, hcommit, habort]

/-! ## Records as events -/

def recordEvent (schema : TableSchema) (groups : TerminalGroups) (record : TransactionRecord) :
    LogEvent UInt64 RowMap :=
  match decodeLiveRow schema groups record with
  | some row => .put record.id.val row
  | none =>
    if recordVisibleForLiveRowApply record groups = true ∧ record.kind = .delete then
      match record.refid with
      | some refid => .del refid.val
      | none => .skip
    else .skip

def logEvents (schema : TableSchema) (records : List TransactionRecord) :
    List (LogEvent UInt64 RowMap) :=
  records.map (recordEvent schema (terminalGroups records))

theorem decodeLiveRow_eq_some {row : RowMap} : decodeLiveRow schema groups record = some row ↔
    recordVisibleForLiveRowApply record groups = true ∧ (record.kind = .insert ∨ record.kind = .update) ∧
      ∃ payload, record.payload = some payload ∧ decodeRowPayload schema payload = .ok row := by
  unfold decodeLiveRow
  split
  · rename_i hrow
    rw [and_iff_right hrow.1, and_iff_right hrow.2]
    cases record.payload with
    | none => simp
    | some payload => cases hdecode : decodeRowPayload schema payload <;> simp [hdecode]
  · rename_i hrow
    simp only [reduceCtorEq, false_iff]
    rintro ⟨hvisible, hkind, -⟩
    exact hrow ⟨hvisible, hkind⟩

theorem recordEvent_eq_put {key : UInt64} {row : RowMap} : recordEvent schema groups record = .put key row ↔
      record.id.val = key ∧ decodeLiveRow schema groups record = some row := by
  unfold recordEvent
  cases decodeLiveRow schema groups record with
  | some row' => simp
  | none =>
    simp only [reduceCtorEq, and_false, iff_false]
    split
    · cases record.refid <;> simp
    · simp

theorem recordEvent_eq_del {key : UInt64} : recordEvent schema groups record = .del key ↔
      recordVisibleForLiveRowApply record groups = true ∧ record.kind = .delete ∧ record.refid = some ⟨key⟩ := by
  unfold recordEvent
  cases hrow : decodeLiveRow schema groups record with
  | some row =>
    simp only [reduceCtorEq, false_iff]
    rintro ⟨-, hdelete, -⟩
    obtain ⟨-, hkind, -⟩ := decodeLiveRow_eq_some.mp hrow
    simp [hdelete] at hkind
  | none =>
    simp only
    split
    · rename_i hdelete
      rw [and_iff_right hdelete.1, and_iff_right hdelete.2]
      cases record.refid with
      | none => simp
      | some refid =>
        simp only [LogEvent.del.injEq, Option.some.injEq]
        exact ⟨fun h => by rw [← h], fun h => by rw [h]⟩
    · rename_i hnot
      simp only [reduceCtorEq, false_iff]
      rintro ⟨hvisible, hkind, -⟩
      exact hnot ⟨hvisible, hkind⟩

theorem applyRecord_eq (state : LiveRowState) :
    applyRecord schema groups state record = state.apply (recordEvent schema groups record) := by
  unfold applyRecord recordEvent decodeLiveRow
  by_cases hvisible : recordVisibleForLiveRowApply record groups = true
  · cases hkind : record.kind with
    | insert | update =>
      simp only [hvisible, ↓reduceIte, true_and, or_true, true_or]
      cases record.payload with
      | none => simp [Replay.apply]
      | some payload => cases hdecode : decodeRowPayload schema payload <;> simp [hdecode, Replay.apply]
    | delete =>
      simp only [hvisible]
      cases record.refid <;> simp [Replay.apply]
    | _ => simp [hvisible, Replay.apply]
  · simp [hvisible, Replay.apply]

theorem putKeys_map_recordEvent_sublist (records : List TransactionRecord) :
    (putKeys (records.map (recordEvent schema groups))).Sublist (records.map (·.id.val)) :=
  putKeys_map_sublist (fun _ _ _ hevent => (recordEvent_eq_put.mp hevent).1.symm) records

theorem nodup_map_val (hids : (records.map (·.id)).Nodup) : (records.map (·.id.val)).Nodup := by
  have hinj : Function.Injective TransactionId.val := fun a b h => by
    cases a
    cases b
    exact congrArg TransactionId.mk h
  simpa [Function.comp_def] using hids.map hinj

theorem putKeys_logEvents_nodup (hids : (records.map (·.id)).Nodup) : (putKeys (logEvents schema records)).Nodup :=
  (putKeys_map_recordEvent_sublist records).nodup (nodup_map_val hids)

/-! ## The chunked path -/

theorem decodeLiveRowChunk_eq (workers : Nat) (chunk : List TransactionRecord) :
    decodeLiveRowChunk schema groups workers chunk = decodeLiveRowsAt schema groups chunk.zipIdx := by
  unfold decodeLiveRowChunk
  split
  · rfl
  · rename_i hworkers
    exact filterMap_workerSlices (fun hle => hworkers (.inl hle)) _ chunk

theorem applyDecoded_eq (state : LiveRowState) (record : TransactionRecord) (k : Nat) (decoded : List (Nat × RowMap))
    (hlater : ∀ entry ∈ decoded, entry.1 ≠ k) :
    applyDecoded groups (state, ((decodeLiveRow schema groups record).map (k, ·)).toList ++ decoded) (record, k) =
      (applyRecord schema groups state record, decoded) := by
  rw [applyRecord_eq]
  cases hrow : decodeLiveRow schema groups record with
  | some row =>
    obtain ⟨-, hkind, -⟩ := decodeLiveRow_eq_some.mp hrow
    rcases hkind with hkind | hkind <;>
      simp [applyDecoded, recordEvent, hkind, hrow, Replay.apply]
  | none =>
    cases hkind : record.kind with
    | insert | update =>
      cases decoded with
      | nil => simp [applyDecoded, recordEvent, hkind, hrow, Replay.apply]
      | cons entry rest =>
        simp [applyDecoded, recordEvent, hkind, hrow, Replay.apply, hlater entry List.mem_cons_self]
    | delete =>
      by_cases hvisible : recordVisibleForLiveRowApply record groups = true
      · cases href : record.refid <;>
          simp [applyDecoded, recordEvent, hkind, hrow, hvisible, href, Replay.apply]
      · simp [applyDecoded, recordEvent, hkind, hrow, hvisible, Replay.apply]
    | _ => simp [applyDecoded, recordEvent, hkind, hrow, Replay.apply]

theorem applyChunk_eq (workers : Nat) (state : LiveRowState) (chunk : List TransactionRecord) :
    applyChunk schema groups workers state chunk = chunk.foldl (applyRecord schema groups) state := by
  rw [applyChunk, decodeLiveRowChunk_eq]
  exact congrArg Prod.fst (foldl_decoded_ahead applyDecoded_eq state 0 chunk)

theorem foldl_applyRecord (records : List TransactionRecord) : records.foldl (applyRecord schema groups) Replay.empty =
      (records.map (recordEvent schema groups)).foldl Replay.apply Replay.empty := by
  rw [List.foldl_map]
  exact List.foldl_ext _ _ _ fun state record _ => applyRecord_eq state

def replayEvents (events : List (LogEvent UInt64 RowMap)) : List (UInt64 × RowMap) :=
  (events.foldl Replay.apply Replay.empty).finish

theorem collectLiveRowsInChunks_eq_replay {chunkSize : Nat} (hsize : 0 < chunkSize) (workers : Nat) :
    collectLiveRowsInChunks schema records chunkSize workers = replayEvents (logEvents schema records) := by
  have hchunk : applyChunk schema (terminalGroups records) workers = fun state chunk =>
      chunk.foldl (applyRecord schema (terminalGroups records)) state := by
    funext state chunk
    exact applyChunk_eq workers state chunk
  rw [collectLiveRowsInChunks, hchunk, foldl_chunks hsize, foldl_applyRecord]
  rfl

theorem collectLiveRowsFromRecords_eq_replay (applyWorkers : Nat) :
    collectLiveRowsFromRecords schema records applyWorkers = replayEvents (logEvents schema records) := by
  unfold collectLiveRowsFromRecords
  split
  · exact collectLiveRowsInChunks_eq_replay (by decide) applyWorkers
  · rw [foldl_applyRecord]
    rfl

theorem replayEvents_logEvents (hids : (records.map (·.id)).Nodup) :
    replayEvents (logEvents schema records) = live (logEvents schema records) :=
  Replay.finish_foldl_apply (putKeys_logEvents_nodup hids)

end DistDb.Execution
