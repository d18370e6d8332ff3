import DistDb.Execution.Lemmas.LiveRows

/-! # Replay of a table's log -/

namespace DistDb.Execution
open Lib

variable {schema : TableSchema} {records : List TransactionRecord}

theorem mem_live_logEvents {id : UInt64} {row : RowMap} :
    (id, row) ∈ live (logEvents schema records) ↔ ∃ pre record post, records = pre ++ record :: post ∧
        recordEvent schema (terminalGroups records) record = .put id row ∧
        ∀ d ∈ post, recordEvent schema (terminalGroups records) d ≠ .del id := by
  rw [mem_live, logEvents]
  generalize recordEvent schema (terminalGroups records) = event
  constructor
  · rintro ⟨pre, post, heq, hnot⟩
    obtain ⟨pre', rest, rfl, rfl, hrest⟩ := List.map_eq_append_iff.mp heq
    obtain ⟨record, post', rfl, hrecord, rfl⟩ := List.map_eq_cons_iff.mp hrest
    refine ⟨pre', record, post', rfl, hrecord, fun d hd hdel => hnot ?_⟩
    rw [mem_deletedKeys]
    exact List.mem_map.mpr ⟨d, hd, hdel⟩
  · rintro ⟨pre, record, post, rfl, hrecord, hpost⟩
    refine ⟨pre.map event, post.map event, ?_, fun hdel => ?_⟩
    · rw [List.map_append, List.map_cons, hrecord]
    · obtain ⟨d, hd, heq⟩ := List.mem_map.mp (mem_deletedKeys.mp hdel)
      exact hpost d hd heq

/-- The rows that replay returns are those of the visible insert and update records that decode and
that no visible delete behind them refers to. No row is returned twice, and the path that decodes in
chunks returns the same rows for every size of the chunks and every number of workers. -/
theorem collectLiveRowsFromRecords_spec (schema : TableSchema) (hids : (records.map (·.id)).Nodup)
    (applyWorkers : Nat) :
    (∀ id row, (id, row) ∈ collectLiveRowsFromRecords schema records applyWorkers ↔
      ∃ pre record post, records = pre ++ record :: post ∧ record.id.val = id ∧
        (record.kind = .insert ∨ record.kind = .update) ∧ Visible records record ∧
        (∃ payload, record.payload = some payload ∧ decodeRowPayload schema payload = .ok row) ∧
        ∀ d ∈ post, d.kind = .delete → Visible records d → d.refid ≠ some record.id) ∧
    ((collectLiveRowsFromRecords schema records applyWorkers).map Prod.fst).Nodup ∧
    ∀ chunkSize workers, 0 < chunkSize →
      collectLiveRowsInChunks schema records chunkSize workers =
        collectLiveRowsFromRecords schema records applyWorkers := by
  rw [collectLiveRowsFromRecords_eq_replay, replayEvents_logEvents hids]
  refine ⟨fun id row => ?_, ?_, fun chunkSize workers hsize => ?_⟩
  · rw [mem_live_logEvents]
    refine exists_congr fun pre => exists_congr fun record => exists_congr fun post =>
      and_congr_right fun _ => ?_
    rw [recordEvent_eq_put, decodeLiveRow_eq_some, and_assoc]
    refine and_congr_right fun hid => ?_
    subst hid
    rw [and_left_comm, and_assoc, and_assoc]
    refine and_congr_right fun hkind => and_congr ?_ (and_congr_right fun _ => ?_)
    · rcases hkind with hkind | hkind <;>
        exact recordVisibleForLiveRowApply_iff (by simp [hkind]) (by simp [hkind])
    · refine forall₂_congr fun d _ => ?_
      rw [Ne, recordEvent_eq_del]
      constructor
      · intro hnot hdelete hvisible href
        exact hnot ⟨(recordVisibleForLiveRowApply_iff (by simp [hdelete]) (by simp [hdelete])).mpr
          hvisible, hdelete, href⟩
      · rintro hkeep ⟨hvisible, hdelete, href⟩
        exact hkeep hdelete ((recordVisibleForLiveRowApply_iff (by simp [hdelete])
          (by simp [hdelete])).mp hvisible) href
  · exact (map_fst_live_sublist _).nodup (putKeys_logEvents_nodup hids)
  · rw [collectLiveRowsInChunks_eq_replay hsize, replayEvents_logEvents hids]

def nameSchema : TableSchema := ⟨[⟨1, "name", .text, true, .none, none, none⟩]⟩

def nameRow (value : Bytes) : RowMap := (∅ : RowMap).insert "name" value

def rowRecord (id : UInt64) (kind : TransactionKind) (groupid refid : Option TransactionId)
    (row : OrdinalRowPayload) : TransactionRecord :=
  ⟨⟨id⟩, groupid, refid, 0, ⟨"user"⟩, kind, some (OrdinalRowPayload.codec.encode row)⟩

def markerRecord (id : UInt64) (kind : TransactionKind) (groupid : TransactionId) :
    TransactionRecord :=
  ⟨⟨id⟩, some groupid, none, 0, ⟨"user"⟩, kind, none⟩

/-- A row whose group is committed behind it, next to a row that is deleted. -/
theorem collectLiveRowsFromRecords_spec_grouped :
    (1, nameRow [97]) ∈ collectLiveRowsFromRecords nameSchema
      [rowRecord 1 .insert (some ⟨9⟩) none [some [97]], rowRecord 2 .insert none none [some [98]],
        rowRecord 3 .delete none (some ⟨2⟩) [], markerRecord 4 .writeCommit ⟨9⟩] 1 :=
  ((collectLiveRowsFromRecords_spec nameSchema (by decide) 1).1 1 _).mpr
    ⟨[], _, _, rfl, rfl, .inl rfl, by decide, ⟨_, rfl, by decide⟩, by decide⟩

end DistDb.Execution
