import DistDb.Execution.Theorems
import DistDb.Group.Terminal

/-! # Atomicity of write groups -/

namespace DistDb.Group
open Lib Wal Execution

variable {schema : TableSchema} {groupId : TransactionId} {log log' : List TransactionRecord}
  {stored : StoredStreams} {streamIds : List String}

/-! ## Markers added to a stream -/

def Marked (groupId : TransactionId) (log log' : List TransactionRecord) (committed aborted : Bool) :
    Prop :=
  ∃ markers, log' = log ++ markers ∧
    (∀ m ∈ markers, m.groupid = some groupId ∧ (m.kind = .writeCommit ∨ m.kind = .writeAbort)) ∧
    ((∃ m ∈ markers, m.kind = .writeCommit) ↔ committed = true) ∧
    ((∃ m ∈ markers, m.kind = .writeAbort) ↔ aborted = true)

theorem Marked.refl (groupId : TransactionId) (log : List TransactionRecord) : Marked groupId log log false false :=
  ⟨[], by simp, by simp, by simp, by simp⟩

theorem Marked.trans {log'' : List TransactionRecord} {c a c' a' : Bool} (h : Marked groupId log log' c a)
    (h' : Marked groupId log' log'' c' a') : Marked groupId log log'' (c || c') (a || a') := by
  obtain ⟨markers, rfl, hmarkers, hc, ha⟩ := h
  obtain ⟨markers', rfl, hmarkers', hc', ha'⟩ := h'
  refine ⟨markers ++ markers', List.append_assoc .., fun m hm => ?_, ?_, ?_⟩
  · rcases List.mem_append.mp hm with hm | hm
    · exact hmarkers m hm
    · exact hmarkers' m hm
  · simp only [List.mem_append, or_and_right, exists_or, hc, hc', Bool.or_eq_true]
  · simp only [List.mem_append, or_and_right, exists_or, ha, ha', Bool.or_eq_true]

def isTerminal (kind : TransactionKind) : Bool := kind = .writeCommit || kind = .writeAbort

theorem marked_mark {kind : TransactionKind} (hterminal : isTerminal kind = true) (groupId : TransactionId)
    (stored : StoredStreams) (io : MarkerIo) (replayer : Replayer) (streamId target : String) :
    Marked groupId (stored.seenBy replayer target) ((stored.mark kind groupId io streamId).seenBy replayer target)
      (target == streamId && io.reaches replayer && decide (kind = .writeCommit))
      (target == streamId && io.reaches replayer && decide (kind = .writeAbort)) := by
  -- both logs get the same record, each if it is reached
  have happend : ∀ streams : Streams, Marked groupId (streams target)
      ((if io.reaches replayer then streams.append streamId
        (terminalRecord (stored.memory streamId) kind groupId io.timestampEpochMs) else streams) target)
      (target == streamId && io.reaches replayer && decide (kind = .writeCommit))
      (target == streamId && io.reaches replayer && decide (kind = .writeAbort)) := by
    intro streams
    by_cases hreached : io.reaches replayer = true ∧ target = streamId
    · obtain ⟨hreached, rfl⟩ := hreached
      rw [if_pos hreached, Streams.append, Function.update_self]
      refine ⟨[_], rfl, ?_, ?_, ?_⟩
      · simpa [terminalRecord, payloadRecord, isTerminal] using hterminal
      · simp [terminalRecord, payloadRecord, hreached]
      · simp [terminalRecord, payloadRecord, hreached]
    · have hsame : (if io.reaches replayer then streams.append streamId
          (terminalRecord (stored.memory streamId) kind groupId io.timestampEpochMs) else streams) target =
          streams target := by
        split
        · exact Function.update_of_ne (fun heq => hreached ⟨‹_›, heq⟩) _ _
        · rfl
      have hnone : (target == streamId && io.reaches replayer) = false := by
        rw [Bool.eq_false_iff, ne_eq, Bool.and_eq_true, beq_iff_eq]
        exact fun h => hreached ⟨h.2, h.1⟩
      rw [hsame, hnone]
      exact .refl ..
  cases replayer with
  | process => exact happend stored.memory
  | restart => exact happend stored.files

theorem markStreams_marked (kind : TransactionKind) (hterminal : isTerminal kind = true) (endsAtFailure : Bool)
    (groupId : TransactionId) (io : String → MarkerIo) (replayer : Replayer) (streamIds : List String)
    (stored : StoredStreams) (target : String) :
    Marked groupId (stored.seenBy replayer target)
      ((markStreams kind endsAtFailure io groupId streamIds stored).1.seenBy replayer target)
      (markerReaches endsAtFailure io replayer streamIds target && decide (kind = .writeCommit))
      (markerReaches endsAtFailure io replayer streamIds target && decide (kind = .writeAbort)) := by
  induction streamIds generalizing stored with
  | nil => exact .refl ..
  | cons streamId streamIds ih =>
    have hmark := marked_mark hterminal groupId stored (io streamId) replayer streamId target
    have hrest := hmark.trans (ih (stored.mark kind groupId (io streamId) streamId))
    simp only [← Bool.and_or_distrib_right] at hrest
    simp only [markStreams, markerReaches]
    cases (io streamId).outcome with
    | stored => simpa [goesOn] using hrest
    | failed error => cases endsAtFailure with
      | true => simpa [goesOn] using hmark
      | false => simpa [goesOn] using hrest
    | crashed => simpa [goesOn] using hmark

theorem commitExternalWriteGroup_fails_iff (groupId : TransactionId) (io : String → MarkerIo)
    (streamIds : List String) (stored : StoredStreams) :
    (∃ error, (commitExternalWriteGroup io groupId streamIds stored).2 = .returned (.error error)) ↔
      commitFails io streamIds = true := by
  unfold commitExternalWriteGroup
  induction streamIds generalizing stored with
  | nil => simp [markStreams, commitFails]
  | cons streamId streamIds ih =>
    simp only [markStreams, commitFails]
    cases (io streamId).outcome with
    | stored => exact ih _
    | failed error => simp
    | crashed => simp

theorem finishWriteGroup_marked (groupId : TransactionId) (io : GroupIo) (replayer : Replayer) (streamIds : List String)
    (stored : StoredStreams) (target : String) :
    Marked groupId (stored.seenBy replayer target)
      ((finishWriteGroup io groupId streamIds stored).seenBy replayer target)
      (markerReaches true io.commit replayer streamIds target)
      (commitFails io.commit streamIds &&
        io.abort.any fun abortIo => markerReaches false abortIo replayer streamIds target) := by
  have hcommit := markStreams_marked .writeCommit rfl true groupId io.commit replayer streamIds stored target
  have hfails := commitExternalWriteGroup_fails_iff groupId io.commit streamIds stored
  unfold finishWriteGroup
  rcases hresult : commitExternalWriteGroup io.commit groupId streamIds stored with ⟨after, ending⟩
  rw [← commitExternalWriteGroup, hresult] at hcommit
  rw [hresult] at hfails
  cases ending with
  | returned result =>
    cases result with
    | ok value =>
      have hnot : commitFails io.commit streamIds = false := by simpa using hfails
      simpa [hnot] using hcommit
    | error e =>
      have hfail : commitFails io.commit streamIds = true := by simpa using hfails
      cases io.abort with
      | none => simpa [hfail] using hcommit
      | some abortIo =>
        simpa [hfail, abortExternalWriteGroup] using hcommit.trans
          (markStreams_marked .writeAbort rfl false groupId abortIo replayer streamIds after target)
  | crashed =>
    have hnot : commitFails io.commit streamIds = false := by simpa using hfails
    simpa [hnot] using hcommit

/-! ## What replay makes of them -/

def ungroup (groupId : TransactionId) (record : TransactionRecord) : TransactionRecord :=
  if record.groupid = some groupId then { record with groupid := none } else record

def countGroup (groupId : TransactionId) (log : List TransactionRecord) : List TransactionRecord :=
  log.map (ungroup groupId)

def dropGroup (groupId : TransactionId) (log : List TransactionRecord) : List TransactionRecord :=
  log.filter fun record => record.groupid ≠ some groupId

/-- The group is neither committed nor aborted. -/
def Open (groupId : TransactionId) (log : List TransactionRecord) : Prop :=
  ∀ record ∈ log, record.groupid = some groupId →
    record.kind ≠ .writeCommit ∧ record.kind ≠ .writeAbort

def EndsOthersAlike (groupId : TransactionId) (log log' : List TransactionRecord) : Prop :=
  ∀ kind other, other ≠ groupId →
    ((∃ m ∈ log', m.kind = kind ∧ m.groupid = some other) ↔
      ∃ m ∈ log, m.kind = kind ∧ m.groupid = some other)

theorem Marked.endsOthersAlike {c a : Bool} (h : Marked groupId log log' c a) : EndsOthersAlike groupId log log' := by
  obtain ⟨markers, rfl, hmarkers, -, -⟩ := h
  intro kind other hne
  simp only [List.mem_append, or_and_right, exists_or, or_iff_left_iff_imp]
  rintro ⟨m, hm, -, hgroup⟩
  rw [(hmarkers m hm).1] at hgroup
  exact absurd (Option.some.inj hgroup).symm hne

theorem countGroup_endsOthersAlike (groupId : TransactionId) (log : List TransactionRecord) :
    EndsOthersAlike groupId log (countGroup groupId log) := by
  intro kind other hne
  simp only [countGroup, List.mem_map]
  constructor
  · rintro ⟨_, ⟨m, hm, rfl⟩, hkind, hgroup⟩
    by_cases h : m.groupid = some groupId
    · simp [ungroup, h] at hgroup
    · exact ⟨m, hm, by simpa [ungroup, h] using hkind, by simpa [ungroup, h] using hgroup⟩
  · rintro ⟨m, hm, hkind, hgroup⟩
    have h : m.groupid ≠ some groupId := by
      rw [hgroup]
      exact fun heq => hne (Option.some.inj heq)
    exact ⟨_, ⟨m, hm, rfl⟩, by simpa [ungroup, h] using hkind, by simpa [ungroup, h] using hgroup⟩

theorem dropGroup_endsOthersAlike (groupId : TransactionId) (log : List TransactionRecord) :
    EndsOthersAlike groupId log (dropGroup groupId log) := by
  intro kind other hne
  simp only [dropGroup, List.mem_filter, decide_eq_true_eq]
  refine exists_congr fun m => ⟨fun ⟨hm, h⟩ => ⟨hm.1, h⟩, fun ⟨hm, hkind, hgroup⟩ => ⟨⟨hm, ?_⟩, hkind, hgroup⟩⟩
  rw [hgroup]
  exact fun heq => hne (Option.some.inj heq)

theorem EndsOthersAlike.visible_iff (h : EndsOthersAlike groupId log log') {record : TransactionRecord}
    (hother : record.groupid ≠ some groupId) : Visible log' record ↔ Visible log record := by
  refine forall₂_congr fun other hgroup => ?_
  have hne : other ≠ groupId := by
    rintro rfl
    exact hother hgroup
  rw [h .writeCommit other hne, h .writeAbort other hne]

theorem recordEvent_of_terminal (groups : TerminalGroups) (record : TransactionRecord)
    (h : record.kind = .writeCommit ∨ record.kind = .writeAbort) :
    recordEvent schema groups record = .skip := by
  rcases h with h | h <;> simp [recordEvent, decodeLiveRow, h]

theorem recordEvent_congr {record : TransactionRecord} (groupid : Option TransactionId)
    (h : record.kind ≠ .writeCommit → record.kind ≠ .writeAbort →
      (Visible log record ↔ Visible log' { record with groupid := groupid })) :
    recordEvent schema (terminalGroups log) record =
      recordEvent schema (terminalGroups log') { record with groupid := groupid } := by
  by_cases hterminal : record.kind = .writeCommit ∨ record.kind = .writeAbort
  · rw [recordEvent_of_terminal _ record hterminal,
      recordEvent_of_terminal _ { record with groupid := groupid } hterminal]
  · obtain ⟨hcommit, habort⟩ := not_or.mp hterminal
    have hvisible : recordVisibleForLiveRowApply record (terminalGroups log) =
        recordVisibleForLiveRowApply { record with groupid := groupid } (terminalGroups log') := by
      rw [Bool.eq_iff_iff, recordVisibleForLiveRowApply_iff hcommit habort, h hcommit habort]
      exact Iff.symm (recordVisibleForLiveRowApply_iff (by exact hcommit) (by exact habort))
    simp only [recordEvent, decodeLiveRow, hvisible]

theorem recordEvent_of_not_visible {record : TransactionRecord} (hcommit : record.kind ≠ .writeCommit)
    (habort : record.kind ≠ .writeAbort) (h : ¬ Visible log record) :
    recordEvent schema (terminalGroups log) record = .skip := by
  have hvisible : recordVisibleForLiveRowApply record (terminalGroups log) = false := by
    rw [← recordVisibleForLiveRowApply_iff hcommit habort] at h
    simpa using h
  simp [recordEvent, decodeLiveRow, hvisible]

theorem effective_markers {groups : TerminalGroups} {markers : List TransactionRecord}
    (h : ∀ m ∈ markers, m.kind = .writeCommit ∨ m.kind = .writeAbort) :
    effective (markers.map (recordEvent schema groups)) = [] := by
  rw [effective, List.filter_eq_nil_iff]
  intro event hevent
  obtain ⟨m, hm, rfl⟩ := List.mem_map.mp hevent
  rw [recordEvent_of_terminal groups m (h m hm)]
  exact Bool.false_ne_true

theorem replay_of_committed (hopen : Open groupId log) (h : Marked groupId log log' true false) :
    replayEvents (logEvents schema log') = replayEvents (logEvents schema (countGroup groupId log)) := by
  have halike := h.endsOthersAlike
  obtain ⟨markers, rfl, hmarkers, hcommit, habort⟩ := h
  have hevent : ∀ record ∈ log, recordEvent schema (terminalGroups (log ++ markers)) record =
      recordEvent schema (terminalGroups (countGroup groupId log)) (ungroup groupId record) := by
    intro record hrecord
    unfold ungroup
    split
    · rename_i hgroup
      refine recordEvent_congr none fun _ _ => iff_of_true ?_ ?_
      · intro g hg
        obtain rfl : groupId = g := Option.some.inj (hgroup.symm.trans hg)
        obtain ⟨m, hm, hkind⟩ := hcommit.mpr rfl
        refine ⟨⟨m, List.mem_append_right _ hm, hkind, (hmarkers m hm).1⟩, ?_⟩
        rintro ⟨m, hm, hkind, hgroup⟩
        rcases List.mem_append.mp hm with hm | hm
        · exact (hopen m hm hgroup).2 hkind
        · exact Bool.false_ne_true (habort.mp ⟨m, hm, hkind⟩)
      · intro g hg
        cases hg
    · rename_i hgroup
      refine recordEvent_congr record.groupid fun _ _ => ?_
      rw [halike.visible_iff hgroup]
      exact ((countGroup_endsOthersAlike groupId log).visible_iff hgroup).symm
  rw [replayEvents, replayEvents, ← Replay.foldl_apply_effective, logEvents, List.map_append,
    effective_append, effective_markers fun m hm => (hmarkers m hm).2, List.append_nil,
    Replay.foldl_apply_effective, logEvents, countGroup, List.map_map]
  exact congrArg _ (congrArg _ (List.map_congr_left hevent))

theorem replay_of_not_committed (hopen : Open groupId log) {c a : Bool} (h : Marked groupId log log' c a)
    (hnot : (c && !a) = false) :
    replayEvents (logEvents schema log') = replayEvents (logEvents schema (dropGroup groupId log)) := by
  have halike := h.endsOthersAlike
  obtain ⟨markers, rfl, hmarkers, hcommit, habort⟩ := h
  have hevents : effective (log.map (recordEvent schema (terminalGroups (log ++ markers)))) =
      effective (logEvents schema (dropGroup groupId log)) := by
    refine effective_map_filter (fun record _ hkeep => ?_) (fun record hrecord hdrop => ?_)
    · have hgroup : record.groupid ≠ some groupId := by simpa using hkeep
      refine recordEvent_congr record.groupid fun _ _ => ?_
      rw [halike.visible_iff hgroup]
      exact ((dropGroup_endsOthersAlike groupId log).visible_iff hgroup).symm
    · have hgroup : record.groupid = some groupId := by simpa using hdrop
      obtain ⟨hkind, hkind'⟩ := hopen record hrecord hgroup
      refine recordEvent_of_not_visible hkind hkind' fun hvisible => ?_
      obtain ⟨⟨m, hm, hm'⟩, hnone⟩ := hvisible groupId hgroup
      have hc : c = true := by
        rcases List.mem_append.mp hm with hm | hm
        · exact absurd hm'.1 (hopen m hm hm'.2).1
        · exact hcommit.mp ⟨m, hm, hm'.1⟩
      have ha : a = true := by simpa [hc] using hnot
      obtain ⟨m', hm', hkind⟩ := habort.mpr ha
      exact hnone ⟨m', List.mem_append_right _ hm', hkind, (hmarkers m' hm').1⟩
  rw [replayEvents, replayEvents, ← Replay.foldl_apply_effective, logEvents, List.map_append,
    effective_append, effective_markers fun m hm => (hmarkers m hm).2, List.append_nil, hevents,
    Replay.foldl_apply_effective]

/-! ## All or nothing -/

/-- Replay shows the group's records in every stream, or in none of them. -/
def AllOrNothing (schemas : String → TableSchema) (applyWorkers : Nat) (groupId : TransactionId)
    (streamIds : List String) (before after : Streams) : Prop :=
  (∀ t ∈ streamIds, collectLiveRowsFromRecords (schemas t) (after t) applyWorkers =
      collectLiveRowsFromRecords (schemas t) (countGroup groupId (before t)) applyWorkers) ∨
    ∀ t ∈ streamIds, collectLiveRowsFromRecords (schemas t) (after t) applyWorkers =
      collectLiveRowsFromRecords (schemas t) (dropGroup groupId (before t)) applyWorkers

/-- Whether the records of the group count makes a difference to the live rows. -/
def ChangesRows (schema : TableSchema) (applyWorkers : Nat) (groupId : TransactionId)
    (log : List TransactionRecord) : Prop :=
  collectLiveRowsFromRecords schema (countGroup groupId log) applyWorkers ≠
    collectLiveRowsFromRecords schema (dropGroup groupId log) applyWorkers

theorem collect_finishWriteGroup (io : GroupIo) (replayer : Replayer) (applyWorkers : Nat) {target : String}
    (hopen : Open groupId (stored.seenBy replayer target)) :
    collectLiveRowsFromRecords schema ((finishWriteGroup io groupId streamIds stored).seenBy replayer target)
        applyWorkers =
      collectLiveRowsFromRecords schema (if io.leavesCommitted replayer streamIds target then
        countGroup groupId (stored.seenBy replayer target) else dropGroup groupId (stored.seenBy replayer target))
        applyWorkers := by
  have hmarked := finishWriteGroup_marked groupId io replayer streamIds stored target
  simp only [collectLiveRowsFromRecords_eq_replay]
  cases hleaves : io.leavesCommitted replayer streamIds target with
  | true =>
    obtain ⟨hcommit, habort⟩ := Bool.and_eq_true_iff.mp hleaves
    rw [hcommit, (Bool.not_eq_eq_eq_not).mp habort] at hmarked
    exact replay_of_committed hopen hmarked
  | false => exact replay_of_not_committed hopen hmarked hleaves

/-- However the commit of a group ends, the process that goes on, and one that starts on the files, shows the group's
rows in all of its streams or in none exactly if, of the streams whose rows it changes, all are left with a commit
marker and no abort marker, or none is. -/
theorem finishWriteGroup_allOrNothing_iff (io : GroupIo) (schemas : String → TableSchema)
    (applyWorkers : Nat) (groupId : TransactionId) (streamIds : List String) (stored : StoredStreams)
    (replayer : Replayer) (hopen : ∀ t ∈ streamIds, Open groupId (stored.seenBy replayer t)) :
    AllOrNothing schemas applyWorkers groupId streamIds (stored.seenBy replayer)
        ((finishWriteGroup io groupId streamIds stored).seenBy replayer) ↔
      (∀ t ∈ streamIds, ChangesRows (schemas t) applyWorkers groupId (stored.seenBy replayer t) →
        io.leavesCommitted replayer streamIds t = true) ∨
      ∀ t ∈ streamIds, ChangesRows (schemas t) applyWorkers groupId (stored.seenBy replayer t) →
        io.leavesCommitted replayer streamIds t = false := by
  refine or_congr (forall₂_congr fun t ht => ?_) (forall₂_congr fun t ht => ?_)
  · rw [collect_finishWriteGroup io replayer applyWorkers (hopen t ht), ChangesRows]
    cases io.leavesCommitted replayer streamIds t with
    | true => simp
    | false => simpa using eq_comm
  · rw [collect_finishWriteGroup io replayer applyWorkers (hopen t ht), ChangesRows]
    cases io.leavesCommitted replayer streamIds t with
    | true => simp
    | false => simp

def twoTables : Streams := fun _ => [rowRecord 1 .insert (some ⟨9⟩) none [some [97]]]

def storedTables : StoredStreams := ⟨twoTables, twoTables⟩

/-- The commit fails at the second table, whose marker is nevertheless in the file, and both are aborted. -/
def failedThenAborted : GroupIo :=
  ⟨fun t => if t = "a" then ⟨0, .stored, true⟩ else ⟨0, .failed "sync", true⟩, some fun _ => ⟨0, .stored, true⟩⟩

theorem twoTables_aborted :
    (∀ t ∈ ["a", "b"], Open ⟨9⟩ (storedTables.seenBy .restart t)) ∧
      AllOrNothing (fun _ => nameSchema) 1 ⟨9⟩ ["a", "b"] twoTables
        ((finishWriteGroup failedThenAborted ⟨9⟩ ["a", "b"] storedTables).seenBy .restart) := by
  have hopen : ∀ t ∈ ["a", "b"], Open ⟨9⟩ (storedTables.seenBy .restart t) := by
    intro t _ record hrecord _
    rw [List.mem_singleton.mp hrecord]
    exact ⟨by decide, by decide⟩
  refine ⟨hopen, (finishWriteGroup_allOrNothing_iff failedThenAborted _ 1 ⟨9⟩ ["a", "b"] storedTables .restart
    hopen).mpr (.inr fun t ht _ => ?_)⟩
  rcases List.mem_pair.mp ht with rfl | rfl
  · decide
  · decide

/-- The process stops after the marker of the first table. In the second part the commit fails at the second table and
both are aborted, but the abort marker of the first stands behind a torn frame: after a restart its rows are shown. -/
theorem twoTables_split :
    (¬ AllOrNothing (fun _ => nameSchema) 1 ⟨9⟩ ["a", "b"] twoTables
      ((finishWriteGroup ⟨fun t => if t = "a" then ⟨0, .stored, true⟩ else ⟨0, .crashed, false⟩, none⟩ ⟨9⟩ ["a", "b"]
        storedTables).seenBy .restart)) ∧
    ¬ AllOrNothing (fun _ => nameSchema) 1 ⟨9⟩ ["a", "b"] twoTables
      ((finishWriteGroup { failedThenAborted with abort := some fun t => ⟨0, .stored, t ≠ "a"⟩ } ⟨9⟩ ["a", "b"]
        storedTables).seenBy .restart) := by
  constructor <;> rintro (h | h)
  · exact absurd (h "b" (by decide)) (by decide)
  · exact absurd (h "a" (by decide)) (by decide)
  · exact absurd (h "b" (by decide)) (by decide)
  · exact absurd (h "a" (by decide)) (by decide)

end DistDb.Group
