import DistDb.Isolation.Conflicts

/-! # What conflict detection sees

The cached timestamp of a stream tells whether any of its data records is late, and the records that
become visible after a `BEGIN` are late if all that is appended is. -/

namespace DistDb.Isolation
open Lib Sql Session Wal Execution

/-! ## The cached timestamp -/

theorem any_raiseHighWater (ts : UInt64) (highWater writeTs : Option UInt64) :
    (raiseHighWater highWater writeTs).any (ts < ·) = true ↔
      highWater.any (ts < ·) = true ∨ writeTs.any (ts < ·) = true := by
  cases writeTs with
  | none => simp [raiseHighWater]
  | some writeTs =>
    cases highWater with
    | none => simp [raiseHighWater]
    | some current =>
      simp only [raiseHighWater, Option.any_some, decide_eq_true_eq]
      split
      · rename_i hlt
        exact ⟨.inr, fun h => h.elim (fun h => UInt64.lt_trans h hlt) id⟩
      · rename_i hle
        exact ⟨.inl, fun h => h.elim id fun h => UInt64.lt_of_lt_of_le h (UInt64.not_lt.mp hle)⟩

theorem any_latestWriteTimestamp {ts : UInt64} {entries : List TransactionRecord} :
    (latestWriteTimestamp entries).any (ts < ·) = true ↔
      ∃ record ∈ entries, isDataWrite record = true ∧ ts < record.timestampEpochMs := by
  have hfold : ∀ (entries : List TransactionRecord) (highWater : Option UInt64),
      ((entries.map writeTimestampIfDataWrite).foldl raiseHighWater highWater).any (ts < ·) = true ↔
        highWater.any (ts < ·) = true ∨
          ∃ record ∈ entries, isDataWrite record = true ∧ ts < record.timestampEpochMs := by
    intro entries
    induction entries with
    | nil => simp
    | cons record entries ih =>
      intro highWater
      rw [List.map_cons, List.foldl_cons, ih, any_raiseHighWater, List.exists_mem_cons_iff, or_assoc]
      simp only [writeTimestampIfDataWrite]
      cases isDataWrite record <;> simp
  simpa [latestWriteTimestamp] using hfold entries none

namespace WalStream

def HighWaterKept (stream : WalStream) : Prop :=
  ∀ ts, stream.writeHighWater.any (ts < ·) = true ↔
    (latestWriteTimestamp stream.entries.entries).any (ts < ·) = true

theorem highWaterKept_new : new.HighWaterKept := fun _ => Iff.rfl

theorem HighWaterKept.append {stream : WalStream} (h : stream.HighWaterKept)
    (records : List TransactionRecord) : (stream.append records).HighWaterKept := by
  intro ts
  rw [WalStream.append, any_raiseHighWater, h ts, any_latestWriteTimestamp, any_latestWriteTimestamp,
    any_latestWriteTimestamp]
  simp only [KeyedLog.mem_mergeAll]
  constructor
  · rintro (⟨record, hmem, hlate⟩ | ⟨record, hmem, hlate⟩)
    · exact ⟨record, .inl hmem, hlate⟩
    · exact ⟨record, .inr hmem, hlate⟩
  · rintro ⟨record, hmem | hmem, hlate⟩
    · exact .inl ⟨record, hmem, hlate⟩
    · exact .inr ⟨record, hmem, hlate⟩

theorem hasWriteAfter_iff {stream : WalStream} (h : stream.HighWaterKept) {ts : UInt64} :
    stream.hasWriteAfter ts = true ↔
      ∃ record ∈ stream.entries.entries, isDataWrite record = true ∧ ts < record.timestampEpochMs := by
  rw [← any_latestWriteTimestamp, ← h ts, hasWriteAfter]
  cases hhigh : stream.writeHighWater with
  | some maxTs => simp
  | none =>
    have hnone := h ts
    rw [hhigh] at hnone
    simpa using hnone.symm

end WalStream

namespace Node

variable {names : Names} {parse : Parser} {node node' : Node} {walId : String} {epoch : UInt64}

def HighWaterKept (node : Node) : Prop :=
  ∀ streamKey stream, node.wal.lookup streamKey = some stream → stream.HighWaterKept

theorem HighWaterKept.stream (h : node.HighWaterKept) : (node.stream names walId).HighWaterKept := by
  unfold Node.stream
  cases hfound : (obfuscatedStreamKey names walId).bind node.wal.lookup with
  | none => exact WalStream.highWaterKept_new
  | some stream =>
    obtain ⟨streamKey, -, hlookup⟩ := Option.bind_eq_some_iff.mp hfound
    exact h streamKey stream hlookup

theorem HighWaterKept.step (h : node.HighWaterKept) (event : Append) : (node.step names event).HighWaterKept := by
  unfold Node.step
  split
  · exact h
  · rename_i streamKey _
    split
    · intro key stream hlookup
      by_cases hkey : key = streamKey
      · subst hkey
        rw [Finmap.lookup_insert, Option.some.injEq] at hlookup
        exact hlookup ▸ h.stream.append event.records
      · rw [Finmap.lookup_insert_of_ne _ hkey] at hlookup
        exact h key stream hlookup
    · exact h

/-! ## Records of a stream -/

theorem records_step (names : Names) (node : Node) (event : Append) (walId : String) :
    (node.step names event).records names walId = node.records names walId ∨
      obfuscatedStreamKey names walId = obfuscatedStreamKey names event.walId ∧
        ∀ record, record ∈ (node.step names event).records names walId ↔
          record ∈ node.records names walId ∨ record ∈ event.records := by
  unfold Node.step
  cases hkey : obfuscatedStreamKey names event.walId with
  | none => exact .inl rfl
  | some streamKey =>
    simp only
    split
    · by_cases hsame : obfuscatedStreamKey names walId = some streamKey
      · refine .inr ⟨hsame, fun record => ?_⟩
        simp only [records, Node.stream, hsame, hkey, Option.bind_some, Finmap.lookup_insert,
          Option.getD_some, WalStream.append]
        exact KeyedLog.mem_mergeAll
      · refine .inl ?_
        cases hother : obfuscatedStreamKey names walId with
        | none => simp [records, Node.stream, hother]
        | some other =>
          have hne : other ≠ streamKey := fun heq => hsame (hother.trans (congrArg some heq))
          simp [records, Node.stream, hother, Finmap.lookup_insert_of_ne _ hne]
    · exact .inl rfl

/-- Every data record that is appended is later than `epoch`, and so are those already there whose
group is committed by a marker that is appended. -/
def AppendsLater (names : Names) (epoch : UInt64) (node : Node) (event : Append) : Prop :=
  (∀ record ∈ event.records, isDataWrite record = true → epoch < record.timestampEpochMs) ∧
    ∀ marker ∈ event.records, marker.kind = .writeCommit →
      ∀ record ∈ node.records names event.walId, record.groupid = marker.groupid →
        isDataWrite record = true → epoch < record.timestampEpochMs

def LateUnlessVisible (names : Names) (epoch : UInt64) (before node : Node) : Prop :=
  ∀ walId, ∀ record ∈ node.records names walId, isDataWrite record = true →
    Visible (node.records names walId) record →
    (record ∈ before.records names walId ∧ Visible (before.records names walId) record) ∨
      epoch < record.timestampEpochMs

theorem records_congr (h : obfuscatedStreamKey names walId = obfuscatedStreamKey names walId') :
    node.records names walId = node.records names walId' := by
  simp only [records, Node.stream, h]

theorem lateUnlessVisible_step {before : Node} (h : LateUnlessVisible names epoch before node)
    {event : Append} (hevent : AppendsLater names epoch node event) :
    LateUnlessVisible names epoch before (node.step names event) := by
  intro walId record hmem hdata hvisible
  rcases records_step names node event walId with hsame | ⟨hkey, hmore⟩
  · rw [hsame] at hmem hvisible
    exact h walId record hmem hdata hvisible
  · rcases (hmore record).mp hmem with hold | hnew
    · by_cases hbefore : Visible (node.records names walId) record
      · exact h walId record hold hdata hbefore
      · -- the group has been committed by a marker of this append
        refine .inr ?_
        simp only [Visible, not_forall] at hbefore
        obtain ⟨g, hg, hhidden⟩ := hbefore
        obtain ⟨⟨marker, hmarker, hkind, hgroup⟩, hnotAborted⟩ := hvisible g hg
        rcases (hmore marker).mp hmarker with hmarkerOld | hmarkerNew
        · refine absurd ⟨⟨marker, hmarkerOld, hkind, hgroup⟩, ?_⟩ hhidden
          rintro ⟨abort, habort, hrest⟩
          exact hnotAborted ⟨abort, (hmore abort).mpr (.inl habort), hrest⟩
        · refine hevent.2 marker hmarkerNew hkind record ?_ (hg.trans hgroup.symm) hdata
          exact records_congr hkey ▸ hold
    · exact .inr (hevent.1 record hnew hdata)

theorem lateUnlessVisible_run {events : List Append}
    (h : Along (Node.step names) (AppendsLater names epoch) node events) :
    LateUnlessVisible names epoch node (runFrom (Node.step names) node events) :=
  h.invariant (I := LateUnlessVisible names epoch node) (fun _ _ hevent h => lateUnlessVisible_step h hevent)
    fun _ _ hmem _ hvisible => .inl ⟨hmem, hvisible⟩

/-! ## Detection -/

theorem hasWriteAfter_iff (h : node.HighWaterKept) : node.hasWriteAfter names walId epoch = true ↔
    ∃ record ∈ node.records names walId, isDataWrite record = true ∧ epoch < record.timestampEpochMs :=
  WalStream.hasWriteAfter_iff h.stream

theorem hasLateWrite_of_record (h : node.HighWaterKept) {databaseId tableId : String} {catalog : DatabaseCatalog}
    (hcatalog : node.catalog names databaseId = some catalog)
    (hstream : catalog.entityWalStreamId tableId = some walId) {record : TransactionRecord}
    (hmem : record ∈ node.records names walId) (hdata : isDataWrite record = true)
    (hlate : epoch < record.timestampEpochMs) : node.hasLateWrite names epoch databaseId tableId = true := by
  simp only [hasLateWrite, hcatalog, hstream, Option.getD_some]
  exact (hasWriteAfter_iff h).mpr ⟨record, hmem, hdata, hlate⟩

theorem detectWriteWriteConflict_isSome {stagedQueries : List DataQuery} :
    (detectWriteWriteConflict names parse node epoch stagedQueries).isSome = true ↔
      ∃ table ∈ touchedTables parse stagedQueries, node.hasLateWrite names epoch table.1 table.2 = true := by
  rw [detectWriteWriteConflict, Option.isSome_map, List.find?_isSome]

theorem detectPredicateReadConflicts_isSome {observations : List ReadObservation} :
    (detectPredicateReadConflicts names node (some observations) epoch).isSome = true ↔ ∃ observation ∈ observations,
        node.hasLateWrite names epoch observation.databaseId observation.tableId = true := by
  rw [detectPredicateReadConflicts, Option.bind_some, Option.isSome_map, List.find?_isSome]

end Node

end DistDb.Isolation
