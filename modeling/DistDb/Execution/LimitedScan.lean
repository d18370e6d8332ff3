import DistDb.Execution.Realignment

/-! # The last rows of a stream

The stream is read from its end, so that the markers of a group and the delete of a row come before the records they
are about. -/

namespace DistDb.Execution
open Lib Mutation

/-- The variables of the loop; `finished` after its `break`. -/
structure LimitedScan where
  groups : TerminalGroups
  deletedRows : Finset UInt64
  liveRows : List (UInt64 × RowMap)
  finished : Bool

namespace LimitedScan

def start : LimitedScan := ⟨⟨∅, ∅⟩, ∅, [], false⟩

def push (scan : LimitedScan) (maxRows : Nat) (id : UInt64) (row : RowMap) : LimitedScan :=
  { scan with
    liveRows := scan.liveRows ++ [(id, row)]
    finished := decide (maxRows ≤ (scan.liveRows ++ [(id, row)]).length) }

def step (schema : TableSchema) (maxRows : Nat) (scan : LimitedScan) (record : TransactionRecord) :
    LimitedScan :=
  if scan.finished then scan
  else
    match record.kind with
    | .writeCommit | .writeAbort => { scan with groups := scan.groups.note record }
    | .delete =>
      if recordVisibleForLiveRowApply record scan.groups then
        match record.refid with
        | some refid => { scan with deletedRows := insert refid.val scan.deletedRows }
        | none => scan
      else scan
    | .insert | .update =>
      if recordVisibleForLiveRowApply record scan.groups = false then scan
      else if record.id.val ∈ scan.deletedRows then scan
      else
        match record.payload with
        | none => scan
        | some payload =>
          match decodeRowPayload schema payload with
          | .error _ => scan
          | .ok row => scan.push maxRows record.id.val row
    | _ => scan

def apply (maxRows : Nat) (scan : LimitedScan) : LogEvent UInt64 RowMap → LimitedScan
  | .put id row => if id ∈ scan.deletedRows then scan else scan.push maxRows id row
  | .del id => { scan with deletedRows := insert id scan.deletedRows }
  | .skip => scan

end LimitedScan

def collectLiveRowsFromRecordsLimited (schema : TableSchema) (walRecords : List TransactionRecord)
    (maxRows : Nat) : List (UInt64 × RowMap) :=
  (walRecords.reverse.foldl (LimitedScan.step schema maxRows) .start).liveRows.reverse

def loadLiveRowsInPlaceLimited (schema : TableSchema) (walRecords : Option (List TransactionRecord))
    (maxRows : Nat) : List (UInt64 × RowMap) :=
  if maxRows = 0 then []
  else (walRecords.map fun records => collectLiveRowsFromRecordsLimited schema records maxRows).getD []

/-! ## Streams whose groups end behind their records -/

/-- A commit or an abort. -/
def EndsGroup (record : TransactionRecord) : Prop :=
  record.kind = .writeCommit ∨ record.kind = .writeAbort

instance (record : TransactionRecord) : Decidable (EndsGroup record) :=
  inferInstanceAs (Decidable (_ ∨ _))

/-- An insert, an update or a delete. -/
def ChangesRows (record : TransactionRecord) : Prop :=
  record.kind = .insert ∨ record.kind = .update ∨ record.kind = .delete

instance (record : TransactionRecord) : Decidable (ChangesRows record) :=
  inferInstanceAs (Decidable (_ ∨ _ ∨ _))

/-- Each group's terminal markers come behind the group's data records. -/
def MarkersLast (records : List TransactionRecord) : Prop :=
  records.Pairwise fun earlier later =>
    EndsGroup earlier → earlier.groupid ≠ none → earlier.groupid = later.groupid → ¬ ChangesRows later

instance (records : List TransactionRecord) : Decidable (MarkersLast records) :=
  inferInstanceAs (Decidable (List.Pairwise _ records))

section Backwards

variable {schema : TableSchema} {groups : TerminalGroups} {record : TransactionRecord}
  {records pre post : List TransactionRecord} {maxRows : Nat}

theorem ChangesRows.not_endsGroup (h : ChangesRows record) : ¬ EndsGroup record := by
  rintro (hkind | hkind) <;> simp [ChangesRows, hkind] at h

theorem recordEvent_eq_skip (h : ¬ ChangesRows record) : recordEvent schema groups record = .skip := by
  cases hevent : recordEvent schema groups record with
  | skip => rfl
  | put id row =>
    obtain ⟨-, hkind, -⟩ := decodeLiveRow_eq_some.mp (recordEvent_eq_put.mp hevent).2
    exact absurd (hkind.elim .inl fun h => .inr (.inl h)) h
  | del id => exact absurd (.inr (.inr (recordEvent_eq_del.mp hevent).2.1)) h

theorem recordEvent_congr {groups' : TerminalGroups}
    (h : recordVisibleForLiveRowApply record groups = recordVisibleForLiveRowApply record groups') :
    recordEvent schema groups record = recordEvent schema groups' record := by
  simp only [recordEvent, decodeLiveRow, h]

theorem note_of_not_endsGroup (h : ¬ EndsGroup record) : groups.note record = groups := by
  unfold TerminalGroups.note
  split
  · rename_i hkind _
    exact absurd (.inl hkind) h
  · rename_i hkind _
    exact absurd (.inr hkind) h
  · rfl

theorem visible_of_suffix_iff (h : MarkersLast (pre ++ record :: post)) (hdata : ChangesRows record) :
    Visible post record ↔ Visible (pre ++ record :: post) record := by
  have hmarker : ∀ m, EndsGroup m → ∀ g ∈ record.groupid, m.groupid = some g →
      (m ∈ pre ++ record :: post ↔ m ∈ post) := by
    intro m hends g hg hm
    have hpre : m ∉ pre := fun hmem =>
      (List.pairwise_append.mp h).2.2 m hmem record List.mem_cons_self hends (by simp [hm]) (hm.trans hg.symm) hdata
    have hself : m ≠ record := by
      rintro rfl
      exact hdata.not_endsGroup hends
    simp [hpre, hself]
  refine forall₂_congr fun g hg => and_congr ?_ (not_congr ?_)
  · refine exists_congr fun m => ?_
    constructor
    · rintro ⟨hmem, hkind, hm⟩
      exact ⟨(hmarker m (.inl hkind) g hg hm).mpr hmem, hkind, hm⟩
    · rintro ⟨hmem, hkind, hm⟩
      exact ⟨(hmarker m (.inl hkind) g hg hm).mp hmem, hkind, hm⟩
  · refine exists_congr fun m => ?_
    constructor
    · rintro ⟨hmem, hkind, hm⟩
      exact ⟨(hmarker m (.inr hkind) g hg hm).mpr hmem, hkind, hm⟩
    · rintro ⟨hmem, hkind, hm⟩
      exact ⟨(hmarker m (.inr hkind) g hg hm).mp hmem, hkind, hm⟩

theorem visible_reverse_iff : Visible records.reverse record ↔ Visible records record := by
  simp only [Visible, List.mem_reverse]

theorem recordEvent_suffix (h : MarkersLast (pre ++ record :: post)) :
    recordEvent schema (terminalGroups post.reverse) record =
      recordEvent schema (terminalGroups (pre ++ record :: post)) record := by
  by_cases hdata : ChangesRows record
  · have hcommit : record.kind ≠ .writeCommit := fun hkind => hdata.not_endsGroup (.inl hkind)
    have habort : record.kind ≠ .writeAbort := fun hkind => hdata.not_endsGroup (.inr hkind)
    refine recordEvent_congr (Bool.eq_iff_iff.mpr ?_)
    rw [recordVisibleForLiveRowApply_iff hcommit habort, recordVisibleForLiveRowApply_iff hcommit habort,
      visible_reverse_iff, visible_of_suffix_iff h hdata]
  · rw [recordEvent_eq_skip hdata, recordEvent_eq_skip hdata]

namespace LimitedScan

@[simp] theorem push_deletedRows (scan : LimitedScan) (id : UInt64) (row : RowMap) :
    (scan.push maxRows id row).deletedRows = scan.deletedRows := rfl

theorem apply_groups (scan : LimitedScan) (event : LogEvent UInt64 RowMap) :
    (scan.apply maxRows event).groups = scan.groups := by
  cases event with
  | put id row =>
    rw [apply]
    split <;> rfl
  | del id => rfl
  | skip => rfl

theorem step_eq (scan : LimitedScan) (h : scan.finished = false) : scan.step schema maxRows record =
      { scan.apply maxRows (recordEvent schema scan.groups record) with
        groups := scan.groups.note record } := by
  by_cases hends : EndsGroup record
  · have hskip : recordEvent schema scan.groups record = .skip :=
      recordEvent_eq_skip fun hdata => hdata.not_endsGroup hends
    rcases hends with hkind | hkind <;> simp [step, h, hkind, hskip, apply]
  · rw [note_of_not_endsGroup hends]
    have happly : ∀ event, { scan.apply maxRows event with groups := scan.groups } =
        scan.apply maxRows event := fun event => by
      rw [← apply_groups scan event]
    rw [happly]
    unfold step recordEvent decodeLiveRow
    cases hkind : record.kind with
    | insert | update =>
      by_cases hvisible : recordVisibleForLiveRowApply record scan.groups = true
      · cases record.payload with
        | none => simp [h, hvisible, apply]
        | some payload => cases hdecode : decodeRowPayload schema payload <;> simp [h, hvisible, apply, hdecode]
      · simp [h, hvisible, apply]
    | delete =>
      by_cases hvisible : recordVisibleForLiveRowApply record scan.groups = true
      · cases record.refid <;> simp [h, hvisible, apply]
      · simp [h, hvisible, apply]
    | writeCommit => exact absurd (.inl hkind) hends
    | writeAbort => exact absurd (.inr hkind) hends
    | _ => simp [h, apply]

end LimitedScan

/-! ## Reading backwards -/

theorem rtake_cons_of_le {α : Type*} {n : Nat} {x : α} {xs : List α} (h : n ≤ xs.length) :
    (x :: xs).rtake n = xs.rtake n := by
  rw [List.rtake, List.rtake, List.length_cons, Nat.succ_sub h, List.drop_succ_cons]

theorem rtake_of_length_le {α : Type*} {n : Nat} {xs : List α} (h : xs.length ≤ n) : xs.rtake n = xs := by
  rw [List.rtake, Nat.sub_eq_zero_of_le h, List.drop_zero]

structure LimitedScan.Reads (maxRows : Nat) (events : List (LogEvent UInt64 RowMap)) (scan : LimitedScan) :
    Prop where
  rows : scan.liveRows.reverse = (live events).rtake (max maxRows 1)
  finished : scan.finished = decide (max maxRows 1 ≤ (live events).length)
  deleted : scan.finished = false → ∀ id, id ∈ scan.deletedRows ↔ id ∈ deletedKeys events

variable {events : List (LogEvent UInt64 RowMap)} {scan : LimitedScan}

theorem LimitedScan.Reads.rows_eq (h : scan.Reads maxRows events) (hrun : scan.finished = false) :
    scan.liveRows.reverse = live events ∧ (live events).length < max maxRows 1 := by
  have hlt : (live events).length < max maxRows 1 :=
    Nat.lt_of_not_le (of_decide_eq_false (h.finished.symm.trans hrun))
  exact ⟨h.rows.trans (rtake_of_length_le hlt.le), hlt⟩

theorem LimitedScan.Reads.apply
    (h : scan.Reads maxRows events) (hrun : scan.finished = false) (event : LogEvent UInt64 RowMap) :
    (scan.apply maxRows event).Reads maxRows (event :: events) := by
  obtain ⟨hrows, hlt⟩ := h.rows_eq hrun
  cases event with
  | skip => exact ⟨h.rows, h.finished, h.deleted⟩
  | del id =>
    refine ⟨h.rows, h.finished, fun hrun' key => ?_⟩
    rw [LimitedScan.apply, Finset.mem_insert, h.deleted hrun, deletedKeys_del, List.mem_cons]
  | put id row =>
    by_cases hdel : id ∈ deletedKeys events
    · rw [LimitedScan.apply, if_pos ((h.deleted hrun id).mpr hdel)]
      have hlive : live (.put id row :: events) = live events := by simp [live, hdel]
      exact ⟨hlive ▸ h.rows, hlive ▸ h.finished, h.deleted⟩
    · rw [LimitedScan.apply, if_neg fun hmem => hdel ((h.deleted hrun id).mp hmem)]
      have hlive : live (.put id row :: events) = (id, row) :: live events := by simp [live, hdel]
      have hlength : scan.liveRows.length = (live events).length := by rw [← hrows, List.length_reverse]
      refine ⟨?_, ?_, fun hrun' key => ?_⟩
      · rw [hlive, rtake_of_length_le (by simpa using hlt)]
        simp [LimitedScan.push, hrows]
      · rw [hlive]
        simp only [LimitedScan.push, List.length_append, List.length_cons, List.length_nil, hlength]
        exact decide_eq_decide.mpr (by omega)
      · rw [LimitedScan.push_deletedRows, h.deleted hrun]
        rfl

theorem LimitedScan.Reads.cons
    (h : scan.Reads maxRows events) (hdone : scan.finished = true) (event : LogEvent UInt64 RowMap) :
    scan.Reads maxRows (event :: events) := by
  have hle : max maxRows 1 ≤ (live events).length := of_decide_eq_true (h.finished.symm.trans hdone)
  have hcons : live (event :: events) = live events ∨ ∃ entry, live (event :: events) = entry :: live events := by
    cases event with
    | put id row =>
      by_cases hdel : id ∈ deletedKeys events
      · exact .inl (by simp [live, hdel])
      · exact .inr ⟨(id, row), by simp [live, hdel]⟩
    | del id => exact .inl rfl
    | skip => exact .inl rfl
  rcases hcons with hlive | ⟨entry, hlive⟩
  · exact ⟨hlive ▸ h.rows, hlive ▸ h.finished, fun hrun => by simp [hdone] at hrun⟩
  · refine ⟨?_, ?_, fun hrun => by simp [hdone] at hrun⟩
    · rw [hlive, rtake_cons_of_le hle]
      exact h.rows
    · rw [hlive, hdone, eq_comm, decide_eq_true_iff]
      exact hle.trans (Nat.le_succ _)

theorem limitedScan_reads (pre : List TransactionRecord) (h : MarkersLast (pre ++ post)) :
    (post.reverse.foldl (LimitedScan.step schema maxRows) .start).Reads maxRows
        (post.map (recordEvent schema (terminalGroups (pre ++ post)))) ∧
      ((post.reverse.foldl (LimitedScan.step schema maxRows) .start).finished = false →
        (post.reverse.foldl (LimitedScan.step schema maxRows) .start).groups = terminalGroups post.reverse) := by
  induction post generalizing pre with
  | nil =>
    refine ⟨⟨?_, ?_, fun _ _ => by simp [LimitedScan.start]⟩, fun _ => rfl⟩
    · exact (List.rtake_nil _).symm
    · simp [LimitedScan.start, live]
  | cons record post ih =>
    have hsplit : pre ++ record :: post = pre ++ [record] ++ post := by simp
    obtain ⟨hreads, hgroups⟩ := ih (pre ++ [record]) (hsplit ▸ h)
    rw [← hsplit] at hreads
    rw [List.reverse_cons, List.foldl_concat, List.map_cons]
    generalize post.reverse.foldl (LimitedScan.step schema maxRows) .start = scan at hreads hgroups ⊢
    cases hrun : scan.finished with
    | true =>
      rw [LimitedScan.step, if_pos hrun]
      exact ⟨hreads.cons hrun _, fun hfalse => by simp [hrun] at hfalse⟩
    | false =>
      rw [LimitedScan.step_eq scan hrun, hgroups hrun, recordEvent_suffix h]
      have hnext := hreads.apply hrun (recordEvent schema (terminalGroups (pre ++ record :: post)) record)
      refine ⟨⟨hnext.rows, hnext.finished, hnext.deleted⟩, fun _ => ?_⟩
      show (terminalGroups post.reverse).note record = terminalGroups (post.reverse ++ [record])
      simp only [terminalGroups, List.foldl_concat]

/-- The backward loop returns the last rows of the whole replay. It looks at the limit only after it has pushed
a row, so without the test of the loader a limit of zero would still give one row. -/
theorem limited_scan_last_rows (schema : TableSchema) (h : InOrder records) (hmarkers : MarkersLast records)
    (applyWorkers maxRows : Nat) :
    collectLiveRowsFromRecordsLimited schema records maxRows =
        (collectLiveRowsFromRecords schema records applyWorkers).rtake (max maxRows 1) ∧
      loadLiveRowsInPlaceLimited schema (some records) maxRows =
        (collectLiveRowsFromRecords schema records applyWorkers).rtake maxRows := by
  have hlimited : collectLiveRowsFromRecordsLimited schema records maxRows =
      (collectLiveRowsFromRecords schema records applyWorkers).rtake (max maxRows 1) := by
    rw [collectLiveRows_eq_live schema h]
    exact (limitedScan_reads [] hmarkers).1.rows
  refine ⟨hlimited, ?_⟩
  unfold loadLiveRowsInPlaceLimited
  split
  · rename_i hzero
    rw [hzero, List.rtake_zero]
  · rename_i hpos
    rw [Option.map_some, Option.getD_some, hlimited, Nat.max_eq_left (Nat.one_le_iff_ne_zero.mpr hpos)]

end Backwards

def groupedThenPlain : List TransactionRecord :=
  [rowRecord 1 .insert (some ⟨9⟩) none [some [97]], rowRecord 2 .insert none none [some [98]],
    markerRecord 3 .writeCommit ⟨9⟩]

theorem groupedThenPlain_last_row :
    InOrder groupedThenPlain ∧ MarkersLast groupedThenPlain ∧
      collectLiveRowsFromRecordsLimited nameSchema groupedThenPlain 1 =
        (collectLiveRowsFromRecords nameSchema groupedThenPlain 1).rtake 1 :=
  have hsorted : InOrder groupedThenPlain := by unfold InOrder; decide
  have hmarkers : MarkersLast groupedThenPlain := by decide
  ⟨hsorted, hmarkers, (limited_scan_last_rows nameSchema hsorted hmarkers 1 1).1⟩

/-- With a limit of zero the loop returns the last row. -/
theorem zero_limit_returns_row :
    InOrder groupedThenPlain ∧ MarkersLast groupedThenPlain ∧
      collectLiveRowsFromRecordsLimited nameSchema groupedThenPlain 0 = [(2, nameRow [98])] ∧
      (collectLiveRowsFromRecords nameSchema groupedThenPlain 1).rtake 0 = [] := by
  refine ⟨?_, by decide, by decide +kernel, List.rtake_zero _⟩
  unfold InOrder
  decide

end DistDb.Execution
