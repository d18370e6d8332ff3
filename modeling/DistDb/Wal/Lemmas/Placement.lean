import DistDb.Wal.Worker

/-! # Where the worker puts a record

The in-order push, the binary-search insert and the batch merge all compute one operation, the merge
of a key-sorted log. -/

namespace DistDb.Wal
open Lib

abbrev StreamLog := KeyedLog TransactionRecord TransactionRecord.key

variable {a b : TransactionRecord}

theorem key_lt_iff : a.key < b.key ↔ a.id.val < b.id.val :=
  UInt64.lt_iff_toNat_lt.symm

theorem key_le_iff : a.key ≤ b.key ↔ a.id.val ≤ b.id.val :=
  UInt64.le_iff_toNat_le.symm

theorem key_eq_iff : a.key = b.key ↔ a.id = b.id := by
  cases a with | mk ida _ _ _ _ _ _ =>
  cases b with | mk idb _ _ _ _ _ _ =>
  cases ida; cases idb
  simp [TransactionRecord.key, UInt64.toNat_inj]

variable {log : StreamLog} {record : TransactionRecord} {records : List TransactionRecord}

theorem isOrdered_iff : isOrdered log.entries record = true ↔ ∀ x ∈ log.entries, x.key < record.key := by
  rcases List.eq_nil_or_concat' log.entries with hnil | ⟨init, last, hlast⟩
  · simp [isOrdered, hnil]
  · have hsorted := log.sorted
    rw [hlast, SortedBy, List.pairwise_append] at hsorted
    simp only [isOrdered, hlast, List.getLast?_concat, decide_eq_true_eq, ← key_lt_iff]
    refine ⟨fun h x hx => ?_, fun h => h last (by simp)⟩
    rcases List.mem_append.mp hx with hx | hx
    · exact lt_of_le_of_lt (hsorted.2.2 x hx last (List.mem_singleton_self _)) h
    · exact List.mem_singleton.mp hx ▸ h

variable {entries : List TransactionRecord}

theorem exactRecordDuplicateFrom_of_gt
    (h : ∀ x ∈ entries, record.key < x.key) : exactRecordDuplicateFrom record entries = false := by
  cases entries with
  | nil => rfl
  | cons x xs =>
    have hne : x.id ≠ record.id := fun he =>
      (h x (List.mem_cons_self ..)).ne (key_eq_iff.mpr he).symm
    simp [exactRecordDuplicateFrom, hne]

theorem takeWhile_le_of_gt (h : ∀ x ∈ entries, record.key < x.key) :
    (entries.takeWhile fun entry => entry.id.val ≤ record.id.val) = [] := by
  cases entries with
  | nil => rfl
  | cons x xs =>
    have hlt := h x (List.mem_cons_self ..)
    rw [List.takeWhile_cons_of_neg]
    simpa [← key_le_iff] using hlt

/-- The cut the binary search finds: everything before it is at most the record's id and everything
after it above; a duplicate is seen exactly if the record is the latest entry with its id. -/
theorem basePos_spec (log : StreamLog) (record : TransactionRecord) :
    ∃ pre post, log.entries = pre ++ post ∧ (∀ x ∈ pre, x.key ≤ record.key) ∧ (∀ x ∈ post, record.key < x.key) ∧
      insertPos log.entries record (basePos log.entries record) = pre.length ∧
      (exactRecordDuplicateAtOrAfter log.entries record (basePos log.entries record) = true ↔
        IsLatest TransactionRecord.key record log.entries) := by
  have hspec := binarySearchByKey_split (k := record.key) log.sorted
  unfold basePos
  cases hres : binarySearchByKey log.entries record.key TransactionRecord.key with
  | ok i =>
    simp only [hres] at hspec ⊢
    obtain ⟨pre, y, post, hsplit, rfl, hky, hpre, hpost⟩ := hspec
    have hid : y.id = record.id := key_eq_iff.mp hky
    have hle : y.id.val ≤ record.id.val := key_le_iff.mp hky.le
    refine ⟨pre ++ [y], post, by simp [hsplit], ?_, hpost, ?_, ?_⟩
    · intro x hx
      rcases List.mem_append.mp hx with hx | hx
      · exact hpre x hx
      · exact (List.mem_singleton.mp hx ▸ hky).le
    · simp [insertPos, hsplit, hle, takeWhile_le_of_gt hpost]
    · have hcls : classOf TransactionRecord.key record.key post = [] :=
        List.filter_eq_nil_iff.mpr fun x hx => by simpa using (hpost x hx).ne'
      have hlatest : (classOf TransactionRecord.key record.key log.entries).getLast? = some y := by
        rw [hsplit, List.append_cons, classOf_append, classOf_concat, if_pos hky, hcls,
          List.append_nil, List.getLast?_concat]
      rw [IsLatest, hlatest]
      simp [exactRecordDuplicateAtOrAfter, hsplit, exactRecordDuplicateFrom, hid,
        exactRecordDuplicateFrom_of_gt hpost]
  | error i =>
    simp only [hres] at hspec ⊢
    obtain ⟨pre, post, hsplit, rfl, hpre, hpost⟩ := hspec
    refine ⟨pre, post, hsplit, fun x hx => (hpre x hx).le, hpost, ?_, ?_⟩
    · simp [insertPos, hsplit, takeWhile_le_of_gt hpost]
    · refine iff_of_false ?_ fun hl => ?_
      · simp [exactRecordDuplicateAtOrAfter, hsplit, exactRecordDuplicateFrom_of_gt hpost]
      · rcases List.mem_append.mp (hsplit ▸ hl.mem) with hx | hx
        · exact lt_irrefl _ (hpre _ hx)
        · exact lt_irrefl _ (hpost _ hx)

theorem insertIdx_length_append (pre post : List TransactionRecord) :
    (pre ++ post).insertIdx pre.length record = pre ++ record :: post := by
  induction pre with
  | nil => simp
  | cons x pre ih => simpa using ih

theorem placeOutOfOrder_eq : placeOutOfOrder log.entries record =
    if IsLatest TransactionRecord.key record log.entries then none
    else some (log.merge record).entries := by
  obtain ⟨pre, post, hsplit, hpre, hpost, hpos, hdup⟩ := basePos_spec log record
  simp only [placeOutOfOrder, hdup, hpos]
  split
  · rfl
  · obtain ⟨hat, habove⟩ := split_eq hpre hpost
    rw [KeyedLog.merge_entries_of_not ‹_›, hsplit, hat, habove, insertIdx_length_append]

/-! ## Batches -/

def placeEntry (entries : List TransactionRecord) (record : TransactionRecord) :
    List TransactionRecord :=
  if isOrdered entries record then entries ++ [record]
  else (placeOutOfOrder entries record).getD entries

theorem placeEntry_log : placeEntry log.entries record = (log.merge record).entries := by
  rw [placeEntry, placeOutOfOrder_eq]
  split
  · exact (KeyedLog.merge_of_gt (isOrdered_iff.mp ‹_›)).symm
  · split_ifs with hlatest
    · rw [KeyedLog.merge_of_isLatest hlatest, Option.getD_none]
    · rfl

theorem foldl_placeEntry_log : records.foldl placeEntry log.entries = (log.mergeAll records).entries := by
  induction records generalizing log with
  | nil => rfl
  | cons record records ih => rw [List.foldl_cons, placeEntry_log, ih, KeyedLog.mergeAll_cons]

theorem place_workingEntries (batch : BatchState) (record : TransactionRecord) :
    (batch.place record).workingEntries = placeEntry batch.workingEntries record := by
  rw [BatchState.place, placeEntry]
  split
  · rfl
  · cases placeOutOfOrder batch.workingEntries record <;> rfl

theorem mergeBatch_workingEntries (entries records : List TransactionRecord) :
    (mergeBatch entries records).workingEntries = records.foldl placeEntry entries := by
  have hrun : ∀ (records : List TransactionRecord) (batch : BatchState),
      (records.foldl BatchState.place batch).workingEntries = records.foldl placeEntry batch.workingEntries := by
    intro records
    induction records with
    | nil => exact fun _ => rfl
    | cons record records ih =>
      intro batch
      rw [List.foldl_cons, ih, place_workingEntries, List.foldl_cons]
  exact hrun records _

theorem mergeBatch_clean (h : (mergeBatch entries records).stagedDirty = false) :
    (mergeBatch entries records).workingEntries = entries := by
  have hstep : ∀ (batch : BatchState) record, (batch.place record).stagedDirty = false →
      batch.place record = batch := by
    intro batch record h
    unfold BatchState.place at h ⊢
    split_ifs with hord
    · simp [hord] at h
    · simp only [hord] at h
      cases hp : placeOutOfOrder batch.workingEntries record with
      | none => rfl
      | some _ => simp [hp] at h
  have hrun : ∀ (records : List TransactionRecord) (batch : BatchState),
      (records.foldl BatchState.place batch).stagedDirty = false → records.foldl BatchState.place batch = batch := by
    intro records
    induction records with
    | nil => exact fun _ _ => rfl
    | cons record records ih =>
      intro batch h
      rw [List.foldl_cons] at h ⊢
      have := ih _ h
      rw [this] at h ⊢
      exact hstep _ _ h
  exact congrArg BatchState.workingEntries (hrun records _ h)

theorem batchOrdered_entries (h : batchOrdered (entries.getLast?.map (·.id.val)) records = true) :
    entries ++ records = records.foldl placeEntry entries := by
  induction records generalizing entries with
  | nil => simp
  | cons record records ih =>
    simp only [batchOrdered, Bool.and_eq_true] at h
    have hord : isOrdered entries record = true := by
      unfold isOrdered
      cases hlast : entries.getLast? <;> simp_all
    have hplace : placeEntry entries record = entries ++ [record] := by rw [placeEntry, if_pos hord]
    rw [List.foldl_cons, hplace, ← ih (by simpa using h.2), List.append_assoc, List.singleton_append]

/-! ## Entries in any order

A file may hold its records in any order. The record is placed all the same. -/

section
variable {entries placed : List TransactionRecord}

theorem mem_of_exactRecordDuplicateFrom (h : exactRecordDuplicateFrom record entries = true) : record ∈ entries := by
  induction entries with
  | nil => cases h
  | cons entry entries ih =>
    rw [exactRecordDuplicateFrom] at h
    split_ifs at h
    rcases Bool.or_eq_true_iff.mp h with heq | hrest
    · rw [of_decide_eq_true heq]
      exact List.mem_cons_self ..
    · exact List.mem_cons_of_mem _ (ih hrest)

theorem insertPos_le : insertPos entries record (basePos entries record) ≤ entries.length := by
  have hbase : basePos entries record ≤ entries.length := binarySearchBy_le _ entries
  have htake := (List.takeWhile_prefix (l := entries.drop (basePos entries record))
    fun entry => decide (entry.id.val ≤ record.id.val)).length_le
  rw [List.length_drop] at htake
  rw [insertPos]
  omega

theorem mem_of_placeOutOfOrder_none (h : placeOutOfOrder entries record = none) : record ∈ entries := by
  rw [placeOutOfOrder] at h
  split_ifs at h with hdup
  exact List.mem_of_mem_drop (mem_of_exactRecordDuplicateFrom hdup)

variable {x : TransactionRecord}

theorem mem_placeOutOfOrder (h : placeOutOfOrder entries record = some placed) :
    x ∈ placed ↔ x ∈ entries ∨ x = record := by
  rw [placeOutOfOrder] at h
  split_ifs at h
  rw [← Option.some.inj h, List.mem_insertIdx insertPos_le, or_comm]

theorem mem_place {batch : BatchState} :
    x ∈ (batch.place record).workingEntries ↔ x ∈ batch.workingEntries ∨ x = record := by
  rw [BatchState.place]
  split
  · rw [List.mem_append, List.mem_singleton]
  · cases hplace : placeOutOfOrder batch.workingEntries record with
    | none =>
      refine ⟨.inl, fun h => h.elim id fun heq => ?_⟩
      rw [heq]
      exact mem_of_placeOutOfOrder_none hplace
    | some placed => exact mem_placeOutOfOrder hplace

theorem mem_placeEntry : x ∈ placeEntry entries record ↔ x ∈ entries ∨ x = record := by
  rw [← place_workingEntries ⟨entries, false, false⟩ record]
  exact mem_place

theorem mem_mergeBatch : x ∈ (mergeBatch entries records).workingEntries ↔ x ∈ entries ∨ x ∈ records := by
  have hrun : ∀ (records : List TransactionRecord) (batch : BatchState),
      x ∈ (records.foldl BatchState.place batch).workingEntries ↔ x ∈ batch.workingEntries ∨ x ∈ records := by
    intro records
    induction records with
    | nil => simp
    | cons record records ih =>
      intro batch
      rw [List.foldl_cons, ih, mem_place, List.mem_cons, or_assoc]
  exact hrun records _

end

/-! ## Reading from a position -/

theorem entriesSince_append {before after : List TransactionRecord} {minId : TransactionId}
    (hbefore : ∀ entry ∈ before, entry.id.val ≤ minId.val) (hafter : ∀ entry ∈ after, minId.val < entry.id.val) :
    entriesSince (before ++ after) (some minId) = after := by
  rw [entriesSince, firstRecordIndexAfterId, partitionPoint_append (by simpa using hbefore) (by simpa using hafter),
    List.drop_left]

theorem entriesSince_of_sorted (h : SortedBy TransactionRecord.key entries) (minId : Option TransactionId) :
    entriesSince entries minId = entries.filter fun entry => minId.all (·.val < entry.id.val) := by
  cases minId with
  | none => simp [entriesSince]
  | some minId =>
    have hsplit := @atMost_append_above _ _ _ _ _ minId.val.toNat h
    have hbefore : ∀ entry ∈ atMost TransactionRecord.key minId.val.toNat entries, entry.id.val ≤ minId.val :=
      fun entry hentry => UInt64.le_iff_toNat_le.mpr (of_decide_eq_true (List.mem_filter.mp hentry).2)
    have hafter : ∀ entry ∈ above TransactionRecord.key minId.val.toNat entries, minId.val < entry.id.val :=
      fun entry hentry => UInt64.lt_iff_toNat_lt.mpr (of_decide_eq_true (List.mem_filter.mp hentry).2)
    conv_lhs => rw [← hsplit]
    rw [entriesSince_append hbefore hafter, above]
    exact List.filter_congr fun entry _ => decide_eq_decide.mpr UInt64.lt_iff_toNat_lt.symm

end DistDb.Wal
