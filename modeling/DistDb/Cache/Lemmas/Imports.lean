import DistDb.Cache.Lemmas.Writes
import DistDb.Cache.Stream
import DistDb.Execution.LimitedScan

/-! # Imported records -/

namespace DistDb.Cache
open Lib Wal Execution Mutation

variable {env : WriteEnv} {log : List TransactionRecord} {record : TransactionRecord}
  {records : List (TransactionRecord × Bool)}

theorem placeRecord_split (hsorted : SortedBy TransactionRecord.key log) (hnew : record.id ∉ log.map (·.id)) :
    ∃ pre post, log = pre ++ post ∧ placeRecord log record = pre ++ record :: post ∧
      (∀ x ∈ pre, x.key < record.key) ∧ ∀ x ∈ post, record.key < x.key := by
  let sorted : StreamLog := ⟨log, hsorted⟩
  have hdistinct : ∀ x ∈ log, x.key ≠ record.key := fun x hx heq =>
    hnew (List.mem_map.mpr ⟨x, hx, key_eq_iff.mp heq⟩)
  unfold placeRecord
  split
  · rename_i hordered
    have hbelow : ∀ x ∈ sorted.entries, x.key < record.key := isOrdered_iff.mp hordered
    exact ⟨log, [], by simp, rfl, hbelow, fun x hx => by cases hx⟩
  · obtain ⟨pre, post, hsplit, hpre, hpost, hpos, hdup⟩ := basePos_spec sorted record
    have hlog : log = pre ++ post := hsplit
    have hmem : record ∉ log := fun hmem => hdistinct record hmem rfl
    have hlatest : exactRecordDuplicateAtOrAfter log record (basePos log record) = false :=
      Bool.eq_false_iff.mpr fun htrue => hmem (hdup.mp htrue).mem
    have hplace : placeOutOfOrder log record = some (pre ++ record :: post) := by
      rw [placeOutOfOrder, hlatest]
      simp only [Bool.false_eq_true, ↓reduceIte, Option.some.injEq]
      rw [show insertPos log record (basePos log record) = pre.length from hpos, hlog, insertIdx_length_append]
    refine ⟨pre, post, hlog, by rw [hplace]; rfl, fun x hx => ?_, hpost⟩
    exact lt_of_le_of_ne (hpre x hx) (hdistinct x (hlog ▸ List.mem_append_left _ hx))

theorem inOrder_placeRecord (horder : InOrder log) (hnew : record.id ∉ log.map (·.id)) :
    InOrder (placeRecord log record) := by
  obtain ⟨pre, post, rfl, hplace, hpre, hpost⟩ := placeRecord_split (horder.imp Nat.le_of_lt) hnew
  obtain ⟨horderPre, horderPost, hbetween⟩ := List.pairwise_append.mp horder
  rw [hplace]
  refine List.pairwise_append.mpr ⟨horderPre, List.pairwise_cons.mpr ⟨hpost, horderPost⟩, fun x hx y hy => ?_⟩
  rcases List.mem_cons.mp hy with rfl | hy
  · exact hpre x hx
  · exact hbetween x hx y hy

theorem lastKey_le_placeRecord (horder : InOrder log) (hnew : record.id ∉ log.map (·.id)) :
    lastKey log ≤ lastKey (placeRecord log record) := by
  have horder' := inOrder_placeRecord horder hnew
  obtain ⟨pre, post, hlog, hplace, -, -⟩ := placeRecord_split (horder.imp Nat.le_of_lt) hnew
  rcases List.eq_nil_or_concat' log with hnil | ⟨init, last, hlast⟩
  · rw [hnil]
    exact Nat.zero_le _
  · rw [hlast, lastKey_concat, ← hlast]
    refine horder'.le_lastKey ?_
    have hmem : last ∈ pre ++ post := hlog ▸ hlast ▸ List.mem_append_right _ (List.mem_singleton_self _)
    rw [hplace]
    rcases List.mem_append.mp hmem with hmem | hmem
    · exact List.mem_append_left _ hmem
    · exact List.mem_append_right _ (List.mem_cons_of_mem _ hmem)

/-- Neither a row nor the end of a group, so the live rows stay. -/
def LeavesRows (record : TransactionRecord) : Prop :=
  ¬ ChangesRows record ∧ record.kind ≠ .writeCommit ∧ record.kind ≠ .writeAbort

theorem LeavesRows.recordEvent_eq (h : LeavesRows record) (schema : TableSchema) (groups : TerminalGroups) :
    recordEvent schema groups record = .skip :=
  recordEvent_eq_skip h.1

theorem LeavesRows.terminalGroups_eq (h : LeavesRows record) (pre post : List TransactionRecord) :
    terminalGroups (pre ++ record :: post) = terminalGroups (pre ++ post) := by
  have hnote : ∀ groups : TerminalGroups, groups.note record = groups := fun groups => by
    unfold TerminalGroups.note
    split
    · rename_i heq _
      exact absurd heq h.2.1
    · rename_i heq _
      exact absurd heq h.2.2
    · rfl
  simp only [terminalGroups, List.foldl_append, List.foldl_cons, hnote]

theorem LeavesRows.liveRows_eq (h : LeavesRows record) {pre post : List TransactionRecord}
    (horder : InOrder (pre ++ record :: post)) :
    liveRows env (pre ++ record :: post) = liveRows env (pre ++ post) := by
  have horder' : InOrder (pre ++ post) :=
    horder.sublist ((List.Sublist.refl _).append (List.sublist_cons_self ..))
  rw [Mutation.liveRows_eq horder, Mutation.liveRows_eq horder', logEvents, logEvents,
    h.terminalGroups_eq, List.map_append, List.map_cons, h.recordEvent_eq, live_append, List.map_append,
    live_append, deletedKeys_skip]
  rfl

/-! ## The loop -/

theorem importRecords_invariant {I : List TransactionRecord → Prop} (P : TransactionRecord → Prop)
    (hstep : ∀ log record, P record → record.id ∉ log.map (·.id) → I log → I (placeRecord log record))
    (hrecords : ∀ r ∈ records, P r.1) (h : I log) : I (importRecords log records).1 := by
  induction records generalizing log with
  | nil => exact h
  | cons r records ih =>
    obtain ⟨record, stored⟩ := r
    obtain ⟨hrecord, hrest⟩ := List.forall_mem_cons.mp hrecords
    unfold importRecords
    split
    · exact ih hrest h
    · rename_i hnew
      split
      · exact ih hrest (hstep log record hrecord hnew h)
      · exact h

theorem inOrder_importRecords (horder : InOrder log) : InOrder (importRecords log records).1 :=
  importRecords_invariant (fun _ => True) (fun _ _ _ hnew h => inOrder_placeRecord h hnew) (fun _ _ => trivial) horder

theorem lastKey_le_importRecords (horder : InOrder log) : lastKey log ≤ lastKey (importRecords log records).1 := by
  have h := importRecords_invariant (I := fun log' => InOrder log' ∧ lastKey log ≤ lastKey log')
    (fun _ => True) (fun log' record _ hnew h => ⟨inOrder_placeRecord h.1 hnew,
      h.2.trans (lastKey_le_placeRecord h.1 hnew)⟩) (fun r (_ : r ∈ records) => trivial)
    ⟨horder, Nat.le_refl _⟩
  exact h.2

theorem liveRows_importRecords (horder : InOrder log) (h : ∀ r ∈ records, LeavesRows r.1) :
    liveRows env (importRecords log records).1 = liveRows env log := by
  have hrun := importRecords_invariant (I := fun log' => InOrder log' ∧ liveRows env log' = liveRows env log) LeavesRows
    (fun log' record hleaves hnew hlog' => by
      have horder' := inOrder_placeRecord hlog'.1 hnew
      obtain ⟨pre, post, rfl, hplace, -, -⟩ := placeRecord_split (hlog'.1.imp Nat.le_of_lt) hnew
      rw [hplace] at horder' ⊢
      exact ⟨horder', (hleaves.liveRows_eq horder').trans hlog'.2⟩) h ⟨horder, rfl⟩
  exact hrun.2

end DistDb.Cache
