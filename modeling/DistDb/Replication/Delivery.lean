import DistDb.Replication.Exchange
import DistDb.Wal.Lemmas.Durability

/-! # What is exported, and what arrives

An export against the cursors of the streams, and imports in any batches. Both rest on the order of a stream's ids. -/

namespace DistDb.Replication
open Lib Wal Cache

/-! ## Export -/

/-- Up to some place the ids are not above the cursor, and behind it they are. -/
def Partitioned (log : List TransactionRecord) (cursor : TransactionId) : Prop :=
  ∃ pre post, log = pre ++ post ∧ (∀ record ∈ pre, record.id.val ≤ cursor.val) ∧
    ∀ record ∈ post, cursor.val < record.id.val

def above (cursor : Option TransactionId) (record : TransactionRecord) : Bool := cursor.all (·.val < record.id.val)

variable {log : List TransactionRecord} {cursor : Option TransactionId}

theorem since_eq_filter (h : ∀ id ∈ cursor, Partitioned log id) :
    entriesSince log cursor = log.filter (above cursor) := by
  cases cursor with
  | none => exact (List.filter_eq_self.mpr fun _ _ => rfl).symm
  | some id =>
    obtain ⟨pre, post, rfl, hpre, hpost⟩ := h id rfl
    have hnone : pre.filter (above (some id)) = [] := by
      simpa [above] using hpre
    have hall : post.filter (above (some id)) = post := by
      simpa [above] using hpost
    rw [entriesSince_append hpre hpost, List.filter_append, hnone, hall, List.nil_append]

theorem partitioned_of_since_eq (h : entriesSince log cursor = log.filter (above cursor)) :
    ∀ id ∈ cursor, Partitioned log id := by
  rintro id ⟨⟩
  rw [entriesSince] at h
  generalize firstRecordIndexAfterId log id = n at h
  have hpost : ∀ record ∈ log.drop n, id.val < record.id.val := by
    intro record hrecord
    rw [h] at hrecord
    simpa [above] using (List.mem_filter.mp hrecord).2
  have hall : (log.drop n).filter (above (some id)) = log.drop n := by
    simpa [above] using hpost
  have hnone : (log.take n).filter (above (some id)) = [] := by
    have happend := congrArg (List.filter (above (some id))) (List.take_append_drop n log)
    rw [List.filter_append, hall, ← h] at happend
    exact List.append_left_eq_self.mp happend
  exact ⟨log.take n, log.drop n, (List.take_append_drop n log).symm, by simpa [above] using hnone, hpost⟩

theorem since_sublist (h : ∀ record ∈ entriesSince log cursor, above cursor record = true) :
    (entriesSince log cursor).Sublist (log.filter (above cursor)) := by
  have hsublist : (entriesSince log cursor).Sublist log := by
    cases cursor with
    | none => exact List.Sublist.refl _
    | some id => exact List.drop_sublist _ _
  have hfilter := hsublist.filter (above cursor)
  rwa [List.filter_eq_self.mpr h] at hfilter

theorem eq_of_length_flatMap {α β : Type*} {f g : α → List β} {xs : List α} (h : ∀ x ∈ xs, (f x).Sublist (g x))
    (hlength : (xs.flatMap f).length = (xs.flatMap g).length) : ∀ x ∈ xs, f x = g x := by
  induction xs with
  | nil => simp
  | cons x xs ih =>
    obtain ⟨hx, hxs⟩ := List.forall_mem_cons.mp h
    have hrest : (xs.flatMap f).length ≤ (xs.flatMap g).length := by
      rw [List.length_flatMap, List.length_flatMap]
      exact List.sum_le_sum fun y hy => (hxs y hy).length_le
    have hhead := hx.length_le
    simp only [List.flatMap_cons, List.length_append] at hlength
    exact List.forall_mem_cons.mpr ⟨hx.eq_of_length (by omega), ih hxs (by omega)⟩

/-- A database exports the records of its replicated streams that are above the cursors, each with its stream, if and
only if every such stream is partitioned at its cursor. -/
theorem export_complete_iff (streamIds : List String) (replicable : String → Bool) (wal : WalStreams)
    (start : Option TransactionId) (startByStream : Option (Finmap fun _ : String => TransactionId)) :
    let cursor : String → Option TransactionId := fun streamId =>
      startByStream.elim start fun starts => starts.lookup streamId
    (exportWalRecordsForDatabase streamIds replicable wal start startByStream).Perm
        ((streamIds.filter replicable).flatMap fun streamId =>
          ((wal streamId).filter (above (cursor streamId))).map (streamId, ·)) ↔
      ∀ streamId ∈ streamIds, replicable streamId = true → ∀ id ∈ cursor streamId, Partitioned (wal streamId) id := by
  intro cursor
  rw [exportWalRecordsForDatabase, (List.mergeSort_perm _ _).congr_left]
  constructor
  · intro hperm streamId hstream hreplicable
    have habove : ∀ streamId ∈ streamIds.filter replicable, ∀ record ∈ entriesSince (wal streamId) (cursor streamId),
        above (cursor streamId) record = true := by
      intro streamId hstream record hrecord
      have hframe := hperm.subset (List.mem_flatMap.mpr ⟨streamId, hstream, List.mem_map_of_mem hrecord⟩)
      obtain ⟨_, -, hframe⟩ := List.mem_flatMap.mp hframe
      obtain ⟨_, hfiltered, heq⟩ := List.mem_map.mp hframe
      obtain ⟨rfl, rfl⟩ := Prod.mk.inj heq
      exact (List.mem_filter.mp hfiltered).2
    have heq := eq_of_length_flatMap (fun streamId hstream => (since_sublist (habove streamId hstream)).map _)
      hperm.length_eq streamId (List.mem_filter.mpr ⟨hstream, hreplicable⟩)
    exact partitioned_of_since_eq (List.map_injective_iff.mpr (Prod.mk_right_injective streamId) heq)
  · intro h
    refine .of_eq (List.flatMap_congr fun streamId hstream => ?_)
    obtain ⟨hmem, hreplicable⟩ := List.mem_filter.mp hstream
    rw [← since_eq_filter (h streamId hmem hreplicable)]

def afterRestart (appends : List (UInt64 × Bool)) : List TransactionRecord :=
  (runFrom (Stream.next (.unset .plain)) Stream.fresh (appends.map fun (id, synced) =>
    (.append (insertedRow id [97]) default, { StreamIo.success with sync := synced }))).rehydrated (.unset .plain)

/-- The record 9 was refused and is in the file, before the records that came after it. The search passes over it, or
stops at it and takes the record 3 along. -/
theorem unordered_export_wrong :
    let sent (appends : List (UInt64 × Bool)) := exportWalRecordsForDatabase ["d:t"] (fun _ => true)
      (tableStream (afterRestart appends)) (some ⟨5⟩) none
    sent [(1, true), (9, false), (3, true), (4, true)] = [] ∧
      ("d:t", insertedRow 3 [97]) ∈ sent [(1, true), (9, false), (3, true)] := by
  intro sent
  have hpassed : entriesSince (afterRestart [(1, true), (9, false), (3, true), (4, true)]) (some ⟨5⟩) = [] := by
    decide +kernel
  have htaken : insertedRow 3 [97] ∈ entriesSince (afterRestart [(1, true), (9, false), (3, true)]) (some ⟨5⟩) := by
    decide +kernel
  constructor
  · simp [sent, exportWalRecordsForDatabase, tableStream, hpassed]
  · simpa [sent, exportWalRecordsForDatabase, tableStream] using htaken

/-! ## Import -/

variable {wal : WalStreams}

theorem importWalRecords_append (frames frames' : List WalFrame) :
    importWalRecords wal (frames ++ frames') = importWalRecords (importWalRecords wal frames) frames' := by
  induction frames generalizing wal with
  | nil => rfl
  | cons frame frames ih =>
    simp only [importWalRecords, List.cons_append, List.map_cons, importFrames, ↓reduceIte] at ih ⊢
    split
    · exact ih
    · exact ih

theorem runFrom_importWalRecords (batches : List (List WalFrame)) :
    runFrom importWalRecords wal batches = importWalRecords wal batches.flatten := by
  induction batches generalizing wal with
  | nil => rfl
  | cons frames batches ih => rw [runFrom_cons, ih, List.flatten_cons, importWalRecords_append]

theorem find?_congr_of_unique {α : Type*} {p : α → Bool} {xs ys : List α} (hsame : ∀ x, x ∈ xs ↔ x ∈ ys)
    (hunique : ∀ x ∈ ys, ∀ y ∈ ys, p x = true → p y = true → x = y) : xs.find? p = ys.find? p := by
  cases hfound : xs.find? p with
  | none =>
    rw [List.find?_eq_none] at hfound
    exact (List.find?_eq_none.mpr fun y hy => hfound y ((hsame y).mpr hy)).symm
  | some x =>
    have hx := (hsame x).mp (List.mem_of_find?_eq_some hfound)
    have hsome := List.find?_some hfound
    have hisSome : (ys.find? p).isSome = true := List.find?_isSome.mpr ⟨x, hx, hsome⟩
    obtain ⟨y, hy⟩ := Option.isSome_iff_exists.mp hisSome
    rw [hy, hunique x hx y (List.mem_of_find?_eq_some hy) hsome (List.find?_some hy)]

/-- Frames with distinct ids that arrive in any batches, in any order and any number of times each, leave what
one import of them leaves. -/
theorem import_order_insensitive (wal : WalStreams) (h : Sorted wal) (frames : List WalFrame)
    (hids : (frames.map fun frame => (frame.1, frame.2.id)).Nodup) (batches : List (List WalFrame))
    (hsame : ∀ frame, frame ∈ batches.flatten ↔ frame ∈ frames) :
    runFrom importWalRecords wal batches = importWalRecords wal frames := by
  rw [runFrom_importWalRecords]
  funext streamId
  refine eq_of_classOf_eq (sorted_importWalRecords h streamId) (sorted_importWalRecords h streamId) fun k => ?_
  have hfind : batches.flatten.find? (fun frame => decide (frame.1 = streamId ∧ frame.2.key = k)) =
      frames.find? (fun frame => decide (frame.1 = streamId ∧ frame.2.key = k)) := by
    refine find?_congr_of_unique hsame fun frame hframe other hother hthis hthat => ?_
    obtain ⟨hstream, hkey⟩ := of_decide_eq_true hthis
    obtain ⟨hstream', hkey'⟩ := of_decide_eq_true hthat
    refine List.inj_on_of_nodup_map hids hframe hother (Prod.ext (hstream.trans hstream'.symm) ?_)
    exact key_eq_iff.mp (hkey.trans hkey'.symm)
  calc recordsAt (importWalRecords wal batches.flatten) streamId k
      _ = _ := recordsAt_importWalRecords h k
      _ = _ := by rw [hfind]
      _ = recordsAt (importWalRecords wal frames) streamId k := (recordsAt_importWalRecords h k).symm

theorem repeated_batches_same :
    let wal := tableStream [insertedRow 3 [97]]
    let frames := [("d:t", insertedRow 1 [98]), ("d:t", insertedRow 7 [99])]
    (∀ frame, frame ∈ [frames.reverse, [], frames].flatten ↔ frame ∈ frames) ∧
      runFrom importWalRecords wal [frames.reverse, [], frames] = importWalRecords wal frames := by
  intro wal frames
  have hsame : ∀ frame, frame ∈ [frames.reverse, [], frames].flatten ↔ frame ∈ frames := by simp
  exact ⟨hsame, import_order_insensitive wal (sorted_tableStream _) frames (by decide +kernel) _ hsame⟩

/-- The records 5 and 10 come to a stream in which the record 9 stands before the record 3. -/
theorem unordered_import_depends :
    let wal := tableStream (afterRestart [(1, true), (2, true), (9, false), (3, true)])
    let five := ("d:t", insertedRow 5 [97])
    let ten := ("d:t", insertedRow 10 [97])
    (runFrom importWalRecords wal [[five], [ten]] "d:t").map (·.id.val) = [1, 2, 9, 3, 5, 10] ∧
      (runFrom importWalRecords wal [[ten], [five]] "d:t").map (·.id.val) = [1, 2, 5, 9, 3, 10] := by
  decide +kernel

end DistDb.Replication
