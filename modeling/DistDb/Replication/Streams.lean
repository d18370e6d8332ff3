import DistDb.Cache.Lemmas.Imports

/-! # Records of other nodes

What a node exports of its streams, and the import of records that another node has exported. -/

namespace DistDb.Replication
open Lib Wal Cache

abbrev WalStreams := String → List TransactionRecord

abbrev WalFrame := String × TransactionRecord

/-! ## Export -/

def frameLe (a b : WalFrame) : Bool :=
  a.2.timestampEpochMs < b.2.timestampEpochMs ||
    (a.2.timestampEpochMs == b.2.timestampEpochMs && decide (a.2.id.val ≤ b.2.id.val))

/-- `export_wal_records_for_database`, for the stream of the database and those of its tables. A map of cursors
counts instead of the one cursor, also where it has none for a stream. -/
def exportWalRecordsForDatabase (streamIds : List String) (replicable : String → Bool) (wal : WalStreams)
    (start : Option TransactionId) (startByStream : Option (Finmap fun _ : String => TransactionId)) :
    List WalFrame :=
  ((streamIds.filter replicable).flatMap fun streamId =>
    (entriesSince (wal streamId)
      (startByStream.elim start fun starts => starts.lookup streamId)).map (streamId, ·)).mergeSort frameLe

/-! ## Import -/

def hasId (wal : WalStreams) (frame : WalFrame) : Prop := frame.2.id ∈ (wal frame.1).map (·.id)

instance (wal : WalStreams) (frame : WalFrame) : Decidable (hasId wal frame) :=
  inferInstanceAs (Decidable (_ ∈ _))

def place (wal : WalStreams) (frame : WalFrame) : WalStreams :=
  Function.update wal frame.1 (placeRecord (wal frame.1) frame.2)

/-- The loop of `import_wal_records`; each frame comes with whether its append succeeds. The ids that are known of a
stream are those of its records. -/
def importFrames (wal : WalStreams) : List (WalFrame × Bool) → WalStreams × Bool
  | [] => (wal, true)
  | (frame, stored) :: frames =>
    if hasId wal frame then importFrames wal frames
    else if stored then importFrames (place wal frame) frames
    else (wal, false)

def handled (wal : WalStreams) : List (WalFrame × Bool) → List WalFrame
  | [] => []
  | (frame, stored) :: frames =>
    if hasId wal frame then frame :: handled wal frames
    else if stored then frame :: handled (place wal frame) frames
    else []

/-! ## Streams after an import -/

variable {wal : WalStreams} {frame : WalFrame} {frames : List (WalFrame × Bool)} {streamId : String}

def recordsAt (wal : WalStreams) (streamId : String) (k : Nat) : List TransactionRecord :=
  classOf TransactionRecord.key k (wal streamId)

/-- Every stream is in the order of its ids. -/
def Sorted (wal : WalStreams) : Prop := ∀ streamId, SortedBy TransactionRecord.key (wal streamId)

theorem recordsAt_ne_nil_iff : recordsAt wal frame.1 frame.2.key ≠ [] ↔ hasId wal frame := by
  rw [recordsAt, hasId, List.mem_map]
  constructor
  · intro h
    obtain ⟨record, hrecord⟩ := List.exists_mem_of_ne_nil _ h
    obtain ⟨hmem, hkey⟩ := mem_classOf.mp hrecord
    exact ⟨record, hmem, key_eq_iff.mp hkey⟩
  · rintro ⟨record, hmem, hid⟩
    exact List.ne_nil_of_mem (mem_classOf.mpr ⟨hmem, key_eq_iff.mpr hid⟩)

theorem sorted_place (h : Sorted wal) (hnew : ¬ hasId wal frame) : Sorted (place wal frame) := by
  intro streamId
  by_cases hstream : streamId = frame.1
  · subst hstream
    rw [place, Function.update_self]
    obtain ⟨pre, post, hlog, hplace, hpre, hpost⟩ := placeRecord_split (h frame.1) hnew
    have hsorted := h frame.1
    rw [hlog] at hsorted
    obtain ⟨hsortedPre, hsortedPost, hbetween⟩ := List.pairwise_append.mp hsorted
    rw [hplace]
    refine List.pairwise_append.mpr ⟨hsortedPre, List.pairwise_cons.mpr ⟨fun x hx => (hpost x hx).le, hsortedPost⟩, ?_⟩
    intro x hx y hy
    rcases List.mem_cons.mp hy with rfl | hy
    · exact (hpre x hx).le
    · exact hbetween x hx y hy
  · rw [place, Function.update_of_ne hstream]
    exact h streamId

theorem recordsAt_place (h : Sorted wal) (hnew : ¬ hasId wal frame) (k : Nat) : recordsAt (place wal frame) streamId k =
      if streamId = frame.1 ∧ frame.2.key = k then [frame.2] else recordsAt wal streamId k := by
  unfold recordsAt place
  by_cases hstream : streamId = frame.1
  · subst hstream
    obtain ⟨pre, post, hlog, hplace, -, -⟩ := placeRecord_split (h frame.1) hnew
    rw [Function.update_self, hplace, hlog, classOf_append, classOf_cons, classOf_append]
    by_cases hk : frame.2.key = k
    · have hnone : classOf TransactionRecord.key k (pre ++ post) = [] := by
        rw [← hlog, ← hk]
        exact not_not.mp fun hne => hnew (recordsAt_ne_nil_iff.mp hne)
      rw [classOf_append, List.append_eq_nil_iff] at hnone
      simp [hk, hnone.1, hnone.2]
    · simp [hk]
  · rw [Function.update_of_ne hstream, if_neg fun h => hstream h.1]

theorem sorted_importFrames (h : Sorted wal) : Sorted (importFrames wal frames).1 := by
  induction frames generalizing wal with
  | nil => exact h
  | cons f frames ih =>
    obtain ⟨frame, stored⟩ := f
    unfold importFrames
    split
    · exact ih h
    · rename_i hnew
      split
      · exact ih (sorted_place h hnew)
      · exact h

/-- An import keeps the records of an id that it finds, and else takes the first that comes. -/
theorem recordsAt_importFrames (h : Sorted wal) (k : Nat) : recordsAt (importFrames wal frames).1 streamId k =
      if recordsAt wal streamId k = [] then
        (((handled wal frames).find? fun frame => frame.1 = streamId ∧ frame.2.key = k).map (·.2)).toList
      else recordsAt wal streamId k := by
  induction frames generalizing wal with
  | nil => simp [importFrames, handled]
  | cons f frames ih =>
    obtain ⟨frame, stored⟩ := f
    unfold importFrames handled
    by_cases hknown : hasId wal frame
    · rw [if_pos hknown, if_pos hknown, ih h]
      by_cases hnil : recordsAt wal streamId k = []
      · have hother : ¬(frame.1 = streamId ∧ frame.2.key = k) := by
          rintro ⟨rfl, rfl⟩
          exact recordsAt_ne_nil_iff.mpr hknown hnil
        rw [if_pos hnil, if_pos hnil, List.find?_cons_of_neg (by simpa using hother)]
      · rw [if_neg hnil, if_neg hnil]
    · rw [if_neg hknown, if_neg hknown]
      cases stored with
      | false => simp
      | true =>
        simp only [↓reduceIte]
        rw [ih (sorted_place h hknown), recordsAt_place h hknown]
        by_cases hthis : streamId = frame.1 ∧ frame.2.key = k
        · obtain ⟨rfl, rfl⟩ := hthis
          have hnil : recordsAt wal frame.1 frame.2.key = [] := not_not.mp fun hne =>
            hknown (recordsAt_ne_nil_iff.mp hne)
          simp [hnil]
        · have hother : ¬(frame.1 = streamId ∧ frame.2.key = k) := fun h => hthis ⟨h.1.symm, h.2⟩
          rw [if_neg hthis, List.find?_cons_of_neg (by simpa using hother)]

end DistDb.Replication
