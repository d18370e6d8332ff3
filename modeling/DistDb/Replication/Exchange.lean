import DistDb.Replication.Streams

/-! # Two nodes exchange their records -/

namespace DistDb.Replication
open Lib Wal Cache Execution Mutation

structure Replicas where
  left : WalStreams
  right : WalStreams

inductive ExchangeStep where
  | toLeft (frames : List WalFrame)
  | toRight (frames : List WalFrame)

def importWalRecords (wal : WalStreams) (frames : List WalFrame) : WalStreams :=
  (importFrames wal (frames.map (·, true))).1

/-- The streams that belong to a database, and which of them are replicated. -/
structure ReplicatedDatabase where
  streamIds : List String
  replicable : String → Bool

namespace ReplicatedDatabase

variable (database : ReplicatedDatabase)

def exports (wal : WalStreams) : List WalFrame :=
  exportWalRecordsForDatabase database.streamIds database.replicable wal none none

/-- The stream belongs to the database and is not kept local. -/
def Replicates (streamId : String) : Prop := streamId ∈ database.streamIds ∧ database.replicable streamId = true

theorem mem_exports {wal : WalStreams} {frame : WalFrame} :
    frame ∈ database.exports wal ↔ database.Replicates frame.1 ∧ frame.2 ∈ wal frame.1 := by
  obtain ⟨streamId, record⟩ := frame
  simp only [exports, exportWalRecordsForDatabase, Replicates, List.mem_mergeSort, List.mem_flatMap, List.mem_filter,
    List.mem_map, Prod.mk.injEq, entriesSince, Option.elim_none]
  constructor
  · rintro ⟨_, hstream, _, hrecord, rfl, rfl⟩
    exact ⟨hstream, hrecord⟩
  · rintro ⟨hstream, hrecord⟩
    exact ⟨streamId, hstream, record, hrecord, rfl, rfl⟩

end ReplicatedDatabase

namespace ExchangeStep

def apply (replicas : Replicas) : ExchangeStep → Replicas
  | .toLeft frames => { replicas with left := importWalRecords replicas.left frames }
  | .toRight frames => { replicas with right := importWalRecords replicas.right frames }

/-- A batch has frames that the other node exports at the time, in any number and order. -/
def Exported (database : ReplicatedDatabase) (replicas : Replicas) : ExchangeStep → Prop
  | .toLeft frames => frames ⊆ database.exports replicas.right
  | .toRight frames => frames ⊆ database.exports replicas.left

end ExchangeStep

/-- Every record that a node has at the start arrives at the other. -/
structure ExchangesAll (database : ReplicatedDatabase) (replicas : Replicas) (steps : List ExchangeStep) : Prop where
  toLeft : ∀ frame ∈ database.exports replicas.right, ∃ frames, .toLeft frames ∈ steps ∧ frame ∈ frames
  toRight : ∀ frame ∈ database.exports replicas.left, ∃ frames, .toRight frames ∈ steps ∧ frame ∈ frames

/-- The records of an id at the two nodes: the same, or one record at one of them. -/
def Agree (own other : List TransactionRecord) : Prop :=
  own = other ∨ (own = [] ∧ other.length = 1) ∨ (own.length = 1 ∧ other = [])

/-! ## One node -/

variable {database : ReplicatedDatabase} {wal : WalStreams} {streamId : String} {frames : List WalFrame}

theorem handled_stored : handled wal (frames.map (·, true)) = frames := by
  induction frames generalizing wal with
  | nil => rfl
  | cons frame frames ih =>
    rw [List.map_cons, handled]
    split <;> simp [ih]

theorem recordsAt_importWalRecords (h : Sorted wal) (k : Nat) : recordsAt (importWalRecords wal frames) streamId k =
      if recordsAt wal streamId k = [] then
        ((frames.find? fun frame => frame.1 = streamId ∧ frame.2.key = k).map (·.2)).toList
      else recordsAt wal streamId k := by
  rw [importWalRecords, recordsAt_importFrames h, handled_stored]

def Follows (own other now : List TransactionRecord) : Prop :=
  (own ≠ [] → now = own) ∧ (own = [] → now = [] ∨ ∃ record ∈ other, now = [record])

theorem follows_start (own other : List TransactionRecord) : Follows own other own :=
  ⟨fun _ => rfl, fun h => .inl h⟩

theorem Follows.mem {own other now : List TransactionRecord} (h : Follows own other now) {record : TransactionRecord}
    (hmem : record ∈ now) : record ∈ own ∨ record ∈ other := by
  by_cases hown : own = []
  · rcases h.2 hown with rfl | ⟨r, hr, rfl⟩
    · cases hmem
    · rw [List.mem_singleton.mp hmem]
      exact .inr hr
  · exact .inl (h.1 hown ▸ hmem)

theorem Follows.arrive {own other now next : List TransactionRecord} {arrived : Option TransactionRecord}
    (h : Follows own other now) (harrived : ∀ record ∈ arrived, record ∈ other ∨ record ∈ own)
    (hnext : next = if now = [] then arrived.toList else now) : Follows own other next := by
  by_cases hnow : now = []
  · rw [if_pos hnow] at hnext
    refine ⟨fun hown => absurd ((h.1 hown).symm.trans hnow) hown, fun hown => ?_⟩
    cases harrival : arrived with
    | none =>
      rw [harrival] at hnext
      exact .inl hnext
    | some record =>
      rw [harrival] at hnext
      refine .inr ⟨record, ?_, hnext⟩
      exact (harrived record harrival).resolve_right (by simp [hown])
  · rw [if_neg hnow] at hnext
    rw [hnext]
    exact h

/-! ## Both nodes -/

structure Mixed (streamId : String) (start now : Replicas) : Prop where
  sortedLeft : Sorted now.left
  sortedRight : Sorted now.right
  left : ∀ k, Follows (recordsAt start.left streamId k) (recordsAt start.right streamId k)
    (recordsAt now.left streamId k)
  right : ∀ k,
    Follows (recordsAt start.right streamId k) (recordsAt start.left streamId k) (recordsAt now.right streamId k)

theorem sorted_importWalRecords (h : Sorted wal) : Sorted (importWalRecords wal frames) := sorted_importFrames h

theorem mem_recordsAt_of_find? {k : Nat} {source : WalStreams} (hframes : frames ⊆ database.exports source)
    {record : TransactionRecord}
    (h : record ∈ (frames.find? fun frame => frame.1 = streamId ∧ frame.2.key = k).map (·.2)) :
    record ∈ recordsAt source streamId k := by
  obtain ⟨frame, hfind, rfl⟩ := Option.map_eq_some_iff.mp h
  have hthis := List.find?_some hfind
  obtain ⟨rfl, rfl⟩ : frame.1 = streamId ∧ frame.2.key = k := by simpa using hthis
  exact mem_classOf.mpr ⟨(database.mem_exports.mp (hframes (List.mem_of_find?_eq_some hfind))).2, rfl⟩

theorem Mixed.apply {start now : Replicas} (h : Mixed streamId start now) {step : ExchangeStep}
    (hstep : step.Exported database now) : Mixed streamId start (step.apply now) := by
  cases step with
  | toLeft frames =>
    refine ⟨sorted_importWalRecords h.sortedLeft, h.sortedRight, fun k => ?_, h.right⟩
    exact (h.left k).arrive (fun record hrecord => (h.right k).mem (mem_recordsAt_of_find? hstep hrecord))
      (recordsAt_importWalRecords h.sortedLeft k)
  | toRight frames =>
    refine ⟨h.sortedLeft, sorted_importWalRecords h.sortedRight, h.left, fun k => ?_⟩
    exact (h.right k).arrive (fun record hrecord => (h.left k).mem (mem_recordsAt_of_find? hstep hrecord))
      (recordsAt_importWalRecords h.sortedRight k)

theorem recordsAt_importWalRecords_ne_nil (h : Sorted wal) {k : Nat}
    (hthere : recordsAt wal streamId k ≠ [] ∨ ∃ frame ∈ frames, frame.1 = streamId ∧ frame.2.key = k) :
    recordsAt (importWalRecords wal frames) streamId k ≠ [] := by
  rw [recordsAt_importWalRecords h]
  split
  · rename_i hnil
    obtain ⟨frame, hmem, hthis⟩ := hthere.resolve_left (not_not.mpr hnil)
    have hsome : (frames.find? fun frame => frame.1 = streamId ∧ frame.2.key = k).isSome = true :=
      List.find?_isSome.mpr ⟨frame, hmem, by simpa using hthis⟩
    obtain ⟨found, hfound⟩ := Option.isSome_iff_exists.mp hsome
    rw [hfound]
    exact List.cons_ne_nil _ _
  · assumption

theorem arrives_left {now : Replicas} {steps : List ExchangeStep} {k : Nat} (hleft : Sorted now.left)
    (hthere : recordsAt now.left streamId k ≠ [] ∨
      ∃ frames, .toLeft frames ∈ steps ∧ ∃ frame ∈ frames, frame.1 = streamId ∧ frame.2.key = k) :
    recordsAt (runFrom ExchangeStep.apply now steps).left streamId k ≠ [] := by
  induction steps generalizing now with
  | nil => simpa using hthere
  | cons step steps ih =>
    rw [runFrom_cons]
    cases step with
    | toLeft frames =>
      refine ih (sorted_importWalRecords hleft) ?_
      rcases hthere with hthere | ⟨frames', hframes', harrived⟩
      · exact .inl (recordsAt_importWalRecords_ne_nil hleft (.inl hthere))
      · rcases List.mem_cons.mp hframes' with heq | hrest
        · cases heq
          exact .inl (recordsAt_importWalRecords_ne_nil hleft (.inr harrived))
        · exact .inr ⟨frames', hrest, harrived⟩
    | toRight frames =>
      refine ih hleft ?_
      rcases hthere with hthere | ⟨frames', hframes', harrived⟩
      · exact .inl hthere
      · rcases List.mem_cons.mp hframes' with heq | hrest
        · cases heq
        · exact .inr ⟨frames', hrest, harrived⟩

/-! ## Exchanging sides -/

def Replicas.swap (replicas : Replicas) : Replicas := ⟨replicas.right, replicas.left⟩

def ExchangeStep.swap : ExchangeStep → ExchangeStep
  | .toLeft frames => .toRight frames
  | .toRight frames => .toLeft frames

theorem runFrom_swap (now : Replicas) (steps : List ExchangeStep) :
    runFrom ExchangeStep.apply now.swap (steps.map ExchangeStep.swap) =
      (runFrom ExchangeStep.apply now steps).swap := by
  induction steps generalizing now with
  | nil => rfl
  | cons step steps ih =>
    rw [List.map_cons, runFrom_cons, runFrom_cons, ← ih]
    cases step <;> rfl

theorem arrives_right {now : Replicas} {steps : List ExchangeStep} {k : Nat} (hright : Sorted now.right)
    (hthere : recordsAt now.right streamId k ≠ [] ∨
      ∃ frames, .toRight frames ∈ steps ∧ ∃ frame ∈ frames, frame.1 = streamId ∧ frame.2.key = k) :
    recordsAt (runFrom ExchangeStep.apply now steps).right streamId k ≠ [] := by
  have hswapped : recordsAt (runFrom ExchangeStep.apply now.swap (steps.map ExchangeStep.swap)).left streamId k ≠ [] :=
    arrives_left hright (hthere.imp_right fun ⟨frames, hframes, harrived⟩ =>
      ⟨frames, List.mem_map.mpr ⟨.toRight frames, hframes, rfl⟩, harrived⟩)
  rwa [runFrom_swap] at hswapped

/-! ## The end -/

theorem Agree.symm {own other : List TransactionRecord} (h : Agree own other) : Agree other own := by
  rcases h with rfl | ⟨hown, hother⟩ | ⟨hown, hother⟩
  · exact .inl rfl
  · exact .inr (.inr ⟨hother, hown⟩)
  · exact .inr (.inl ⟨hother, hown⟩)

theorem eq_iff_agree_of_nil {own other now now' : List TransactionRecord} (h : Follows own other now)
    (h' : Follows other own now') (hown : own = []) (hother : other ≠ []) (harrived : now ≠ []) :
    now = now' ↔ Agree own other := by
  obtain ⟨record, hrecord, rfl⟩ := (h.2 hown).resolve_left harrived
  rw [h'.1 hother, Agree]
  constructor
  · intro heq
    exact .inr (.inl ⟨hown, by simp [← heq]⟩)
  · intro hagree
    rcases hagree with heq | ⟨-, hlength⟩ | ⟨-, heq⟩
    · exact absurd (heq.symm.trans hown) hother
    · obtain ⟨only, rfl⟩ := List.length_eq_one_iff.mp hlength
      rw [List.mem_singleton.mp hrecord]
    · exact absurd heq hother

theorem eq_iff_agree {own other now now' : List TransactionRecord} (h : Follows own other now)
    (h' : Follows other own now') (harrived : other ≠ [] → now ≠ []) (harrived' : own ≠ [] → now' ≠ []) :
    now = now' ↔ Agree own other := by
  by_cases hown : own = []
  · by_cases hother : other = []
    · subst hown hother
      have hnow : now = [] := (h.2 rfl).resolve_right (by simp)
      have hnow' : now' = [] := (h'.2 rfl).resolve_right (by simp)
      simp [hnow, hnow', Agree]
    · exact eq_iff_agree_of_nil h h' hown hother (harrived hother)
  · by_cases hother : other = []
    · rw [eq_comm, eq_iff_agree_of_nil h' h hother hown (harrived' hown)]
      exact ⟨Agree.symm, Agree.symm⟩
    · rw [h.1 hown, h'.1 hother]
      simp [Agree, hown, hother]

/-- The streams of a replicated table are equal at the two nodes. -/
structure Converged (streamId : String) (replicas : Replicas) : Prop where
  entries : replicas.left streamId = replicas.right streamId
  rows : ∀ env : WriteEnv, liveRows env (replicas.left streamId) = liveRows env (replicas.right streamId)

/-- After an exchange of all records, in whatever batches and order, a stream is the same at both nodes if and only
if at the start the records of every id were the same at both nodes or there was one of them at one node. -/
theorem replicas_converge_iff (database : ReplicatedDatabase) (start : Replicas) (hleft : Sorted start.left)
    (hright : Sorted start.right) (streamId : String) (hstream : database.Replicates streamId)
    (steps : List ExchangeStep) (hrun : Along ExchangeStep.apply (ExchangeStep.Exported database) start steps)
    (hall : ExchangesAll database start steps) :
    Converged streamId (runFrom ExchangeStep.apply start steps) ↔
      ∀ k, Agree (recordsAt start.left streamId k) (recordsAt start.right streamId k) := by
  have hmixed : Mixed streamId start (runFrom ExchangeStep.apply start steps) :=
    hrun.invariant (fun now step hstep h => h.apply hstep)
      ⟨hleft, hright, fun k => follows_start _ _, fun k => follows_start _ _⟩
  have hagree : ∀ k, recordsAt (runFrom ExchangeStep.apply start steps).left streamId k =
      recordsAt (runFrom ExchangeStep.apply start steps).right streamId k ↔
        Agree (recordsAt start.left streamId k) (recordsAt start.right streamId k) := by
    intro k
    refine eq_iff_agree (hmixed.left k) (hmixed.right k) (fun hne => ?_) fun hne => ?_
    · obtain ⟨record, hrecord⟩ := List.exists_mem_of_ne_nil _ hne
      obtain ⟨hmem, rfl⟩ := mem_classOf.mp hrecord
      obtain ⟨frames, hframes, hframe⟩ := hall.toLeft (streamId, record) (database.mem_exports.mpr ⟨hstream, hmem⟩)
      exact arrives_left hleft (.inr ⟨frames, hframes, _, hframe, rfl, rfl⟩)
    · obtain ⟨record, hrecord⟩ := List.exists_mem_of_ne_nil _ hne
      obtain ⟨hmem, rfl⟩ := mem_classOf.mp hrecord
      obtain ⟨frames, hframes, hframe⟩ := hall.toRight (streamId, record) (database.mem_exports.mpr ⟨hstream, hmem⟩)
      exact arrives_right hright (.inr ⟨frames, hframes, _, hframe, rfl, rfl⟩)
  rw [← forall_congr' hagree]
  constructor
  · intro h k
    rw [recordsAt, recordsAt, h.entries]
  · intro h
    have hentries := eq_of_classOf_eq (hmixed.sortedLeft streamId) (hmixed.sortedRight streamId) h
    exact ⟨hentries, fun env => by rw [hentries]⟩

def tableDatabase : ReplicatedDatabase := ⟨["d:t"], fun _ => true⟩

def tableStream (records : List TransactionRecord) : WalStreams := fun streamId =>
  if streamId = "d:t" then records else []

def insertedRow (id : UInt64) (key : Bytes) : TransactionRecord :=
  ⟨⟨id⟩, none, none, 0, ⟨"server"⟩, .insert, some (keyedEnv.encode (keyedRow key [1]))⟩

theorem sorted_tableStream (record : TransactionRecord) : Sorted (tableStream [record]) := by
  intro streamId
  unfold tableStream
  split
  · exact List.pairwise_singleton ..
  · exact List.Pairwise.nil

theorem mem_exports_tableStream {records : List TransactionRecord} {frame : WalFrame} :
    frame ∈ tableDatabase.exports (tableStream records) ↔ frame.1 = "d:t" ∧ frame.2 ∈ records := by
  rw [ReplicatedDatabase.mem_exports]
  simp only [ReplicatedDatabase.Replicates, tableDatabase, List.mem_singleton, and_true, tableStream]
  constructor
  · rintro ⟨hstream, hmem⟩
    rw [if_pos hstream] at hmem
    exact ⟨hstream, hmem⟩
  · rintro ⟨hstream, hmem⟩
    exact ⟨hstream, by rwa [if_pos hstream]⟩

def sendBoth (left right : TransactionRecord) : List ExchangeStep :=
  [.toLeft [("d:t", right)], .toRight [("d:t", left)]]

theorem exchangesAll_sendBoth (left right : TransactionRecord) :
    ExchangesAll tableDatabase ⟨tableStream [left], tableStream [right]⟩ (sendBoth left right) := by
  constructor
  · rintro ⟨streamId, record⟩ hframe
    obtain ⟨rfl, hrecord⟩ := mem_exports_tableStream.mp hframe
    exact ⟨_, List.mem_cons_self, by simpa using hrecord⟩
  · rintro ⟨streamId, record⟩ hframe
    obtain ⟨rfl, hrecord⟩ := mem_exports_tableStream.mp hframe
    exact ⟨_, List.mem_cons_of_mem _ List.mem_cons_self, by simpa using hrecord⟩

theorem exported_sendBoth {left right : TransactionRecord}
    (hleft : left ∈ importWalRecords (tableStream [left]) [("d:t", right)] "d:t") :
    Along ExchangeStep.apply (ExchangeStep.Exported tableDatabase) ⟨tableStream [left], tableStream [right]⟩
      (sendBoth left right) := by
  refine ⟨?_, ?_, trivial⟩
  · rintro frame hframe
    rw [List.mem_singleton.mp hframe]
    exact mem_exports_tableStream.mpr ⟨rfl, List.mem_singleton_self _⟩
  · rintro frame hframe
    rw [List.mem_singleton.mp hframe]
    exact tableDatabase.mem_exports.mpr ⟨⟨List.mem_singleton_self _, rfl⟩, hleft⟩

theorem different_ids_converge : Converged "d:t" (runFrom ExchangeStep.apply
    ⟨tableStream [insertedRow 1 [97]], tableStream [insertedRow 2 [98]]⟩
    (sendBoth (insertedRow 1 [97]) (insertedRow 2 [98]))) := by
  refine (replicas_converge_iff tableDatabase _ (sorted_tableStream _) (sorted_tableStream _) "d:t"
    ⟨List.mem_singleton_self _, rfl⟩ _ (exported_sendBoth (by decide +kernel)) (exchangesAll_sendBoth _ _)).mpr
    fun k => ?_
  have hrecords : ∀ record, recordsAt (tableStream [record]) "d:t" k = if record.key = k then [record] else [] :=
    fun record => classOf_cons
  have hkeys : (insertedRow 1 [97]).key ≠ (insertedRow 2 [98]).key := by decide
  rw [hrecords, hrecords]
  by_cases hleft : (insertedRow 1 [97]).key = k
  · rw [if_pos hleft, if_neg fun h => hkeys (hleft.trans h.symm)]
    exact .inr (.inr ⟨rfl, rfl⟩)
  · rw [if_neg hleft]
    by_cases hright : (insertedRow 2 [98]).key = k
    · rw [if_pos hright]
      exact .inr (.inl ⟨rfl, rfl⟩)
    · rw [if_neg hright]
      exact .inl rfl

/-- Both nodes number their first record 1; each keeps its own. -/
theorem same_ids_diverge :
    let left := insertedRow 1 [97]
    let right := insertedRow 1 [98]
    let start : Replicas := ⟨tableStream [left], tableStream [right]⟩
    let final := runFrom ExchangeStep.apply start (sendBoth left right)
    Along ExchangeStep.apply (ExchangeStep.Exported tableDatabase) start (sendBoth left right) ∧
      ExchangesAll tableDatabase start (sendBoth left right) ∧
      final.left "d:t" = [left] ∧ final.right "d:t" = [right] ∧
      liveRows keyedEnv (final.left "d:t") = [(1, keyedRow [97] [1])] ∧
      liveRows keyedEnv (final.right "d:t") = [(1, keyedRow [98] [1])] := by
  refine ⟨exported_sendBoth (by decide +kernel), exchangesAll_sendBoth _ _, ?_, ?_, ?_, ?_⟩ <;> decide +kernel

end DistDb.Replication
