import DistDb.Replication.Exchange

/-! # Catching up with peers

A node asks its peers for the records after its cursors, imports what they answer, and moves the cursors. -/

namespace DistDb.Replication
open Lib Wal

/-! ## Rounds -/

structure OfferedFrame where
  frame : WalFrame
  decodes : Bool
  stored : Bool

/-- The answers of the peers that were asked, and how the import goes: whether the database can be locked, and whether
the catalogs replay and the lock is given back. -/
structure Round where
  responses : List (List OfferedFrame)
  locks : Bool
  finishes : Bool

namespace Round

variable (round : Round)

def offered : List OfferedFrame := round.responses.flatten

def decoded : List OfferedFrame := round.offered.filter (·.decodes)

end Round

abbrev Cursors := Finmap fun _ : String => TransactionId

def maxSeenByStream (frames : List WalFrame) : Cursors :=
  frames.foldl (fun cursors frame =>
    match cursors.lookup frame.1 with
    | some current => if current.val < frame.2.id.val then cursors.insert frame.1 frame.2.id else cursors
    | none => cursors.insert frame.1 frame.2.id) ∅

/-- The streams and cursors of a database at a node, and all frames that peers have offered to it. -/
structure Follower where
  wal : WalStreams
  cursors : Cursors
  offered : List WalFrame

def Follower.importRound (follower : Follower) (round : Round) : WalStreams × Bool :=
  if round.locks then
    let (wal, completed) := importFrames follower.wal (round.decoded.map fun o => (o.frame, o.stored))
    (wal, completed && round.finishes)
  else (follower.wal, false)

/-- `execute_live_wal_catchup_sync`, whose cursors replace those of the database unless there are none. -/
def Follower.catchUp (follower : Follower) (round : Round) : Follower :=
  let offered := follower.offered ++ round.offered.map (·.frame)
  if round.decoded = [] then { follower with offered := offered }
  else
    let (wal, imported) := follower.importRound round
    ⟨wal, if imported then maxSeenByStream (round.decoded.map (·.frame)) else follower.cursors, offered⟩

/-- Every record that was offered for a stream is there up to the stream's cursor. -/
def Follower.Safe (follower : Follower) : Prop :=
  ∀ frame ∈ follower.offered, ∀ cursor ∈ follower.cursors.lookup frame.1, frame.2.id.val ≤ cursor.val →
    frame.2 ∈ follower.wal frame.1

/-! ## The condition on a round -/

section Condition

variable (follower : Follower) (round : Round)

def handledFrames : List WalFrame :=
  if round.locks then handled follower.wal (round.decoded.map fun o => (o.frame, o.stored)) else []

def Completes : Prop :=
  round.locks = true ∧ round.finishes = true ∧ handledFrames follower round = round.decoded.map (·.frame)

instance : Decidable (Completes follower round) := inferInstanceAs (Decidable (_ ∧ _ ∧ _))

def cursorsAfter : Cursors :=
  if round.decoded ≠ [] ∧ Completes follower round then maxSeenByStream (round.decoded.map (·.frame))
  else follower.cursors

/-- A record is there, or it is the first of its id in a stream that has none with this id. -/
def Kept (frame : WalFrame) : Prop :=
  frame.2 ∈ follower.wal frame.1 ∨ (recordsAt follower.wal frame.1 frame.2.key = [] ∧
    (handledFrames follower round).find? (fun other => other.1 = frame.1 ∧ other.2.key = frame.2.key) = some frame)

/-- All that was offered up to the cursors that the round leaves is kept. -/
def RoundKeeps : Prop :=
  ∀ frame ∈ follower.offered ++ round.offered.map (·.frame), ∀ cursor ∈ (cursorsAfter follower round).lookup frame.1,
    frame.2.id.val ≤ cursor.val → Kept follower round frame

end Condition

/-! ## One round -/

variable {follower : Follower} {round : Round} {wal : WalStreams} {frames : List (WalFrame × Bool)}

theorem importFrames_completed_iff : (importFrames wal frames).2 = true ↔ handled wal frames = frames.map Prod.fst := by
  induction frames generalizing wal with
  | nil => simp [importFrames, handled]
  | cons f frames ih =>
    obtain ⟨frame, stored⟩ := f
    unfold importFrames handled
    split
    · simp [ih]
    · cases stored with
      | false => simp
      | true => simp [ih]

theorem importRound_completed_iff : (follower.importRound round).2 = true ↔ Completes follower round := by
  unfold Follower.importRound Completes handledFrames
  cases hlocks : round.locks with
  | false => simp
  | true =>
    simp only [↓reduceIte, Bool.and_eq_true, importFrames_completed_iff, true_and, List.map_map]
    exact and_comm

theorem sorted_importRound (h : Sorted follower.wal) : Sorted (follower.importRound round).1 := by
  unfold Follower.importRound
  split
  · exact sorted_importFrames h
  · exact h

theorem mem_importRound_iff (h : Sorted follower.wal) (frame : WalFrame) :
    frame.2 ∈ (follower.importRound round).1 frame.1 ↔ Kept follower round frame := by
  have hclass : ∀ wal : WalStreams, frame.2 ∈ wal frame.1 ↔ frame.2 ∈ recordsAt wal frame.1 frame.2.key :=
    fun wal => by simp [recordsAt, mem_classOf]
  unfold Follower.importRound Kept handledFrames
  cases round.locks with
  | false => simp
  | true =>
    simp only [↓reduceIte]
    rw [hclass, recordsAt_importFrames h, hclass follower.wal]
    by_cases hnil : recordsAt follower.wal frame.1 frame.2.key = []
    · simp only [hnil, ↓reduceIte, List.not_mem_nil, true_and, false_or, Option.mem_toList]
      constructor
      · intro hfound
        obtain ⟨found, hfind, heq⟩ := Option.map_eq_some_iff.mp hfound
        have hthis : found.1 = frame.1 ∧ found.2.key = frame.2.key := by simpa using List.find?_some hfind
        rw [hfind, Option.some.injEq]
        exact Prod.ext hthis.1 heq
      · intro hfind
        rw [hfind]
        rfl
    · simp [hnil]

theorem catchUp_offered : (follower.catchUp round).offered = follower.offered ++ round.offered.map (·.frame) := by
  unfold Follower.catchUp
  split <;> rfl

theorem catchUp_wal : (follower.catchUp round).wal = (follower.importRound round).1 := by
  unfold Follower.catchUp
  split
  · rename_i hnil
    unfold Follower.importRound
    split
    · rw [hnil]
      rfl
    · rfl
  · rfl

theorem catchUp_cursors : (follower.catchUp round).cursors = cursorsAfter follower round := by
  unfold Follower.catchUp cursorsAfter
  split
  · rename_i hnil
    rw [if_neg fun h => h.1 hnil]
  · rename_i hne
    simp only [importRound_completed_iff, hne, ne_eq, not_false_eq_true, true_and]

theorem catchUp_safe_iff (h : Sorted follower.wal) : (follower.catchUp round).Safe ↔ RoundKeeps follower round := by
  unfold Follower.Safe RoundKeeps
  rw [catchUp_offered, catchUp_cursors]
  simp only [catchUp_wal, mem_importRound_iff h]

/-! ## Clean rounds -/

/-- Every frame decodes and is stored, and nothing else fails. -/
structure Round.Clean (round : Round) : Prop where
  locks : round.locks = true
  finishes : round.finishes = true
  decodes : ∀ offer ∈ round.offered, offer.decodes = true
  stored : ∀ offer ∈ round.offered, offer.stored = true

theorem Round.Clean.decoded_eq (h : round.Clean) : round.decoded = round.offered :=
  List.filter_eq_self.mpr h.decodes

theorem Round.Clean.handledFrames_eq (h : round.Clean) :
    handledFrames follower round = round.offered.map (·.frame) := by
  have hstored : (round.offered.map fun o => (o.frame, o.stored)) = (round.offered.map (·.frame)).map (·, true) := by
    rw [List.map_map]
    exact List.map_congr_left fun offer hoffer => by rw [h.stored offer hoffer]; rfl
  rw [handledFrames, if_pos h.locks, h.decoded_eq, hstored, handled_stored]

/-- The node has all that was offered, and no records but known ones. -/
structure UpToDate (known : WalFrame → Prop) (follower : Follower) : Prop where
  sorted : Sorted follower.wal
  present : ∀ frame ∈ follower.offered, frame.2 ∈ follower.wal frame.1
  known : ∀ frame : WalFrame, frame.2 ∈ follower.wal frame.1 → known frame

/-- No two known records of a stream have one id. -/
def Consistent (known : WalFrame → Prop) : Prop :=
  ∀ frame other, known frame → known other → frame.1 = other.1 → frame.2.key = other.2.key → frame.2 = other.2

theorem UpToDate.kept {known : WalFrame → Prop} (h : UpToDate known follower) (hconsistent : Consistent known)
    (hclean : round.Clean) (hknown : ∀ offer ∈ round.offered, known offer.frame) {frame : WalFrame}
    (hframe : frame ∈ follower.offered ++ round.offered.map (·.frame)) : Kept follower round frame := by
  rcases List.mem_append.mp hframe with hold | hnew
  · exact .inl (h.present frame hold)
  · have hframeKnown : known frame := by
      obtain ⟨offer, hoffer, rfl⟩ := List.mem_map.mp hnew
      exact hknown offer hoffer
    by_cases hnil : recordsAt follower.wal frame.1 frame.2.key = []
    · refine .inr ⟨hnil, ?_⟩
      rw [hclean.handledFrames_eq]
      have hsome : ((round.offered.map (·.frame)).find? fun other =>
          other.1 = frame.1 ∧ other.2.key = frame.2.key).isSome = true :=
        List.find?_isSome.mpr ⟨frame, hnew, by simp⟩
      obtain ⟨found, hfound⟩ := Option.isSome_iff_exists.mp hsome
      have hthis : found.1 = frame.1 ∧ found.2.key = frame.2.key := by simpa using List.find?_some hfound
      obtain ⟨offer, hoffer, rfl⟩ := List.mem_map.mp (List.mem_of_find?_eq_some hfound)
      rw [hfound, Option.some.injEq]
      exact Prod.ext hthis.1 (hconsistent _ _ (hknown offer hoffer) hframeKnown hthis.1 hthis.2)
    · obtain ⟨record, hrecord⟩ := List.exists_mem_of_ne_nil _ hnil
      obtain ⟨hmem, hkey⟩ := mem_classOf.mp hrecord
      have hsame := hconsistent (frame.1, record) frame (h.known (frame.1, record) hmem) hframeKnown rfl hkey
      exact .inl (hsame ▸ hmem)

theorem UpToDate.catchUp {known : WalFrame → Prop} (h : UpToDate known follower) (hconsistent : Consistent known)
    (hclean : round.Clean) (hknown : ∀ offer ∈ round.offered, known offer.frame) :
    UpToDate known (follower.catchUp round) := by
  refine ⟨?_, fun frame hframe => ?_, fun frame hmem => ?_⟩
  · rw [catchUp_wal]
    exact sorted_importRound h.sorted
  · rw [catchUp_offered] at hframe
    rw [catchUp_wal, mem_importRound_iff h.sorted]
    exact h.kept hconsistent hclean hknown hframe
  · rw [catchUp_wal, mem_importRound_iff h.sorted] at hmem
    rcases hmem with hmem | ⟨-, hfind⟩
    · exact h.known frame hmem
    · have hhandled := List.mem_of_find?_eq_some hfind
      rw [hclean.handledFrames_eq] at hhandled
      obtain ⟨offer, hoffer, rfl⟩ := List.mem_map.mp hhandled
      exact hknown offer hoffer

theorem roundKeeps_of_clean {known : WalFrame → Prop} (hconsistent : Consistent known) {rounds : List Round}
    (hrounds : ∀ round ∈ rounds, round.Clean ∧ ∀ offer ∈ round.offered, known offer.frame)
    (h : UpToDate known follower) : Along Follower.catchUp RoundKeeps follower rounds := by
  induction rounds generalizing follower with
  | nil => trivial
  | cons round rounds ih =>
    obtain ⟨⟨hclean, hknown⟩, hrest⟩ := List.forall_mem_cons.mp hrounds
    exact ⟨fun frame hframe _ _ _ => h.kept hconsistent hclean hknown hframe,
      ih hrest (h.catchUp hconsistent hclean hknown)⟩

/-! ## Rounds of rounds -/

def Follower.start (wal : WalStreams) : Follower := ⟨wal, ∅, []⟩

/-- Throughout a sequence of rounds the cursors are safe if and only if every round meets the condition. They are if
nothing fails in any round and no two records of a stream have one id. -/
theorem cursors_safe_iff (wal : WalStreams) (hsorted : Sorted wal) (rounds : List Round) :
    ((∀ n, (runFrom Follower.catchUp (.start wal) (rounds.take n)).Safe) ↔
        Along Follower.catchUp RoundKeeps (.start wal) rounds) ∧
      ∀ known : WalFrame → Prop, Consistent known → (∀ frame : WalFrame, frame.2 ∈ wal frame.1 → known frame) →
        (∀ round ∈ rounds, round.Clean ∧ ∀ offer ∈ round.offered, known offer.frame) →
        Along Follower.catchUp RoundKeeps (.start wal) rounds := by
  constructor
  · refine Along.forall_take_iff (C := fun _ _ => True) (I := fun follower => Sorted follower.wal ∧ follower.Safe)
      (fun follower round _ h => ⟨fun hkeeps => ⟨?_, (catchUp_safe_iff h.1).mpr hkeeps⟩, (catchUp_safe_iff h.1).mp⟩)
      (fun follower h => h.2) (along_of_forall (fun _ _ => trivial) _ _) ⟨hsorted, fun frame hframe => ?_⟩
    · rw [catchUp_wal]
      exact sorted_importRound h.1
    · cases hframe
  · intro known hconsistent hstart hrounds
    refine roundKeeps_of_clean hconsistent hrounds ⟨hsorted, fun frame hframe => ?_, hstart⟩
    cases hframe

def offer (record : TransactionRecord) (decodes stored : Bool) : OfferedFrame := ⟨("d:t", record), decodes, stored⟩

/-- Two rounds with one peer in which all goes well. -/
theorem clean_rounds_safe :
    Sorted (tableStream [insertedRow 1 [97]]) ∧
    ∀ n, (runFrom Follower.catchUp (.start (tableStream [insertedRow 1 [97]]))
      ([⟨[[offer (insertedRow 2 [98]) true true]], true, true⟩,
        ⟨[[offer (insertedRow 3 [99]) true true]], true, true⟩].take n)).Safe := by
  have hsafe := cursors_safe_iff (tableStream [insertedRow 1 [97]]) (sorted_tableStream _)
    [⟨[[offer (insertedRow 2 [98]) true true]], true, true⟩, ⟨[[offer (insertedRow 3 [99]) true true]], true, true⟩]
  refine ⟨sorted_tableStream _, hsafe.1.mpr (hsafe.2 (fun frame => frame.2 = insertedRow 1 [97] ∨
    frame.2 = insertedRow 2 [98] ∨ frame.2 = insertedRow 3 [99]) ?_ ?_ ?_)⟩
  · rintro ⟨_, frame⟩ ⟨_, other⟩ hframe hother - hkey
    dsimp only at hframe hother hkey ⊢
    rcases hframe with rfl | rfl | rfl <;> rcases hother with rfl | rfl | rfl <;>
      first | rfl | exact absurd hkey (by decide)
  · rintro ⟨streamId, record⟩ hmem
    simp only [tableStream] at hmem
    split at hmem
    · exact .inl (List.mem_singleton.mp hmem)
    · cases hmem
  · intro round hround
    simp only [List.mem_cons, List.not_mem_nil, or_false] at hround
    rcases hround with rfl | rfl
    · exact ⟨⟨rfl, rfl, by simp [Round.offered, offer], by simp [Round.offered, offer]⟩, by simp [Round.offered, offer]⟩
    · exact ⟨⟨rfl, rfl, by simp [Round.offered, offer], by simp [Round.offered, offer]⟩, by simp [Round.offered, offer]⟩

/-- A frame that does not decode is passed by the cursor. So is a frame of a peer whose import fails after another
peer has moved the cursor, and it is not exported again. -/
theorem offered_records_skipped :
    let undecoded := (Follower.start (tableStream [])).catchUp
      ⟨[[offer (insertedRow 1 [97]) false true, offer (insertedRow 2 [98]) true true]], true, true⟩
    let failed := runFrom Follower.catchUp (.start (tableStream []))
      [⟨[[offer (insertedRow 5 [98]) true true]], true, true⟩, ⟨[[offer (insertedRow 1 [97]) true false]], true, true⟩]
    undecoded.offered = [("d:t", insertedRow 1 [97]), ("d:t", insertedRow 2 [98])] ∧
      undecoded.cursors.lookup "d:t" = some ⟨2⟩ ∧ undecoded.wal "d:t" = [insertedRow 2 [98]] ∧
      failed.offered = [("d:t", insertedRow 5 [98]), ("d:t", insertedRow 1 [97])] ∧
      failed.cursors.lookup "d:t" = some ⟨5⟩ ∧ failed.wal "d:t" = [insertedRow 5 [98]] ∧
      entriesSince [insertedRow 1 [97]] (failed.cursors.lookup "d:t") = [] := by
  refine ⟨?_, ?_, ?_, ?_, ?_, ?_, ?_⟩ <;> decide +kernel

end DistDb.Replication
