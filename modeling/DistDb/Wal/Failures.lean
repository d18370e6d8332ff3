import DistDb.Wal.Batches
import DistDb.Wal.Compaction
import DistDb.Wal.Lemmas.Durability
import DistDb.Wal.Readers

/-! # What a refused request leaves behind

A request that fails may already have changed the stream: a compaction replaces the entries before it
writes, and a write that fails may have stored some of its bytes. -/

namespace DistDb.Wal
open Lib

variable {env : WalEnv} {io : IoOutcome} {worker : Worker} {file : WalFile}

/-! ## What reaches the disk -/

def WriteOutcome.kept (bytes : Bytes) : WriteOutcome → Bytes
  | stored => bytes
  | failed written => bytes.take written

def RewriteOutcome.kept (contents : Option Bytes) (bytes : Bytes) : RewriteOutcome → Option Bytes
  | stored => some bytes
  | notOpened => contents
  | failed written => some (bytes.take written)

/-- What `append_wal_bytes` adds to the file, its second attempt included. -/
def WalFile.appendedBytes (io : IoOutcome) (file : WalFile) (bytes : Bytes) : Bytes :=
  if file.appendFile || io.openAppend then
    io.write.kept bytes ++
      match io.write with
      | .stored => []
      | .failed _ => if io.reopenAppend then io.retryWrite.kept bytes else []
  else []

inductive DiskWrite where
  | nothing
  | append (records : List TransactionRecord) (context : TransactionPayloadContext)
  | rewrite (records : List TransactionRecord) (context : TransactionPayloadContext)

def Worker.diskWrite (worker : Worker) : WalCommand → DiskWrite
  | .append record context =>
    if isOrdered worker.entries record then .append [record] context
    else
      match placeOutOfOrder worker.entries record with
      | none => .nothing
      | some stagedEntries => .rewrite stagedEntries context
  | .appendBatch records context =>
    if records.isEmpty then .nothing
    else if batchOrdered (worker.entries.getLast?.map (·.id.val)) records then .append records context
    else if (mergeBatch worker.entries records).stagedDirty then
      .rewrite (mergeBatch worker.entries records).workingEntries context
    else .nothing
  | .compactToLatestSchemaAndMetadata actor timestampEpochMs =>
    .rewrite (compactEntriesToLatestSchemaAndMetadata worker.entries actor timestampEpochMs) default
  | .shutdown => .nothing

/-- The contents the write leaves; a missing file counts as an empty one. -/
def DiskWrite.contentsAfter (env : WalEnv) (io : IoOutcome) (file : WalFile) : DiskWrite → Bytes
  | nothing => file.contents.getD []
  | append records context =>
    match frameRecords env.prims context io.rand records with
    | .error _ => file.contents.getD []
    | .ok frames => file.contents.getD [] ++ file.appendedBytes io frames
  | rewrite records context =>
    match frameRecords env.prims context io.rand records with
    | .error _ => file.contents.getD []
    | .ok frames => (io.rewrite.kept file.contents (makeHeader ++ frames)).getD []

namespace WalFile

theorem contents_syncData : (file.syncData env io).1 = file := by
  rw [syncData]
  split_ifs
  · rfl
  · rfl

theorem getD_contents_openWalAppendFile (file : WalFile) (opened : Bool) :
    (file.openWalAppendFile opened).contents.getD [] = file.contents.getD [] := by
  cases opened <;> rfl

theorem getD_contents_writeAll (file : WalFile) (bytes : Bytes) (outcome : WriteOutcome) :
    (file.writeAll bytes outcome).contents.getD [] = file.contents.getD [] ++ outcome.kept bytes := by
  cases outcome <;> rfl

theorem getD_contents_retryAppend (file : WalFile) (bytes : Bytes) :
    (file.retryAppend env io bytes).1.contents.getD [] =
      file.contents.getD [] ++ if io.reopenAppend then io.retryWrite.kept bytes else [] := by
  rw [retryAppend]
  split_ifs
  · have hwritten := getD_contents_writeAll (file.openWalAppendFile true) bytes io.retryWrite
    rw [getD_contents_openWalAppendFile] at hwritten
    cases hretry : io.retryWrite with
    | stored =>
      rw [hretry] at hwritten
      simpa only [contents_syncData] using hwritten
    | failed written =>
      rw [hretry] at hwritten
      exact hwritten
  · rw [List.append_nil]

theorem getD_contents_appendWalBytes (file : WalFile) (bytes : Bytes) :
    (file.appendWalBytes env io bytes).1.contents.getD [] = file.contents.getD [] ++ file.appendedBytes io bytes := by
  have hhandle : file.appendHandle.contents.getD [] = file.contents.getD [] := by
    rw [appendHandle]
    split_ifs
    · rfl
    · exact getD_contents_openWalAppendFile file true
  have hwritten := getD_contents_writeAll file.appendHandle bytes io.write
  rw [hhandle] at hwritten
  rw [appendWalBytes, appendedBytes]
  by_cases hopen : (file.appendFile || io.openAppend) = true
  · rw [if_pos hopen, if_pos hopen]
    cases hwrite : io.write with
    | stored =>
      rw [hwrite] at hwritten
      simpa only [contents_syncData, List.append_nil] using hwritten
    | failed written =>
      rw [hwrite] at hwritten
      dsimp only
      rw [getD_contents_retryAppend, hwritten, List.append_assoc]
  · rw [if_neg hopen, if_neg hopen, List.append_nil]

theorem getD_contents_rewriteWalFile (file : WalFile) (records : List TransactionRecord)
    (context : TransactionPayloadContext) :
    (file.rewriteWalFileWithContext env io records context).1.contents.getD [] =
      (DiskWrite.rewrite records context).contentsAfter env io file := by
  rw [rewriteWalFileWithContext, DiskWrite.contentsAfter]
  cases frameRecords env.prims context io.rand records with
  | error e => rfl
  | ok frames =>
    dsimp only
    cases io.rewrite with
    | stored =>
      dsimp only [writeBytes]
      split_ifs
      · rfl
      · rfl
      · rfl
    | notOpened => rfl
    | failed written => rfl

end WalFile

/-! ## What the worker leaves -/

def Worker.reached (io : IoOutcome) (worker : Worker) : Bool :=
  worker.running && (io.storageLock && io.entriesLock)

def Worker.LeavesContents (worker : Worker) (contents : Bytes) : Prop :=
  ∃ file, worker.walFile = some file ∧ file.contents.getD [] = contents

namespace Worker

variable {record : TransactionRecord} {records : List TransactionRecord}
  {context : TransactionPayloadContext}

theorem handleAppend_contents (hfile : worker.walFile = some file) :
    (worker.handleAppend env io record context).1.LeavesContents
      ((worker.diskWrite (.append record context)).contentsAfter env io file) := by
  rw [handleAppend, diskWrite]
  split_ifs with hord
  · rw [hfile, DiskWrite.contentsAfter, frameRecords_singleton]
    cases frameRecordWithContext env.prims (io.rand 0) record context with
    | error e => exact ⟨file, hfile, rfl⟩
    | ok frame =>
      have hcontents : (file.appendWalBytes env io frame).1.contents.getD [] = _ :=
        file.getD_contents_appendWalBytes frame
      dsimp only
      generalize file.appendWalBytes env io frame = answered at hcontents ⊢
      obtain ⟨file', e | ⟨⟩⟩ := answered
      · exact ⟨file', rfl, hcontents⟩
      · exact ⟨file', rfl, hcontents⟩
  · cases placeOutOfOrder worker.entries record with
    | none => exact ⟨file, hfile, rfl⟩
    | some stagedEntries =>
      rw [hfile]
      dsimp only
      have hcontents : (file.rewriteWalFileWithContext env io stagedEntries context).1.contents.getD [] = _ :=
        file.getD_contents_rewriteWalFile stagedEntries context
      generalize file.rewriteWalFileWithContext env io stagedEntries context = answered at hcontents ⊢
      obtain ⟨file', e | ⟨⟩⟩ := answered
      · exact ⟨file', rfl, hcontents⟩
      · exact ⟨_, rfl, (file'.getD_contents_openWalAppendFile _).trans hcontents⟩

theorem handleAppendBatch_contents (hfile : worker.walFile = some file) (hrecords : records.isEmpty = false) :
    (worker.handleAppendBatch env io records context).1.LeavesContents
      ((worker.diskWrite (.appendBatch records context)).contentsAfter env io file) := by
  rw [handleAppendBatch, diskWrite, hrecords, if_neg Bool.false_ne_true]
  split_ifs with hord hdirty
  · rw [hfile, DiskWrite.contentsAfter]
    cases frameRecords env.prims context io.rand records with
    | error e => exact ⟨file, hfile, rfl⟩
    | ok frames =>
      have hcontents : (file.appendWalBytes env io frames).1.contents.getD [] = _ :=
        file.getD_contents_appendWalBytes frames
      dsimp only
      generalize file.appendWalBytes env io frames = answered at hcontents ⊢
      obtain ⟨file', e | ⟨⟩⟩ := answered
      · exact ⟨file', rfl, hcontents⟩
      · exact ⟨file', rfl, hcontents⟩
  · rw [hfile]
    have hcontents : (file.rewriteWalFileWithContext env io
        (mergeBatch worker.entries records).workingEntries context).1.contents.getD [] = _ :=
      file.getD_contents_rewriteWalFile (mergeBatch worker.entries records).workingEntries context
    dsimp only
    rw [if_pos hdirty]
    generalize file.rewriteWalFileWithContext env io (mergeBatch worker.entries records).workingEntries
      context = answered at hcontents ⊢
    obtain ⟨file', e | ⟨⟩⟩ := answered
    · exact ⟨file', rfl, hcontents⟩
    · refine ⟨_, rfl, ?_⟩
      split_ifs
      · exact (file'.getD_contents_openWalAppendFile _).trans hcontents
      · exact hcontents
  · rw [hfile]
    dsimp only
    rw [if_neg hdirty]
    exact ⟨file, hfile, rfl⟩

theorem handleCompact_contents (hfile : worker.walFile = some file) {actor : UserId} {timestampEpochMs : UInt64} :
    (worker.handleCompact env io actor timestampEpochMs).1.LeavesContents ((worker.diskWrite
        (.compactToLatestSchemaAndMetadata actor timestampEpochMs)).contentsAfter env io file) := by
  rw [handleCompact, diskWrite, hfile]
  have hcontents : (file.rewriteWalFileWithContext env io
      (compactEntriesToLatestSchemaAndMetadata worker.entries actor timestampEpochMs) default).1.contents.getD [] = _ :=
    file.getD_contents_rewriteWalFile
      (compactEntriesToLatestSchemaAndMetadata worker.entries actor timestampEpochMs) default
  dsimp only
  generalize file.rewriteWalFileWithContext env io
    (compactEntriesToLatestSchemaAndMetadata worker.entries actor timestampEpochMs) default = answered at hcontents ⊢
  obtain ⟨file', e | ⟨⟩⟩ := answered
  · exact ⟨file', rfl, hcontents⟩
  · exact ⟨_, rfl, (file'.getD_contents_openWalAppendFile _).trans hcontents⟩

/-- A command that reaches the stream leaves its entries, or what a compaction makes of them, and the
contents its disk write leaves, if it fails. -/
theorem step_failed {command : WalCommand} {e : String} (hreached : worker.reached io = true)
    (hfile : worker.walFile = some file) (hfailed : (worker.step env command io).2 = .error e) :
    (worker.step env command io).1.LeavesContents ((worker.diskWrite command).contentsAfter env io file) ∧
      (worker.step env command io).1.entries =
        match command with
        | .compactToLatestSchemaAndMetadata actor timestampEpochMs =>
          compactEntriesToLatestSchemaAndMetadata worker.entries actor timestampEpochMs
        | _ => worker.entries := by
  obtain ⟨hrunning, hlocks⟩ := Bool.and_eq_true_iff.mp hreached
  have hunlocked : ∀ handled : Handled, worker.withLocks io handled = handled := fun _ => if_pos hlocks
  have hentries : ∀ request : AppendRequest, request.command = command →
      (worker.step env command io).1.entries = worker.entries := by
    rintro request rfl
    rcases step_places env io worker request with ⟨hack, -⟩ | ⟨-, -, hentries⟩
    · exact absurd (hack.symm.trans hfailed) (by simp)
    · exact hentries
  cases command with
  | append record context =>
    refine ⟨?_, hentries (.append record context) rfl⟩
    rw [step, if_pos hrunning, hunlocked]
    exact handleAppend_contents hfile
  | appendBatch records context =>
    refine ⟨?_, hentries (.appendBatch records context) rfl⟩
    rw [step, if_pos hrunning] at hfailed ⊢
    cases hempty : records.isEmpty with
    | true => simp [hempty] at hfailed
    | false =>
      rw [if_neg Bool.false_ne_true, hunlocked]
      exact handleAppendBatch_contents hfile hempty
  | compactToLatestSchemaAndMetadata actor timestampEpochMs =>
    have hstep : worker.step env (.compactToLatestSchemaAndMetadata actor timestampEpochMs) io =
        worker.handleCompact env io actor timestampEpochMs := by
      rw [step, if_pos hrunning]
      exact hunlocked _
    rw [hstep]
    refine ⟨handleCompact_contents hfile, ?_⟩
    rw [handleCompact, hfile]
    dsimp only
    split
    · rfl
    · rfl
  | shutdown =>
    rw [step, if_pos hrunning] at hfailed
    cases hfailed

theorem step_unreached {command : WalCommand} {e : String} (hreached : worker.reached io = false)
    (hfailed : (worker.step env command io).2 = .error e) :
    (worker.step env command io).1.entries = worker.entries ∧
      (worker.step env command io).1.walFile = worker.walFile := by
  unfold step at hfailed ⊢
  split_ifs at hfailed ⊢ with hrunning
  · have hlocks : ¬ (io.storageLock && io.entriesLock) = true := by
      rw [reached, hrunning, Bool.true_and] at hreached
      rw [hreached]
      exact Bool.false_ne_true
    have hlocked : ∀ handled : Handled, worker.withLocks io handled =
        ({ worker with running := false }, .error "failed to lock WAL storage") := fun _ => if_neg hlocks
    cases command with
    | append record context =>
      dsimp only
      rw [hlocked]
      exact ⟨rfl, rfl⟩
    | appendBatch records context =>
      dsimp only
      split_ifs
      · exact ⟨rfl, rfl⟩
      · rw [hlocked]
        exact ⟨rfl, rfl⟩
    | compactToLatestSchemaAndMetadata actor timestampEpochMs =>
      dsimp only
      rw [hlocked]
      exact ⟨rfl, rfl⟩
    | shutdown => cases hfailed
  · exact ⟨rfl, rfl⟩

end Worker

/-! ## Replaying the file -/

def frameLength (env : WalEnv) (context : TransactionPayloadContext) (record : TransactionRecord) : Nat :=
  8 + encodedLength env.prims record context

theorem Framed.exists_frames {records : List TransactionRecord} {bytes : Bytes} (h : Framed env records bytes) :
    ∃ frames : List Bytes, bytes = frames.flatten ∧
      List.Forall₂ (FrameOf env.prims env.maxFrameBytes default) records frames := by
  induction h with
  | nil => exact ⟨[], rfl, .nil⟩
  | cons hlen hfits hdecode _ ih =>
    obtain ⟨frames, rfl, hframes⟩ := ih
    exact ⟨_ :: frames, rfl, .cons ⟨_, _, rfl, length_leBytes .., leNat_leBytes hfits, hlen, hdecode⟩ hframes⟩

theorem exists_frames_of_frameRecords (hp : env.prims.Correct) {context : TransactionPayloadContext}
    {records : List TransactionRecord} (hd : ∀ record ∈ records, DurableUnder env context record) :
    ∀ {rand : Nat → Option Nonce} {bytes : Bytes}, frameRecords env.prims context rand records = .ok bytes →
      ∃ frames : List Bytes, bytes = frames.flatten ∧
        List.Forall₂ (FrameOf env.prims env.maxFrameBytes default) records frames ∧
        frames.map List.length = records.map (frameLength env context) := by
  induction records with
  | nil =>
    intro rand bytes h
    exact ⟨[], (Except.ok.inj h).symm, .nil, rfl⟩
  | cons record records ih =>
    intro rand bytes h
    rw [frameRecords, frameRecordWithContext] at h
    cases henc : encodeRecordForStorageWithContext env.prims (rand 0) record context with
    | error e => simp [henc] at h
    | ok encoded =>
      cases hrest : frameRecords env.prims context (fun i => rand (i + 1)) records with
      | error e => simp [henc, hrest] at h
      | ok rest =>
        have hrecord := hd record (List.mem_cons_self ..)
        obtain ⟨hlen, hdecode⟩ := encode_of_durableUnder hp hrecord henc
        obtain ⟨frames, rfl, hframes, hlengths⟩ := ih (fun r hr => hd r (List.mem_cons_of_mem _ hr)) hrest
        have hfits : encoded.length < 256 ^ 8 := by
          rw [hlen]
          exact hrecord.2.2.trans_lt (by decide)
        refine ⟨(leBytes 8 encoded.length ++ encoded) :: frames, ?_, .cons ?_ hframes, ?_⟩
        · simpa [henc, hrest] using h.symm
        · exact ⟨_, _, rfl, length_leBytes .., leNat_leBytes hfits, hlen ▸ hrecord.2.1, hdecode⟩
        · simp [hlengths, frameLength, hlen]

def Worker.replay (env : WalEnv) (worker : Worker) : List TransactionRecord :=
  match worker.walFile with
  | none => []
  | some file => loadRecordsFromPath env.prims env.maxFrameBytes file.contents

theorem loadRecordsFromPath_getD (env : WalEnv) (contents : Option Bytes) :
    loadRecordsFromPath env.prims env.maxFrameBytes (some (contents.getD [])) =
      loadRecordsFromPath env.prims env.maxFrameBytes contents := by
  cases contents <;> rfl

/-! ## Where a write fails -/

/-- A second attempt follows only a first one that stored nothing. -/
def IoOutcome.OneAttempt (io : IoOutcome) : Prop :=
  ∀ written, io.write = .failed written → written = 0 ∨ io.reopenAppend = false

/-- How many of the bytes of an append are in the file. -/
def WalFile.appendPoint (io : IoOutcome) (file : WalFile) (length : Nat) : Nat :=
  if file.appendFile || io.openAppend then
    match io.write with
    | .stored => length
    | .failed written =>
      if io.reopenAppend then
        match io.retryWrite with
        | .stored => length
        | .failed written => written
      else written
  else 0

def RewriteOutcome.point (length : Nat) : RewriteOutcome → Nat
  | stored => length
  | notOpened => 0
  | failed written => written

theorem WalFile.appendedBytes_eq_take (hone : io.OneAttempt) (file : WalFile) (bytes : Bytes) :
    file.appendedBytes io bytes = bytes.take (file.appendPoint io bytes.length) := by
  rw [appendedBytes, appendPoint]
  by_cases hopen : (file.appendFile || io.openAppend) = true
  · rw [if_pos hopen, if_pos hopen]
    cases hwrite : io.write with
    | stored => simp [WriteOutcome.kept]
    | failed written =>
      cases hreopen : io.reopenAppend with
      | false => simp [WriteOutcome.kept]
      | true =>
        obtain rfl := (hone written hwrite).resolve_right (by simp [hreopen])
        cases io.retryWrite <;> simp [WriteOutcome.kept]
  · rw [if_neg hopen, if_neg hopen, List.take_zero]

theorem RewriteOutcome.kept_eq_take {outcome : RewriteOutcome} (h : outcome ≠ .notOpened) (contents : Option Bytes)
    (bytes : Bytes) : outcome.kept contents bytes = some (bytes.take (outcome.point bytes.length)) := by
  cases outcome with
  | stored => simp [kept, point]
  | notOpened => exact absurd rfl h
  | failed written => rfl

theorem load_take {records : List TransactionRecord} {frames : List Bytes}
    (h : List.Forall₂ (FrameOf env.prims env.maxFrameBytes default) records frames) (cut : Nat) :
    loadRecordsFromPath env.prims env.maxFrameBytes (some ((makeHeader ++ frames.flatten).take cut)) =
      records.take (wholePieces (frames.map List.length) (cut - headerSize)) := by
  rw [loadRecordsFromPath_eq_reader, ← scannedRecords_eq, scannedRecords_take h]

/-- Behind whole frames, an append that is cut off adds the records whose frames are whole. -/
theorem load_append_take {entries records : List TransactionRecord} {old new : List Bytes}
    (hold : List.Forall₂ (FrameOf env.prims env.maxFrameBytes default) entries old)
    (hnew : List.Forall₂ (FrameOf env.prims env.maxFrameBytes default) records new) (point : Nat) :
    loadRecordsFromPath env.prims env.maxFrameBytes (some (makeHeader ++ old.flatten ++ new.flatten.take point)) =
      entries ++ records.take (wholePieces (new.map List.length) point) := by
  have hcut : makeHeader ++ old.flatten ++ new.flatten.take point =
      (makeHeader ++ (old ++ new).flatten).take (headerSize + (old.map List.length).sum + point) := by
    have hlength : (makeHeader ++ old.flatten).length = headerSize + (old.map List.length).sum := by
      rw [List.length_append, List.length_flatten]
      rfl
    rw [List.flatten_append, ← List.append_assoc, ← hlength, List.take_length_add_append]
  have hpoint : headerSize + (old.map List.length).sum + point - headerSize = (old.map List.length).sum + point := by
    omega
  rw [hcut, load_take (List.rel_append hold hnew), hpoint, List.map_append, wholePieces_append, List.length_map,
    ← hold.length_eq, List.take_length_add_append]

theorem take_wholePieces_eq_nil_iff {records : List TransactionRecord} {length : TransactionRecord → Nat}
    {point : Nat} :
    records.take (wholePieces (records.map length) point) = [] ↔ ∀ first ∈ records.head?, point < length first := by
  cases records with
  | nil => simp
  | cons first records =>
    rw [List.map_cons, wholePieces]
    split_ifs with hwhole
    · simpa using hwhole
    · simpa using hwhole

/-- Where a write may fail. An append ends before the end of its first frame. A rewrite does not open the file, or ends
where the whole frames in it are those of the old entries. Records that cannot be framed are not written. -/
def DiskWrite.FailsCleanly (env : WalEnv) (io : IoOutcome) (file : WalFile) (entries : List TransactionRecord) :
    DiskWrite → Prop
  | nothing => True
  | append records context =>
    (∃ e, frameRecords env.prims context io.rand records = .error e) ∨
      ∀ first ∈ records.head?,
        file.appendPoint io (records.map (frameLength env context)).sum < frameLength env context first
  | rewrite records context =>
    (∃ e, frameRecords env.prims context io.rand records = .error e) ∨ io.rewrite = .notOpened ∨
      records.take (wholePieces (records.map (frameLength env context))
        (io.rewrite.point (headerSize + (records.map (frameLength env context)).sum) - headerSize)) = entries

/-- All records that are written are found again. -/
def DiskWrite.Durable (env : WalEnv) : DiskWrite → Prop
  | nothing => True
  | append records context | rewrite records context => ∀ record ∈ records, DurableUnder env context record

theorem DiskWrite.load_contentsAfter_iff (hp : env.prims.Correct) (hone : io.OneAttempt) {write : DiskWrite}
    (hd : write.Durable env) {entries : List TransactionRecord} {bytes : Bytes} (hframed : Framed env entries bytes)
    (hcontents : file.contents = some (makeHeader ++ bytes)) :
    loadRecordsFromPath env.prims env.maxFrameBytes (some (write.contentsAfter env io file)) = entries ↔
      write.FailsCleanly env io file entries := by
  have hsame : loadRecordsFromPath env.prims env.maxFrameBytes (some (file.contents.getD [])) = entries := by
    rw [hcontents]
    exact hframed.loadRecordsFromPath_eq
  obtain ⟨old, rfl, hold⟩ := hframed.exists_frames
  cases write with
  | nothing => exact iff_of_true hsame trivial
  | append records context =>
    rw [contentsAfter, FailsCleanly]
    cases hframes : frameRecords env.prims context io.rand records with
    | error e => exact iff_of_true hsame (.inl ⟨e, rfl⟩)
    | ok bytes =>
      obtain ⟨new, rfl, hnew, hlengths⟩ := exists_frames_of_frameRecords hp hd hframes
      dsimp only
      rw [or_iff_right (by simp), ← hlengths, ← List.length_flatten, ← take_wholePieces_eq_nil_iff, ← hlengths,
        WalFile.appendedBytes_eq_take hone, hcontents, Option.getD_some, load_append_take hold hnew,
        List.append_right_eq_self]
  | rewrite records context =>
    rw [contentsAfter, FailsCleanly]
    cases hframes : frameRecords env.prims context io.rand records with
    | error e => exact iff_of_true hsame (.inl ⟨e, rfl⟩)
    | ok bytes =>
      obtain ⟨new, rfl, hnew, hlengths⟩ := exists_frames_of_frameRecords hp hd hframes
      dsimp only
      rw [or_iff_right (by simp)]
      by_cases hopened : io.rewrite = .notOpened
      · rw [hopened]
        exact iff_of_true hsame (.inl rfl)
      · have htotal : (makeHeader ++ new.flatten).length =
          headerSize + (records.map (frameLength env context)).sum := by
          rw [← hlengths, List.length_append, List.length_flatten]
          rfl
        rw [or_iff_right hopened, RewriteOutcome.kept_eq_take hopened, Option.getD_some, load_take hnew,
          hlengths, htotal]

/-- The request does not reach the stream, or its write fails cleanly and, if it is a compaction, it had been made
before. -/
def Worker.FailsCleanly (env : WalEnv) (io : IoOutcome) (worker : Worker) (command : WalCommand) : Prop :=
  worker.reached io = true →
    (match command with
      | .compactToLatestSchemaAndMetadata actor timestampEpochMs =>
        AlreadyCompacted actor timestampEpochMs worker.entries
      | _ => True) ∧
    ∀ file ∈ worker.walFile, (worker.diskWrite command).FailsCleanly env io file worker.entries

def deletedStream : Worker :=
  newStream.run (.unset .plain) [(.append deleteRecord default, .success)]

def tornAppend : IoOutcome := { IoOutcome.success with
  write := .failed 3
  reopenAppend := false }

theorem diskBacked_deletedStream : deletedStream.DiskBacked (.unset .plain) :=
  ⟨⟨some (makeHeader ++ deleteFrame), true⟩, deleteFrame, by decide +kernel, rfl,
    Framed.of_frameRecords PayloadPrimitives.plain_correct (by decide +kernel)
      (show frameRecords .plain default (fun _ => none) [deleteRecord] = .ok deleteFrame by decide +kernel)⟩

def failedRewrite : IoOutcome := { IoOutcome.success with rewrite := .failed 0 }

end DistDb.Wal
