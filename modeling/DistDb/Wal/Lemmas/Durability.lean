import DistDb.Lib.Run
import DistDb.Wal.Lemmas.Frames
import DistDb.Wal.Lemmas.Placement

/-! # What the file holds

Every acknowledged operation leaves a file of whole frames that hydrates to the stream's entries,
provided the records it wrote hydrate back one by one and no write was torn. -/

namespace DistDb.Wal
open Lib

/-! ## What an operation means -/

namespace StreamOp

def meaning (entries : List TransactionRecord) : StreamOp → List TransactionRecord
  | append record _ =>
    if isOrdered entries record then entries ++ [record]
    else (placeOutOfOrder entries record).getD entries
  | appendBatch records _ =>
    if batchOrdered (entries.getLast?.map (·.id.val)) records then entries ++ records
    else (mergeBatch entries records).workingEntries
  | compact actor timestampEpochMs =>
    compactEntriesToLatestSchemaAndMetadata entries actor timestampEpochMs
  | realign => Stream.realignedRecords entries
  | clear => []
  | invalidate => entries

def context : StreamOp → TransactionPayloadContext
  | append _ context => context
  | appendBatch _ context => context
  | _ => default

/-- The records an operation may put on disk: the new ones if they go to the end of the file, all of
them if the file is rewritten. -/
def written (entries : List TransactionRecord) : StreamOp → List TransactionRecord
  | append record _ => if isOrdered entries record then [record] else entries ++ [record]
  | appendBatch records _ =>
    if batchOrdered (entries.getLast?.map (·.id.val)) records then records else entries ++ records
  | compact actor timestampEpochMs =>
    entries ++ [⟨⟨0⟩, none, none, timestampEpochMs, actor, .truncate, none⟩]
  | realign => entries
  | clear => []
  | invalidate => []

end StreamOp

/-! ## File operations -/

variable {env : WalEnv} {io : IoOutcome} {file file' : WalFile}

theorem WalFile.appendWalBytes_ok {bytes contents : Bytes}
    (hcontents : file.contents = some contents) (htorn : io.write = .stored ∨ io.write = .failed 0)
    (h : file.appendWalBytes env io bytes = (file', .ok ())) :
    file'.contents = some (contents ++ bytes) := by
  have hsync : ∀ {f : WalFile}, f.syncData env io = (file', .ok ()) → file' = f := by
    intro f hf
    unfold syncData at hf
    split_ifs at hf
    · cases hf
    · cases hf
      rfl
  have hopen : file.appendHandle.contents = some contents := by
    unfold appendHandle
    split_ifs
    · exact hcontents
    · simp [openWalAppendFile, hcontents]
  unfold appendWalBytes at h
  split_ifs at h
  · rcases htorn with hw | hw
    · simp only [hw] at h
      rw [hsync h]
      simp [writeAll, hopen]
    · -- The first attempt wrote nothing, so the second one starts from the same contents.
      simp only [hw, retryAppend] at h
      split_ifs at h
      · split at h
        · rename_i hretry
          rw [hsync h]
          simp [writeAll, openWalAppendFile, hretry, hopen]
        · cases h
      · cases h
  · cases h

variable {context : TransactionPayloadContext} {records : List TransactionRecord}

theorem WalFile.rewriteWalFile_ok (h : file.rewriteWalFileWithContext env io records context = (file', .ok ())) :
    ∃ frames, frameRecords env.prims context io.rand records = .ok frames ∧
      file'.contents = some (makeHeader ++ frames) := by
  unfold rewriteWalFileWithContext at h
  split at h
  · cases h
  · rename_i frames hframes
    refine ⟨frames, hframes, ?_⟩
    unfold writeBytes at h
    cases hrewrite : io.rewrite with
    | stored =>
      simp only [hrewrite] at h
      split_ifs at h
      · cases h
      · cases h
      · cases h
        rfl
    | notOpened => simp [hrewrite] at h
    | failed written => simp [hrewrite] at h

@[simp] theorem WalFile.openWalAppendFile_contents {file : WalFile} {contents : Bytes} {opened : Bool}
    (h : file.contents = some contents) : (file.openWalAppendFile opened).contents = some contents := by
  cases opened <;> simp [openWalAppendFile, h]

/-! ## The worker -/

/-- The file has the frames of the entries. -/
def Worker.DiskBacked (env : WalEnv) (worker : Worker) : Prop :=
  ∃ file frames, worker.walFile = some file ∧ file.contents = some (makeHeader ++ frames) ∧
    Framed env worker.entries frames

variable {worker worker' : Worker}

theorem Worker.DiskBacked.isSome_walFile (hw : worker.DiskBacked env) : worker.walFile.isSome = true := by
  obtain ⟨file, -, hfile, -⟩ := hw
  rw [hfile]
  rfl

theorem Worker.diskBacked_of_append (hp : env.prims.Correct) (hw : worker.DiskBacked env)
    (htorn : io.write = .stored ∨ io.write = .failed 0) {bytes : Bytes}
    (hd : ∀ r ∈ records, DurableUnder env context r)
    (hframes : frameRecords env.prims context io.rand records = .ok bytes)
    (hfile : worker.walFile = some file) (happend : file.appendWalBytes env io bytes = (file', .ok ())) :
    ({ worker with entries := worker.entries ++ records, walFile := some file' } : Worker).DiskBacked env := by
  obtain ⟨_, frames, hfile', hcontents, hframed⟩ := hw
  obtain rfl := Option.some.inj (hfile.symm.trans hfile')
  have hcontents' := WalFile.appendWalBytes_ok hcontents htorn happend
  rw [List.append_assoc] at hcontents'
  exact ⟨file', _, rfl, hcontents', hframed.append (Framed.of_frameRecords hp hd hframes)⟩

theorem Worker.diskBacked_of_rewrite (hp : env.prims.Correct) {file file' file'' : WalFile} {running : Bool}
    (hd : ∀ r ∈ records, DurableUnder env context r)
    (hrewrite : file.rewriteWalFileWithContext env io records context = (file', .ok ()))
    (hcontents : ∀ contents, file'.contents = some contents → file''.contents = some contents) :
    (⟨records, some file'', running⟩ : Worker).DiskBacked env := by
  obtain ⟨frames, hframes, hcontents'⟩ := WalFile.rewriteWalFile_ok hrewrite
  exact ⟨file'', frames, rfl, hcontents _ hcontents', Framed.of_frameRecords hp hd hframes⟩

/-- What an acknowledged append did to the stream and its file: nothing, a write at the end, or a new file. The records
it wrote are among `written`. -/
inductive Worker.Wrote (env : WalEnv) (io : IoOutcome) (context : TransactionPayloadContext)
    (written : List TransactionRecord) (worker : Worker) : Worker → Prop
  | nothing : Wrote env io context written worker worker
  | appended {records : List TransactionRecord} {file file' : WalFile} {bytes : Bytes} (hrecords : records ⊆ written)
      (hfile : worker.walFile = some file) (hframes : frameRecords env.prims context io.rand records = .ok bytes)
      (happend : file.appendWalBytes env io bytes = (file', .ok ())) :
      Wrote env io context written worker
        { worker with entries := worker.entries ++ records, walFile := some file' }
  | rewritten {entries : List TransactionRecord} {file file' file'' : WalFile} (hentries : entries ⊆ written)
      (hrewrite : file.rewriteWalFileWithContext env io entries context = (file', .ok ()))
      (hcontents : ∀ contents, file'.contents = some contents → file''.contents = some contents) :
      Wrote env io context written worker ⟨entries, some file'', worker.running⟩

theorem Worker.Wrote.diskBacked {written : List TransactionRecord}
    (h : worker.Wrote env io context written worker') (hp : env.prims.Correct) (hw : worker.DiskBacked env)
    (htorn : io.write = .stored ∨ io.write = .failed 0) (hd : ∀ r ∈ written, DurableUnder env context r) :
    worker'.DiskBacked env := by
  cases h with
  | nothing => exact hw
  | appended hrecords hfile hframes happend =>
    exact diskBacked_of_append hp hw htorn (fun r hr => hd r (hrecords hr)) hframes hfile happend
  | rewritten hentries hrewrite hcontents =>
    exact diskBacked_of_rewrite hp (fun r hr => hd r (hentries hr)) hrewrite hcontents

theorem Worker.handleAppend_wrote {record : TransactionRecord} (hfile : worker.walFile.isSome = true)
    (hok : worker.handleAppend env io record context = (worker', .ok ())) :
    worker.Wrote env io context ((StreamOp.append record context).written worker.entries) worker' ∧
      worker'.entries = (StreamOp.append record context).meaning worker.entries := by
  obtain ⟨file, hfile⟩ := Option.isSome_iff_exists.mp hfile
  unfold handleAppend at hok
  simp only [hfile] at hok
  by_cases hord : isOrdered worker.entries record = true
  · simp only [StreamOp.written, StreamOp.meaning, if_pos hord] at hok ⊢
    split at hok
    · cases hok
    · rename_i frame hframe
      split at hok
      · cases hok
      · rename_i file' happend
        cases hok
        have hframes : frameRecords env.prims context io.rand [record] = .ok frame := by
          rw [frameRecords_singleton, hframe]
        exact ⟨.appended (List.Subset.refl _) hfile hframes happend, rfl⟩
  · simp only [StreamOp.written, StreamOp.meaning, if_neg hord] at hok ⊢
    split at hok
    · rename_i hdup
      cases hok
      exact ⟨.nothing, by simp [hdup]⟩
    · rename_i staged hstaged
      split at hok
      · cases hok
      · rename_i file' hrewrite
        cases hok
        refine ⟨.rewritten (fun r hr => ?_) hrewrite fun contents hc => WalFile.openWalAppendFile_contents hc,
          by simp [hstaged]⟩
        simpa using (mem_placeOutOfOrder hstaged).mp hr

theorem Worker.handleAppendBatch_wrote (hfile : worker.walFile.isSome = true)
    (hok : worker.handleAppendBatch env io records context = (worker', .ok ())) :
    worker.Wrote env io context ((StreamOp.appendBatch records context).written worker.entries) worker' ∧
      worker'.entries = (StreamOp.appendBatch records context).meaning worker.entries := by
  obtain ⟨file, hfile⟩ := Option.isSome_iff_exists.mp hfile
  unfold handleAppendBatch at hok
  simp only [hfile] at hok
  by_cases hord : batchOrdered (worker.entries.getLast?.map (·.id.val)) records = true
  · simp only [StreamOp.written, StreamOp.meaning, if_pos hord] at hok ⊢
    split at hok
    · cases hok
    · rename_i bytes hframes
      split at hok
      · cases hok
      · rename_i file' happend
        cases hok
        exact ⟨.appended (List.Subset.refl _) hfile hframes happend, rfl⟩
  · simp only [StreamOp.written, StreamOp.meaning, if_neg hord] at hok ⊢
    by_cases hdirty : (mergeBatch worker.entries records).stagedDirty = true
    · rw [if_pos hdirty] at hok
      split at hok
      · cases hok
      · rename_i file' hrewrite
        cases hok
        refine ⟨.rewritten (fun r hr => List.mem_append.mpr (mem_mergeBatch.mp hr)) hrewrite fun contents hc => ?_, rfl⟩
        split_ifs
        · exact WalFile.openWalAppendFile_contents hc
        · exact hc
    · rw [if_neg hdirty] at hok
      cases hok
      exact ⟨.nothing, (mergeBatch_clean (by simpa using hdirty)).symm⟩

/-! ## Rebuilt records -/

/-- What compaction and realignment make of a record: a new id, and references that may be dropped
but never added. -/
structure RebuiltFrom (record source : TransactionRecord) : Prop where
  kind : record.kind = source.kind
  payload : record.payload = source.payload
  actor : record.actor = source.actor
  groupid : record.groupid.isSome → source.groupid.isSome
  refid : record.refid.isSome → source.refid.isSome

theorem length_encode_option_le {a b : Option TransactionId} (h : a.isSome → b.isSome) :
    ((Codec.option TransactionId.codec).encode a).length ≤ ((Codec.option TransactionId.codec).encode b).length := by
  cases a with
  | none => cases b <;> simp [Codec.option]
  | some a =>
    cases b with
    | none => simp at h
    | some b => simp [Codec.option]

namespace RebuiltFrom

variable {record source : TransactionRecord}

theorem refl (record : TransactionRecord) : RebuiltFrom record record :=
  ⟨rfl, rfl, rfl, id, id⟩

theorem trans {mid : TransactionRecord} (h : RebuiltFrom record mid) (h' : RebuiltFrom mid source) :
    RebuiltFrom record source :=
  ⟨h.kind.trans h'.kind, h.payload.trans h'.payload, h.actor.trans h'.actor, h'.groupid ∘ h.groupid, h'.refid ∘ h.refid⟩

theorem clearPayload (h : RebuiltFrom record source) :
    RebuiltFrom { record with payload := none } { source with payload := none } :=
  ⟨h.kind, rfl, h.actor, h.groupid, h.refid⟩

theorem length_encode_le (h : RebuiltFrom record source) :
    (TransactionRecord.codec.encode record).length ≤ (TransactionRecord.codec.encode source).length := by
  have hgroup := length_encode_option_le h.groupid
  have href := length_encode_option_le h.refid
  have htimes : (Codec.u64.encode record.timestampEpochMs).length =
      (Codec.u64.encode source.timestampEpochMs).length := by
    simp [Codec.refine, Codec.u64, Codec.nat]
  rw [TransactionRecord.length_encode, TransactionRecord.length_encode, h.actor, h.kind, h.payload,
    TransactionId.length_encode, TransactionId.length_encode]
  omega

theorem encodedLength_le (h : RebuiltFrom record source) (prims : PayloadPrimitives)
    (context : TransactionPayloadContext) :
    encodedLength prims record context ≤ encodedLength prims source context := by
  unfold encodedLength
  rw [h.payload]
  cases source.payload with
  | none => exact h.length_encode_le
  | some payload =>
    have hstored : storedLength prims record context payload = storedLength prims source context payload := by
      simp [storedLength, encryptsPayload, shouldSkipPayloadCompression, h.kind]
    have hhead := h.clearPayload.length_encode_le
    simp only [hstored]
    omega

theorem durableUnder (h : RebuiltFrom record source) {context : TransactionPayloadContext}
    (hd : DurableUnder env context source) : DurableUnder env context record := by
  obtain ⟨hpayload, hframe, hlimit⟩ := hd
  have hle := h.encodedLength_le env.prims context
  refine ⟨fun payload hmem => ?_, hle.trans hframe, hle.trans hlimit⟩
  rw [h.payload] at hmem
  simpa [encryptsPayload, shouldSkipPayloadCompression, h.kind] using hpayload payload hmem

end RebuiltFrom

theorem mem_renumberFrom : ∀ {position : Nat}, x ∈ renumberFrom position records → ∃ r ∈ records, RebuiltFrom x r := by
  induction records with
  | nil =>
    intro position hx
    simp [renumberFrom] at hx
  | cons record records ih =>
    intro position hx
    rcases List.mem_cons.mp hx with rfl | hx
    · exact ⟨record, List.mem_cons_self .., rfl, rfl, rfl, id, id⟩
    · obtain ⟨r, hr, h⟩ := ih hx
      exact ⟨r, List.mem_cons_of_mem _ hr, h⟩

theorem mem_compactEntries {entries : List TransactionRecord} {actor : UserId} {timestampEpochMs : UInt64}
    (hx : x ∈ compactEntriesToLatestSchemaAndMetadata entries actor timestampEpochMs) :
    ∃ r ∈ (StreamOp.compact actor timestampEpochMs).written entries, RebuiltFrom x r := by
  obtain ⟨y, hy, hxy⟩ := mem_renumberFrom hx
  rcases List.mem_append.mp hy with hy | hy
  · obtain ⟨z, hz, rfl⟩ := List.mem_map.mp hy
    obtain ⟨hz, hlive⟩ := List.mem_filter.mp hz
    obtain ⟨w, hw, rfl⟩ := List.mem_map.mp hz
    -- What was not retained became `Ignore` and did not survive the filter.
    split_ifs at hlive hxy with hretained
    · refine ⟨w, List.mem_append_left _ hw, hxy.trans ?_⟩
      split
      · split_ifs
        · exact RebuiltFrom.refl _
        · exact ⟨rfl, rfl, rfl, id, by simp⟩
      · exact RebuiltFrom.refl _
    · simp at hlive
  · exact ⟨y, List.mem_append_right _ hy, hxy⟩

theorem mem_realignedRecords {entries : List TransactionRecord} (hx : x ∈ Stream.realignedRecords entries) :
    ∃ r ∈ StreamOp.realign.written entries, RebuiltFrom x r := by
  obtain ⟨y, hy, hxy⟩ := mem_renumberFrom hx
  obtain ⟨z, hz, rfl⟩ := List.mem_map.mp hy
  refine ⟨z, (List.mem_filter.mp hz).1, hxy.trans ⟨rfl, rfl, rfl, ?_, ?_⟩⟩
  · cases hg : z.groupid <;> simp [Stream.realignRecord, hg]
  · cases hr : z.refid <;> simp [Stream.realignRecord, hr]

theorem Worker.handleCompact_durable (hp : env.prims.Correct) (hw : worker.DiskBacked env)
    {actor : UserId} {timestampEpochMs : UInt64}
    (hd : ∀ r ∈ (StreamOp.compact actor timestampEpochMs).written worker.entries, DurableUnder env default r)
    (hok : worker.handleCompact env io actor timestampEpochMs = (worker', .ok ())) :
    worker'.DiskBacked env ∧ worker'.entries = (StreamOp.compact actor timestampEpochMs).meaning worker.entries := by
  obtain ⟨file, frames, hfile, hcontents, hframed⟩ := hw
  unfold handleCompact at hok
  simp only [hfile] at hok
  split at hok
  · cases hok
  · rename_i file' hrewrite
    cases hok
    refine ⟨diskBacked_of_rewrite hp (fun r hr => ?_) hrewrite
      fun contents hc => WalFile.openWalAppendFile_contents hc, rfl⟩
    obtain ⟨source, hsource, hrebuilt⟩ := mem_compactEntries hr
    exact hrebuilt.durableUnder (hd source hsource)

/-! ## The stream -/

namespace Stream

def current (env : WalEnv) (stream : Stream) : List TransactionRecord :=
  stream.entries.getD (loadRecordsFromPath env.prims env.maxFrameBytes stream.contents)

/-- Memory, as far as it is loaded, and file agree on `entries`. -/
structure Holds (env : WalEnv) (stream : Stream) (entries : List TransactionRecord) : Prop where
  memory : stream.entries = none ∨ stream.entries = some entries
  disk : (stream.contents = none ∧ stream.worker = none ∧ entries = []) ∨
    ∃ frames, stream.contents = some (makeHeader ++ frames) ∧ Framed env entries frames

/-- What an operation needs to be durable: the file can be read if it has to be and gets its header
if it is new, a write that fails leaves nothing behind, and every record written hydrates back. -/
structure WritesDurably (env : WalEnv) (stream : Stream) (op : StreamOp) (io : StreamIo) : Prop where
  reads : stream.entries = none → io.openRead = true
  header : stream.contents = none → io.createHeader = .stored
  notTorn : io.write = .stored ∨ io.write = .failed 0
  records : ∀ r ∈ op.written (stream.current env), DurableUnder env op.context r

variable {stream stream' : Stream} {entries : List TransactionRecord} {io : StreamIo} {op : StreamOp}

theorem Holds.load_eq (h : stream.Holds env entries) :
    loadRecordsFromPath env.prims env.maxFrameBytes stream.contents = entries := by
  rcases h.disk with ⟨hnone, -, rfl⟩ | ⟨frames, hsome, hframed⟩
  · rw [hnone]
    rfl
  · rw [hsome, hframed.loadRecordsFromPath_eq]

theorem Holds.current_eq (h : stream.Holds env entries) : stream.current env = entries := by
  rcases h.memory with hnone | hsome
  · rw [current, hnone, Option.getD_none, h.load_eq]
  · rw [current, hsome, Option.getD_some]

theorem Holds.hydrate_eq (h : stream.Holds env entries) (hlock : io.storageLock = true)
    (hread : stream.entries = none → io.openRead = true) :
    stream.hydrateStreamIfNeeded env io = { stream with entries := some entries } := by
  have hload := h.load_eq
  unfold hydrateStreamIfNeeded
  rcases h.memory with hnone | hsome
  · cases hc : stream.contents with
    | none =>
      rw [hc] at hload
      simp [hnone, hlock, ← hload, loadRecordsFromPath]
    | some contents =>
      rw [hc] at hload
      simp [hnone, hlock, hread hnone, hload]
  · simp only [hsome]
    rw [← hsome]

theorem Holds.toWorker_diskBacked (h : stream.Holds env entries) (hmem : stream.entries = some entries)
    (hheader : stream.contents = none → io.createHeader = .stored)
    (hget : stream.getOrSpawnWorker io = .ok stream') :
    stream'.entries = some entries ∧
      ∀ handle, (stream'.toWorker handle).DiskBacked env ∧ (stream'.toWorker handle).entries = entries := by
  have hworker : ∀ {s : Stream} {frames}, s.entries = some entries →
      s.contents = some (makeHeader ++ frames) → Framed env entries frames →
      ∀ handle, (s.toWorker handle).DiskBacked env ∧ (s.toWorker handle).entries = entries := by
    intro s frames hentries hcontents hframed handle
    have : (s.toWorker handle).entries = entries := by simp [toWorker, hentries]
    exact ⟨⟨_, frames, rfl, hcontents, this.symm ▸ hframed⟩, this⟩
  unfold getOrSpawnWorker at hget
  split_ifs at hget
  · split at hget
    · rename_i hold
      cases hget
      rcases h.disk with ⟨-, hnone, -⟩ | ⟨frames, hcontents, hframed⟩
      · rw [hnone] at hold
        cases hold
      · exact ⟨hmem, hworker hmem hcontents hframed⟩
    · cases hget
      refine ⟨hmem, ?_⟩
      rcases h.disk with ⟨hcontents, -, rfl⟩ | ⟨frames, hcontents, hframed⟩
      · refine hworker hmem ?_ Framed.nil
        simp only [spawnWorker, hcontents, hheader hcontents, WalFile.writeBytes]
        exact WalFile.openWalAppendFile_contents rfl
      · refine hworker hmem ?_ hframed
        simp only [spawnWorker, hcontents]
        exact WalFile.openWalAppendFile_contents rfl

theorem storageLock_of_step_ok {io : IoOutcome} {command : WalCommand}
    (hcommand : ∀ context, command ≠ .appendBatch [] context) (hshutdown : command ≠ .shutdown)
    (hok : worker.step env command io = (worker', .ok ())) : io.storageLock = true := by
  have hlocks : ∀ {handled : Handled}, worker.withLocks io handled = (worker', .ok ()) → io.storageLock = true := by
    intro handled h
    unfold Worker.withLocks at h
    split_ifs at h with hl
    · exact (Bool.and_eq_true _ _ ▸ hl).1
    · cases h
  unfold Worker.step at hok
  split_ifs at hok
  · cases command with
    | append record context => exact hlocks hok
    | appendBatch records context =>
      cases records with
      | nil => exact absurd rfl (hcommand context)
      | cons _ _ => exact hlocks hok
    | compactToLatestSchemaAndMetadata actor timestampEpochMs => exact hlocks hok
    | shutdown => exact absurd rfl hshutdown
  · cases hok

theorem Holds.sendCommand (h : stream.Holds env entries) {command : WalCommand}
    (hreads : stream.entries = none → io.openRead = true)
    (hheader : stream.contents = none → io.createHeader = .stored)
    (hcommand : ∀ context, command ≠ .appendBatch [] context) (hshutdown : command ≠ .shutdown)
    (hstep : ∀ worker worker' : Worker, worker.DiskBacked env → worker.entries = entries →
      worker.step env command io.toIoOutcome = (worker', .ok ()) →
        worker'.DiskBacked env ∧ worker'.entries = op.meaning entries)
    (hok : stream.sendCommand env io command = (stream', .ok ())) :
    stream'.Holds env (op.meaning entries) := by
  unfold Stream.sendCommand at hok
  dsimp only at hok
  split at hok
  · cases hok
  · rename_i spawned hget
    split at hok
    · cases hok
    · rename_i handle hhandle
      obtain ⟨rfl, hack⟩ := Prod.mk.inj hok
      have hstepped : (spawned.toWorker handle).step env command io.toIoOutcome =
          (((spawned.toWorker handle).step env command io.toIoOutcome).1, .ok ()) := Prod.ext rfl hack
      have hlock := storageLock_of_step_ok hcommand hshutdown hstepped
      rw [h.hydrate_eq hlock hreads] at hget
      have hloaded : ({ stream with entries := some entries } : Stream).Holds env entries :=
        ⟨Or.inr rfl, h.disk⟩
      obtain ⟨-, hworker⟩ := hloaded.toWorker_diskBacked rfl hheader hget
      obtain ⟨⟨file, frames, hfile, hcontents, hframed⟩, hentries⟩ :=
        hstep _ _ (hworker handle).1 (hworker handle).2 hstepped
      refine ⟨Or.inr ?_, Or.inr ⟨frames, ?_, hentries ▸ hframed⟩⟩
      · simp [ofWorker, hlock, hentries]
      · simp [ofWorker, hfile, hcontents]

theorem step_append_ok {io : IoOutcome} {record : TransactionRecord} {context : TransactionPayloadContext}
    (hok : worker.step env (.append record context) io = (worker', .ok ())) :
    worker.handleAppend env io record context = (worker', .ok ()) := by
  unfold Worker.step Worker.withLocks at hok
  split_ifs at hok
  · exact hok
  · cases hok
  · cases hok

theorem step_appendBatch_ok {io : IoOutcome} {records : List TransactionRecord}
    {context : TransactionPayloadContext} (hne : records ≠ [])
    (hok : worker.step env (.appendBatch records context) io = (worker', .ok ())) :
    worker.handleAppendBatch env io records context = (worker', .ok ()) := by
  unfold Worker.step Worker.withLocks at hok
  simp only [List.isEmpty_iff, hne, if_false] at hok
  split_ifs at hok
  · exact hok
  · cases hok
  · cases hok

theorem step_compact_ok {io : IoOutcome} {actor : UserId} {timestampEpochMs : UInt64}
    (hok : worker.step env (.compactToLatestSchemaAndMetadata actor timestampEpochMs) io = (worker', .ok ())) :
    worker.handleCompact env io actor timestampEpochMs = (worker', .ok ()) := by
  unfold Worker.step Worker.withLocks at hok
  split_ifs at hok
  · exact hok
  · cases hok
  · cases hok

theorem Holds.realign (hp : env.prims.Correct) (h : stream.Holds env entries)
    (hd : stream.WritesDurably env .realign io)
    (hok : stream.realignStreamRecords env io = (stream', .ok ())) :
    stream'.Holds env (StreamOp.realign.meaning entries) := by
  have hhydrated : ∀ {loaded}, (stream.hydrateStreamIfNeeded env io).entries = some loaded → loaded = entries := by
    intro loaded hloaded
    rcases h.memory with hnone | hsome
    · cases hlock : io.storageLock with
      | true =>
        rw [h.hydrate_eq hlock hd.reads] at hloaded
        exact (Option.some.inj hloaded).symm
      | false => simp [hydrateStreamIfNeeded, hnone, hlock] at hloaded
    · simp only [hydrateStreamIfNeeded, hsome] at hloaded
      exact (Option.some.inj hloaded).symm
  unfold realignStreamRecords at hok
  dsimp only at hok
  split at hok
  · cases hok
  · rename_i loaded hloaded
    obtain rfl := hhydrated hloaded
    split_ifs at hok
    · cases hok
    · split at hok
      · cases hok
      · rename_i file hrewrite
        obtain ⟨rfl, -⟩ := Prod.mk.inj hok
        obtain ⟨frames, hframes, hcontents⟩ := WalFile.rewriteWalFile_ok hrewrite
        refine ⟨Or.inr rfl, Or.inr ⟨frames, hcontents, Framed.of_frameRecords hp (fun r hr => ?_) hframes⟩⟩
        obtain ⟨source, hsource, hrebuilt⟩ := mem_realignedRecords hr
        exact hrebuilt.durableUnder (hd.records source (h.current_eq.symm ▸ hsource))
    · cases hok

theorem Holds.clear (hok : stream.clearStreamRecords io = (stream', .ok ())) :
    stream'.Holds env (StreamOp.clear.meaning entries) := by
  unfold clearStreamRecords at hok
  split_ifs at hok
  · dsimp only at hok
    split at hok
    · rename_i file hwrite
      obtain ⟨rfl, -⟩ := Prod.mk.inj hok
      refine ⟨Or.inl rfl, Or.inr ⟨[], ?_, Framed.nil⟩⟩
      cases hrewrite : io.rewrite with
      | stored =>
        simp only [hrewrite, WalFile.writeBytes, Prod.mk.injEq] at hwrite
        rw [← hwrite.1]
        rfl
      | notOpened => simp [hrewrite, WalFile.writeBytes] at hwrite
      | failed written => simp [hrewrite, WalFile.writeBytes] at hwrite
    · cases hok
  · cases hok
  · cases hok

/-- An acknowledged operation does to the stream, in memory and on disk, what it means. -/
theorem Holds.apply (hp : env.prims.Correct) (h : stream.Holds env entries)
    (hd : stream.WritesDurably env op io) (hok : (stream.apply env op io).2 = .ok ()) :
    (stream.apply env op io).1.Holds env (op.meaning entries) := by
  have hrecords := hd.records
  rw [h.current_eq] at hrecords
  have happly : stream.apply env op io = ((stream.apply env op io).1, .ok ()) := Prod.ext rfl hok
  cases op with
  | append record context =>
    refine h.sendCommand hd.reads hd.header (by simp) (by simp) ?_ happly
    rintro worker worker' hw rfl hstep
    obtain ⟨hwrote, hentries⟩ := Worker.handleAppend_wrote hw.isSome_walFile (step_append_ok hstep)
    exact ⟨hwrote.diskBacked hp hw hd.notTorn hrecords, hentries⟩
  | appendBatch records context =>
    by_cases hnil : records = []
    · subst hnil
      simpa [Stream.apply, appendBatchWithContext, StreamOp.meaning, batchOrdered] using h
    · simp only [Stream.apply, appendBatchWithContext, List.isEmpty_iff, hnil, if_false] at happly ⊢
      refine h.sendCommand hd.reads hd.header (by simpa using hnil) (by simp) ?_ happly
      rintro worker worker' hw rfl hstep
      obtain ⟨hwrote, hentries⟩ := Worker.handleAppendBatch_wrote hw.isSome_walFile (step_appendBatch_ok hnil hstep)
      exact ⟨hwrote.diskBacked hp hw hd.notTorn hrecords, hentries⟩
  | compact actor timestampEpochMs =>
    refine h.sendCommand hd.reads hd.header (by simp) (by simp) ?_ happly
    rintro worker worker' hw rfl hstep
    exact Worker.handleCompact_durable hp hw hrecords (step_compact_ok hstep)
  | realign => exact h.realign hp hd happly
  | clear => exact Holds.clear happly
  | invalidate =>
    simp only [Stream.apply, invalidateStreamCache] at happly ⊢
    split_ifs at happly ⊢
    · exact ⟨Or.inl rfl, h.disk⟩
    · cases happly

/-! ## Runs -/

def next (env : WalEnv) (stream : Stream) (input : StreamOp × StreamIo) : Stream :=
  (stream.apply env input.1 input.2).1

/-- The operation reports success. -/
def Acknowledged (env : WalEnv) (stream : Stream) (input : StreamOp × StreamIo) : Prop :=
  (stream.apply env input.1 input.2).2 = .ok ()

def rehydrated (env : WalEnv) (stream : Stream) : List TransactionRecord :=
  (({ stream with entries := none } : Stream).hydrateStreamIfNeeded env .success).entries.getD []

theorem rehydrated_eq_load (stream : Stream) : stream.rehydrated env =
    loadRecordsFromPath env.prims env.maxFrameBytes stream.contents := by
  cases hc : stream.contents <;>
    simp [rehydrated, hydrateStreamIfNeeded, StreamIo.success, IoOutcome.success, hc, loadRecordsFromPath]

theorem Holds.rehydrated_eq (h : stream.Holds env entries) : stream.rehydrated env = entries := by
  rw [rehydrated_eq_load, h.load_eq]

theorem holds_fresh : fresh.Holds env [] := ⟨Or.inl rfl, Or.inl ⟨rfl, rfl, rfl⟩⟩

/-- Any run of acknowledged operations that write durably leaves memory and file with what the
operations mean. -/
theorem run_holds (hp : env.prims.Correct) {ops : List (StreamOp × StreamIo)}
    (hack : Along (next env) (Acknowledged env) fresh ops)
    (hd : Along (next env) (fun s input => s.WritesDurably env input.1 input.2) fresh ops) :
    (runFrom (next env) fresh ops).Holds env (runFrom (fun entries input => input.1.meaning entries) [] ops) :=
  (hack.and hd).simulates (fun _ _ _ hstep h => h.apply hp hstep.2 hstep.1) holds_fresh

end Stream

end DistDb.Wal
