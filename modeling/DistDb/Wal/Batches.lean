import DistDb.Wal.Requests

/-! # A batch and its records one by one

They part only where the disk or the payload transforms refuse a record: a batch is refused as a whole. -/

namespace DistDb.Wal
open Lib

variable {env : WalEnv} {io : IoOutcome} {worker : Worker} {context : TransactionPayloadContext}
  {record : TransactionRecord} {records : List TransactionRecord}

/-- Nothing fails. -/
structure IoOutcome.Succeeds (io : IoOutcome) : Prop where
  storageLock : io.storageLock = true
  entriesLock : io.entriesLock = true
  openAppend : io.openAppend = true
  write : io.write = .stored
  sync : io.sync = true
  rewrite : io.rewrite = .stored
  openForSync : io.openForSync = true
  rand : ∀ i, (io.rand i).isSome = true

/-- The record can be framed, whatever the nonce. -/
def Framable (env : WalEnv) (context : TransactionPayloadContext) (record : TransactionRecord) : Prop :=
  ∀ nonce : Nonce, ∃ frame, frameRecordWithContext env.prims (some nonce) record context = .ok frame

/-! ## Requests that cannot be refused -/

theorem Framable.frame (h : Framable env context record) {rand : Option Nonce}
    (hrand : rand.isSome = true) : ∃ frame, frameRecordWithContext env.prims rand record context = .ok frame := by
  obtain ⟨nonce, rfl⟩ := Option.isSome_iff_exists.mp hrand
  exact h nonce

theorem exists_frameRecords (h : ∀ r ∈ records, Framable env context r) :
    ∀ {rand : Nat → Option Nonce}, (∀ i, (rand i).isSome = true) →
      ∃ frames, frameRecords env.prims context rand records = .ok frames := by
  induction records with
  | nil => exact fun _ => ⟨[], rfl⟩
  | cons record records ih =>
    intro rand hrand
    obtain ⟨frame, hframe⟩ := (h record (List.mem_cons_self ..)).frame (hrand 0)
    obtain ⟨frames, hframes⟩ :=
      ih (fun r hr => h r (List.mem_cons_of_mem _ hr)) fun i => hrand (i + 1)
    exact ⟨frame ++ frames, by rw [frameRecords, hframe, hframes]⟩

namespace WalFile

theorem syncData_succeeds (hio : io.Succeeds) (file : WalFile) : file.syncData env io = (file, .ok ()) := by
  simp [syncData, hio.sync]

theorem appendWalBytes_succeeds (env : WalEnv) (hio : io.Succeeds) (file : WalFile) (bytes : Bytes) :
    ∃ file', file.appendWalBytes env io bytes = (file', .ok ()) := by
  refine ⟨file.appendHandle.writeAll bytes io.write, ?_⟩
  rw [appendWalBytes, hio.openAppend, Bool.or_true, if_pos rfl, hio.write]
  exact syncData_succeeds hio _

theorem rewriteWalFile_succeeds (hio : io.Succeeds) (file : WalFile) (h : ∀ r ∈ records, Framable env context r) :
    ∃ file', file.rewriteWalFileWithContext env io records context = (file', .ok ()) := by
  obtain ⟨frames, hframes⟩ := exists_frameRecords h hio.rand
  refine ⟨{ file with contents := some (makeHeader ++ frames) }, ?_⟩
  simp [rewriteWalFileWithContext, hframes, hio.rewrite, writeBytes, hio.openForSync, hio.sync]

end WalFile

/-- A running worker whose file can take its entries and these records. -/
structure Worker.Takes (env : WalEnv) (context : TransactionPayloadContext) (worker : Worker)
    (records : List TransactionRecord) : Prop where
  running : worker.running = true
  framable : worker.walFile.isSome = true → ∀ r ∈ worker.entries ++ records, Framable env context r

namespace Worker

theorem handleAppend_succeeds (hio : io.Succeeds) (h : worker.Takes env context [record]) :
    ∃ walFile, walFile.isSome = worker.walFile.isSome ∧ worker.handleAppend env io record context =
        (⟨placeEntry worker.entries record, walFile, worker.running⟩, .ok ()) := by
  unfold handleAppend placeEntry
  cases hfile : worker.walFile with
  | none =>
    refine ⟨none, rfl, ?_⟩
    split_ifs with hord
    · rfl
    · cases placeOutOfOrder worker.entries record with
      | none =>
        have hsame : worker = ⟨worker.entries, none, worker.running⟩ := by rw [← hfile]
        exact congrArg (fun w : Worker => ((w, .ok ()) : Handled)) hsame
      | some stagedEntries => rfl
  | some file =>
    have hframable := h.framable (by rw [hfile]; rfl)
    split_ifs with hord
    · obtain ⟨frame, hframe⟩ := (hframable record (by simp)).frame (hio.rand 0)
      obtain ⟨file', happend⟩ := file.appendWalBytes_succeeds env hio frame
      refine ⟨some file', rfl, ?_⟩
      simp only [hframe, happend]
    · cases hplace : placeOutOfOrder worker.entries record with
      | none =>
        have hsame : worker = ⟨worker.entries, some file, worker.running⟩ := by rw [← hfile]
        exact ⟨some file, rfl, congrArg (fun w : Worker => ((w, .ok ()) : Handled)) hsame⟩
      | some stagedEntries =>
        have hstaged : ∀ r ∈ stagedEntries, Framable env context r := fun r hr =>
          hframable r (by simpa using (mem_placeOutOfOrder hplace).mp hr)
        obtain ⟨file', hrewrite⟩ := file.rewriteWalFile_succeeds hio hstaged
        refine ⟨some (file'.openWalAppendFile io.reopenAppend), rfl, ?_⟩
        simp only [hrewrite, Option.getD_some]

theorem handleAppendBatch_succeeds (hio : io.Succeeds) (h : worker.Takes env context records) :
    (worker.handleAppendBatch env io records context).2 = .ok () := by
  unfold handleAppendBatch
  cases hfile : worker.walFile with
  | none =>
    split_ifs
    · rfl
    · rfl
  | some file =>
    have hframable := h.framable (by rw [hfile]; rfl)
    split_ifs with hord
    · obtain ⟨frames, hframes⟩ := exists_frameRecords (fun r hr => hframable r (List.mem_append_right _ hr)) hio.rand
      obtain ⟨file', happend⟩ := file.appendWalBytes_succeeds env hio frames
      simp only [hframes, happend]
    · have hmerged : ∀ r ∈ (mergeBatch worker.entries records).workingEntries, Framable env context r :=
        fun r hr => hframable r (List.mem_append.mpr (mem_mergeBatch.mp hr))
      obtain ⟨file', hrewrite⟩ := file.rewriteWalFile_succeeds hio hmerged
      dsimp only
      by_cases hdirty : (mergeBatch worker.entries records).stagedDirty = true
      · rw [if_pos hdirty, hrewrite]
      · rw [if_neg hdirty]

/-! ## One request for each record -/

def oneByOne (context : TransactionPayloadContext) (sends : List (TransactionRecord × IoOutcome)) :
    List (AppendRequest × IoOutcome) :=
  sends.map fun send => (.append send.1 context, send.2)

theorem step_succeeds (hio : io.Succeeds) (h : worker.Takes env context (record :: records)) :
    (worker.step env (.append record context) io).2 = .ok () ∧
      (worker.step env (.append record context) io).1.Takes env context records := by
  have hfirst : worker.Takes env context [record] :=
    ⟨h.running, fun hfile r hr => h.framable hfile r (by
      rcases List.mem_append.mp hr with hr | hr
      · exact List.mem_append_left _ hr
      · rw [List.mem_singleton.mp hr]
        exact List.mem_append_right _ (List.mem_cons_self ..))⟩
  obtain ⟨walFile, hkept, hhandled⟩ := handleAppend_succeeds hio hfirst
  have hstep : worker.step env (.append record context) io =
      (⟨placeEntry worker.entries record, walFile, worker.running⟩, .ok ()) := by
    rw [step, if_pos h.running]
    simp only [withLocks, hio.storageLock, hio.entriesLock, Bool.and_self, if_true, hhandled]
  rw [hstep]
  refine ⟨rfl, h.running, fun hfile r hr => h.framable (hkept ▸ hfile) r ?_⟩
  rcases List.mem_append.mp hr with hr | hr
  · rcases mem_placeEntry.mp hr with hr | rfl
    · exact List.mem_append_left _ hr
    · exact List.mem_append_right _ (List.mem_cons_self ..)
  · exact List.mem_append_right _ (List.mem_cons_of_mem _ hr)

theorem acknowledged_oneByOne {sends : List (TransactionRecord × IoOutcome)} (hio : ∀ send ∈ sends, send.2.Succeeds)
    (h : worker.Takes env context (sends.map Prod.fst)) :
    worker.acknowledged env (oneByOne context sends) = sends.map Prod.fst := by
  induction sends generalizing worker with
  | nil => rfl
  | cons send sends ih =>
    obtain ⟨hack, htakes⟩ := step_succeeds (hio send (List.mem_cons_self ..)) h
    have hrest := ih (fun s hs => hio s (List.mem_cons_of_mem _ hs)) htakes
    rw [oneByOne, List.map_cons, acknowledged]
    dsimp only [AppendRequest.command, AppendRequest.records]
    rw [hack]
    exact congrArg (send.1 :: ·) hrest

theorem step_appendBatch_succeeds (hio : io.Succeeds) (h : worker.Takes env context records) :
    (worker.step env (.appendBatch records context) io).2 = .ok () := by
  rw [step, if_pos h.running]
  split_ifs
  · rfl
  · simp only [withLocks, hio.storageLock, hio.entriesLock, Bool.and_self, if_true]
    exact handleAppendBatch_succeeds hio h

/-- A refused batch changes nothing; single requests keep the records that were acknowledged. If the
batch and every single request are acknowledged, both leave the same entries, and they all are if
the disk does its work and the payload transforms take every record. -/
theorem appendBatch_vs_oneByOne (env : WalEnv) (worker : Worker) (context : TransactionPayloadContext)
    (sends : List (TransactionRecord × IoOutcome)) (io : IoOutcome) :
    let records := sends.map Prod.fst
    let batch := worker.step env (.appendBatch records context) io
    let single := worker.run env (oneByOne context sends)
    let acknowledged := worker.acknowledged env (oneByOne context sends)
    (∀ e, batch.2 = .error e → batch.1.entries = worker.entries) ∧
    (batch.2 = .ok () → batch.1.entries = records.foldl placeEntry worker.entries) ∧
    single.entries = acknowledged.foldl placeEntry worker.entries ∧
    (batch.2 = .ok () ∧ acknowledged = records → batch.1.entries = single.entries) ∧
    (worker.Takes env context records ∧ io.Succeeds ∧ (∀ send ∈ sends, send.2.Succeeds) →
      batch.2 = .ok () ∧ acknowledged = records ∧ batch.1.entries = single.entries) := by
  intro records batch single acknowledged
  have hplaces := step_places env io worker (.appendBatch records context)
  have hsingle : single.entries = acknowledged.foldl placeEntry worker.entries :=
    run_eq_foldl env worker (oneByOne context sends)
  have hbatch : batch.2 = .ok () → batch.1.entries = records.foldl placeEntry worker.entries := by
    intro hack
    rcases hplaces with ⟨-, hentries⟩ | ⟨e, hrefused, -⟩
    · exact hentries
    · exact absurd (hack.symm.trans hrefused) (by simp)
  have hsame : batch.2 = .ok () ∧ acknowledged = records → batch.1.entries = single.entries := by
    rintro ⟨hack, hall⟩
    rw [hbatch hack, hsingle, hall]
  refine ⟨fun e hrefused => ?_, hbatch, hsingle, hsame, ?_⟩
  · rcases hplaces with ⟨hack, -⟩ | ⟨-, -, hentries⟩
    · exact absurd (hrefused.symm.trans hack) (by simp)
    · exact hentries
  · rintro ⟨htakes, hio, hios⟩
    have hack : batch.2 = .ok () := step_appendBatch_succeeds hio htakes
    have hall : acknowledged = records := acknowledged_oneByOne hios htakes
    exact ⟨hack, hall, hsame ⟨hack, hall⟩⟩

end Worker

def zeroVersionContext : TransactionPayloadContext := { (default : TransactionPayloadContext) with
  encryptionKeyRef := some "key", encryptionKeyVersion := some 0 }

def metadataThenInsert : List TransactionRecord :=
  [⟨⟨1⟩, none, none, 0, ⟨"user"⟩, .metadataChange, none⟩,
    ⟨⟨2⟩, none, none, 0, ⟨"user"⟩, .insert, some [1]⟩]

def newStream : Worker := .fresh (some ⟨some makeHeader, true⟩)

/-- The batch is refused for its second record, and with it the first; sent alone the first record is
taken. -/
theorem zero_version_batch_refused :
    newStream.Reachable (.unset .plain) ∧
      (newStream.step (.unset .plain) (.appendBatch metadataThenInsert zeroVersionContext)
        .success).1.entries = [] ∧
      (newStream.run (.unset .plain)
        (Worker.oneByOne zeroVersionContext (metadataThenInsert.map (·, .success)))).entries =
          metadataThenInsert.take 1 := by
  refine ⟨⟨_, [], rfl⟩, ?_, ?_⟩
  · decide +kernel
  · decide +kernel

/-- Under the default context nothing is encrypted, and both ways take both records. -/
theorem plain_batch_one_by_one :
    let batch := newStream.step (.unset .plain) (.appendBatch metadataThenInsert default) .success
    let sends := metadataThenInsert.map (·, IoOutcome.success)
    newStream.Takes (.unset .plain) default metadataThenInsert ∧ IoOutcome.success.Succeeds ∧
      batch.2 = .ok () ∧
      newStream.acknowledged (.unset .plain) (Worker.oneByOne default sends) = metadataThenInsert ∧
      batch.1.entries = (newStream.run (.unset .plain) (Worker.oneByOne default sends)).entries := by
  intro batch sends
  have htakes : newStream.Takes (.unset .plain) default metadataThenInsert := by
    refine ⟨rfl, fun _ r hr nonce => ?_⟩
    rcases List.mem_pair.mp hr with rfl | rfl
    · exact ⟨_, rfl⟩
    · exact ⟨_, rfl⟩
  have hio : IoOutcome.success.Succeeds := ⟨rfl, rfl, rfl, rfl, rfl, rfl, rfl, fun _ => rfl⟩
  refine ⟨htakes, hio, ?_⟩
  refine (Worker.appendBatch_vs_oneByOne (.unset .plain) newStream default sends .success).2.2.2.2 ⟨htakes, hio, ?_⟩
  intro send hsend
  obtain ⟨record, -, rfl⟩ := List.mem_map.mp hsend
  exact hio

end DistDb.Wal
