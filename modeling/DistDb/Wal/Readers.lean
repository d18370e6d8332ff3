import DistDb.Lib.Scan
import DistDb.Wal.Manager

/-! # The frame readers

Three functions read the frames of a log file: over bytes in memory, over a buffered reader, and for a
stream that is not loaded. All of them scan for one record after the other. -/

namespace DistDb.Wal
open Lib

variable {prims : PayloadPrimitives} {maxFrameSize : Nat} {context : TransactionPayloadContext}

def decodeRecordFromFrame (prims : PayloadPrimitives) (bytes : Bytes) (offset len : Nat)
    (context : TransactionPayloadContext) : Except String TransactionRecord :=
  decodeRecordFromStorageWithContext prims ((bytes.drop offset).take len) context

/-- The loop of `decode_records_sequential_from_bytes_with_context`. Its `checked_add` only fails for
an end beyond every address, which is also beyond the bytes. -/
def decodeFramesFromBytes (prims : PayloadPrimitives) (maxFrameSize : Nat)
    (context : TransactionPayloadContext) (bytes : Bytes) : (fuel pos : Nat) → List TransactionRecord
  | 0, _ => []
  | fuel + 1, pos =>
    if pos + 8 ≤ bytes.length then
      let len := leNat ((bytes.drop pos).take 8)
      if maxFrameSize < len then []
      else if bytes.length < pos + 8 + len then []
      else
        match decodeRecordFromFrame prims bytes (pos + 8) len context with
        | .error _ => []
        | .ok record =>
          record :: decodeFramesFromBytes prims maxFrameSize context bytes fuel (pos + 8 + len)
    else []

/-- The header is skipped, not checked. -/
def decodeRecordsSequentialFromBytesWithContext (prims : PayloadPrimitives) (maxFrameSize : Nat)
    (context : TransactionPayloadContext) (bytes : Bytes) : List TransactionRecord :=
  decodeFramesFromBytes prims maxFrameSize context bytes bytes.length headerSize

def decodeRecordsSequentialFromReaderWithContext (prims : PayloadPrimitives) (maxFrameSize : Nat)
    (context : TransactionPayloadContext) (rest : Bytes) : List TransactionRecord :=
  decodeRecordsSequential prims maxFrameSize context rest.length rest

def loadRecordsFromStream (prims : PayloadPrimitives) (maxFrameSize : Nat) (bytes : Bytes) :
    List TransactionRecord :=
  if verifyHeader bytes then
    decodeRecordsSequentialFromBytesWithContext prims maxFrameSize default bytes
  else []

/-- Whether the file was scanned, and the records `on_record` was called with. The source repeats the
reader's loop here. A read that fails ends the loop as the end of the file does. -/
def Stream.scanDurableRecordsIfUnloaded (env : WalEnv) (io : StreamIo) (durable dataDir : Bool)
    (stream : Stream) : Except String (Bool × List TransactionRecord) :=
  if !durable then .ok (false, [])
  else if !io.storageLock then .error "failed to lock WAL storage"
  else if stream.entries.isSome || !dataDir then .ok (false, [])
  else
    match stream.contents with
    | none => .ok (false, [])
    | some bytes =>
      if !io.openRead then .error "failed to open WAL file"
      else if bytes.length < headerSize then .error "failed to read WAL header"
      else if !verifyHeader bytes then .error "invalid WAL header/version"
      else
        .ok (true, decodeRecordsSequentialFromReaderWithContext env.prims env.maxFrameBytes default
          (bytes.drop headerSize))

/-! ## One record -/

def nextRecord (prims : PayloadPrimitives) (maxFrameSize : Nat) (context : TransactionPayloadContext)
    (bytes : Bytes) : Option (TransactionRecord × Bytes) :=
  match takeExact 8 bytes with
  | none => none
  | some (lenBuf, rest) =>
    if maxFrameSize < leNat lenBuf then none
    else
      match takeExact (leNat lenBuf) rest with
      | none => none
      | some (frame, rest) =>
        match decodeRecordFromStorageWithContext prims frame context with
        | .error _ => none
        | .ok record => some (record, rest)

/-- The frame is read as this record. -/
def FrameOf (prims : PayloadPrimitives) (maxFrameSize : Nat) (context : TransactionPayloadContext)
    (record : TransactionRecord) (frame : Bytes) : Prop :=
  ∃ lenBuf encoded, frame = lenBuf ++ encoded ∧ lenBuf.length = 8 ∧ leNat lenBuf = encoded.length ∧
    encoded.length ≤ maxFrameSize ∧ decodeRecordFromStorageWithContext prims encoded context = .ok record

theorem FrameOf.ne_nil {record : TransactionRecord} {frame : Bytes}
    (h : FrameOf prims maxFrameSize context record frame) : frame ≠ [] := by
  obtain ⟨lenBuf, encoded, rfl, hlen, -⟩ := h
  rintro hnil
  rw [(List.append_eq_nil_iff.mp hnil).1] at hlen
  cases hlen

theorem FrameOf.readsPiece {record : TransactionRecord} {frame : Bytes}
    (h : FrameOf prims maxFrameSize context record frame) :
    ReadsPiece (nextRecord prims maxFrameSize context) record frame := by
  obtain ⟨lenBuf, encoded, rfl, hlen, hcount, hfits, hdecode⟩ := h
  intro rest
  have hbuf : takeExact 8 (lenBuf ++ (encoded ++ rest)) = some (lenBuf, encoded ++ rest) := by
    rw [← hlen]
    exact takeExact_append lenBuf _
  rw [nextRecord, List.append_assoc, hbuf]
  simp only [hcount, if_neg (Nat.not_lt.mpr hfits), takeExact_append, hdecode]

theorem nextRecord_eq_some {bytes rest : Bytes} {record : TransactionRecord}
    (h : nextRecord prims maxFrameSize context bytes = some (record, rest)) :
    ∃ frame, FrameOf prims maxFrameSize context record frame ∧ bytes = frame ++ rest := by
  unfold nextRecord at h
  split at h
  · cases h
  · rename_i lenBuf behind hbuf
    obtain ⟨hlen, rfl⟩ := takeExact_eq_some hbuf
    split_ifs at h with hlimit
    split at h
    · cases h
    · rename_i encoded left hencoded
      obtain ⟨hcount, rfl⟩ := takeExact_eq_some hencoded
      split at h
      · cases h
      · rename_i decoded hdecode
        obtain ⟨rfl, rfl⟩ := Prod.mk.inj (Option.some.inj h)
        refine ⟨lenBuf ++ encoded, ⟨lenBuf, encoded, rfl, hlen, hcount.symm, ?_, hdecode⟩, by simp⟩
        rw [hcount]
        exact Nat.not_lt.mp hlimit

theorem delimited_nextRecord (prims : PayloadPrimitives) (maxFrameSize : Nat)
    (context : TransactionPayloadContext) : Delimited (nextRecord prims maxFrameSize context) := by
  intro input record rest h
  obtain ⟨frame, hframe, hinput⟩ := nextRecord_eq_some h
  exact ⟨frame, hframe.ne_nil, hinput, hframe.readsPiece⟩

/-! ## The loops are scans -/

theorem decodeRecordsSequential_eq_scan (fuel : Nat) (bytes : Bytes) :
    decodeRecordsSequential prims maxFrameSize context fuel bytes =
      (scan (nextRecord prims maxFrameSize context) fuel bytes).1 := by
  induction fuel generalizing bytes with
  | zero => rfl
  | succ fuel ih =>
    rw [decodeRecordsSequential, scan, nextRecord]
    cases takeExact 8 bytes with
    | none => rfl
    | some taken =>
      obtain ⟨lenBuf, rest⟩ := taken
      dsimp only
      split_ifs with hlimit
      · rfl
      · cases takeExact (leNat lenBuf) rest with
        | none => rfl
        | some taken =>
          obtain ⟨frame, rest⟩ := taken
          dsimp only
          cases decodeRecordFromStorageWithContext prims frame context with
          | error e => rfl
          | ok record => exact congrArg (record :: ·) (ih rest)

theorem decodeFramesFromBytes_eq_scan (bytes : Bytes) (fuel pos : Nat) :
    decodeFramesFromBytes prims maxFrameSize context bytes fuel pos =
      (scan (nextRecord prims maxFrameSize context) fuel (bytes.drop pos)).1 := by
  induction fuel generalizing pos with
  | zero => rfl
  | succ fuel ih =>
    rw [decodeFramesFromBytes, scan, nextRecord, takeExact, List.length_drop]
    by_cases hlen : pos + 8 ≤ bytes.length
    · have hbehind : 8 ≤ bytes.length - pos := by omega
      rw [if_pos hlen, if_pos hbehind]
      dsimp only
      split_ifs with hlimit hend
      · rfl
      · rw [takeExact, if_neg (by simp only [List.length_drop]; omega)]
      · have hwhole : leNat ((bytes.drop pos).take 8) ≤ ((bytes.drop pos).drop 8).length := by
          simp only [List.length_drop]
          omega
        rw [takeExact, if_pos hwhole, List.drop_drop, List.drop_drop]
        dsimp only [decodeRecordFromFrame]
        cases decodeRecordFromStorageWithContext prims
            ((bytes.drop (pos + 8)).take (leNat ((bytes.drop pos).take 8))) context with
        | error e => rfl
        | ok record => exact congrArg (record :: ·) (ih _)
    · have hbehind : ¬ 8 ≤ bytes.length - pos := by omega
      rw [if_neg hlen, if_neg hbehind]

theorem decodeRecordsSequential_fuel (bytes : Bytes) {fuel : Nat} (hfuel : bytes.length ≤ fuel) :
    decodeRecordsSequential prims maxFrameSize context fuel bytes =
      decodeRecordsSequentialFromReaderWithContext prims maxFrameSize context bytes := by
  have hd := delimited_nextRecord prims maxFrameSize context
  rw [decodeRecordsSequentialFromReaderWithContext, decodeRecordsSequential_eq_scan, decodeRecordsSequential_eq_scan]
  exact ((hd.scanned hfuel).unique (hd.scanned (Nat.le_refl bytes.length))).1

theorem scanned_reader (bytes : Bytes) : ∃ left, Scanned (nextRecord prims maxFrameSize context) bytes
      (decodeRecordsSequentialFromReaderWithContext prims maxFrameSize context bytes) left := by
  rw [decodeRecordsSequentialFromReaderWithContext, decodeRecordsSequential_eq_scan]
  exact ⟨_, (delimited_nextRecord prims maxFrameSize context).scanned (Nat.le_refl bytes.length)⟩

theorem reader_eq (bytes : Bytes) : decodeRecordsSequentialFromReaderWithContext prims maxFrameSize context bytes =
      match nextRecord prims maxFrameSize context bytes with
      | none => []
      | some (record, rest) =>
        record :: decodeRecordsSequentialFromReaderWithContext prims maxFrameSize context rest := by
  obtain ⟨left, hscan⟩ := @scanned_reader prims maxFrameSize context bytes
  cases hnext : nextRecord prims maxFrameSize context bytes with
  | none => exact (hscan.unique (.stop hnext)).1
  | some read =>
    obtain ⟨record, rest⟩ := read
    obtain ⟨left', hrest⟩ := @scanned_reader prims maxFrameSize context rest
    exact (hscan.unique (.read hnext hrest)).1

theorem decodeRecordsSequentialFromBytes_eq (bytes : Bytes) :
    decodeRecordsSequentialFromBytesWithContext prims maxFrameSize context bytes =
      decodeRecordsSequentialFromReaderWithContext prims maxFrameSize context (bytes.drop headerSize) := by
  rw [decodeRecordsSequentialFromBytesWithContext, decodeFramesFromBytes_eq_scan, ← decodeRecordsSequential_eq_scan]
  exact decodeRecordsSequential_fuel _ (by rw [List.length_drop]; omega)

theorem loadRecordsFromPath_eq_reader (bytes : Bytes) : loadRecordsFromPath prims maxFrameSize (some bytes) =
      if verifyHeader bytes then
        decodeRecordsSequentialFromReaderWithContext prims maxFrameSize default (bytes.drop headerSize)
      else [] := by
  rw [loadRecordsFromPath]
  split_ifs
  · exact decodeRecordsSequential_fuel _ (by rw [List.length_drop]; omega)
  · rfl

/-! ## Torn files -/

theorem reader_take_flatten {records : List TransactionRecord} {frames : List Bytes}
    (h : List.Forall₂ (FrameOf prims maxFrameSize context) records frames) (n : Nat) :
    decodeRecordsSequentialFromReaderWithContext prims maxFrameSize context (frames.flatten.take n) =
      records.take (wholePieces (frames.map List.length) n) := by
  have hd := delimited_nextRecord prims maxFrameSize context
  obtain ⟨_, hscan⟩ := Scanned.take_flatten hd (h.imp fun _ _ => FrameOf.readsPiece) n
  obtain ⟨_, hreader⟩ := scanned_reader (frames.flatten.take n)
  exact (hreader.unique hscan).1

theorem length_take_flatten_pos {records : List TransactionRecord} {frames : List Bytes}
    (h : List.Forall₂ (FrameOf prims maxFrameSize context) records frames) {i : Nat}
    (hi : i < records.length) : 0 < (frames.take (i + 1)).flatten.length := by
  cases h with
  | nil => cases hi
  | cons hframe _ =>
    have := List.length_pos_iff.mpr hframe.ne_nil
    rw [List.take_succ_cons, List.flatten_cons, List.length_append]
    omega

theorem verifyHeader_take_makeHeader_append (body : Bytes) {cut : Nat} (h : headerSize ≤ cut) :
    verifyHeader ((makeHeader ++ body).take cut) = true := by
  have hlen : makeHeader.length = headerSize := rfl
  rw [verifyHeader, List.take_take, Nat.min_eq_left h, ← hlen, List.take_left, beq_self_eq_true]

def unloadedStream (bytes : Bytes) : Stream := ⟨none, none, some bytes⟩

def scannedRecords (env : WalEnv) (bytes : Bytes) : List TransactionRecord :=
  match (unloadedStream bytes).scanDurableRecordsIfUnloaded env .success true true with
  | .ok (_, records) => records
  | .error _ => []

theorem scannedRecords_eq (env : WalEnv) (bytes : Bytes) : scannedRecords env bytes =
      if verifyHeader bytes then
        decodeRecordsSequentialFromReaderWithContext env.prims env.maxFrameBytes default (bytes.drop headerSize)
      else [] := by
  have hshort : bytes.length < headerSize → verifyHeader bytes = false := by
    intro hlen
    rw [verifyHeader, beq_eq_false_iff_ne]
    intro heq
    have := congrArg List.length heq
    rw [List.length_take, makeHeader] at this
    simp only [headerSize] at hlen this
    simp at this
    omega
  simp only [scannedRecords, unloadedStream, Stream.scanDurableRecordsIfUnloaded, StreamIo.success,
    IoOutcome.success, Bool.not_true, Bool.false_eq_true, if_false, Option.isSome_none, Bool.or_self]
  by_cases hlen : bytes.length < headerSize
  · rw [if_pos hlen, hshort hlen]
    rfl
  · rw [if_neg hlen]
    cases verifyHeader bytes <;> rfl

theorem drop_take_makeHeader_append (body : Bytes) (cut : Nat) :
    ((makeHeader ++ body).take cut).drop headerSize = body.take (cut - headerSize) := List.drop_take ..

theorem scannedRecords_take {env : WalEnv} {records : List TransactionRecord} {frames : List Bytes}
    (h : List.Forall₂ (FrameOf env.prims env.maxFrameBytes default) records frames) (cut : Nat) :
    scannedRecords env ((makeHeader ++ frames.flatten).take cut) =
      records.take (wholePieces (frames.map List.length) (cut - headerSize)) := by
  rw [← reader_take_flatten h, scannedRecords_eq, drop_take_makeHeader_append]
  split_ifs with hheader
  · rfl
  · -- The header itself is cut, and nothing stands behind it.
    have hcut : cut - headerSize = 0 :=
      Nat.sub_eq_zero_of_le (Nat.le_of_not_le (hheader ∘ verifyHeader_take_makeHeader_append _))
    rw [hcut, List.take_zero]
    rfl

/-- Over any bytes the two loops agree under any context, and the loaders and the scan, which check
the header, agree; behind a header they agree with the loops. Of a file of whole frames cut anywhere,
each reads exactly the records whose frames end before the cut. -/
theorem frame_readers_agree (env : WalEnv) :
    (∀ context bytes,
      decodeRecordsSequentialFromBytesWithContext env.prims env.maxFrameBytes context bytes =
        decodeRecordsSequentialFromReaderWithContext env.prims env.maxFrameBytes context
          (bytes.drop headerSize)) ∧
    (∀ bytes, scannedRecords env bytes =
      if verifyHeader bytes then
        decodeRecordsSequentialFromBytesWithContext env.prims env.maxFrameBytes default bytes
      else []) ∧
    (∀ bytes, loadRecordsFromStream env.prims env.maxFrameBytes bytes = scannedRecords env bytes ∧
      loadRecordsFromPath env.prims env.maxFrameBytes (some bytes) = scannedRecords env bytes) ∧
    ∀ context records frames,
      List.Forall₂ (FrameOf env.prims env.maxFrameBytes context) records frames →
      ∀ cut, ∃ k,
        (∀ i < records.length,
          i < k ↔ headerSize + (frames.take (i + 1)).flatten.length ≤ cut) ∧
        decodeRecordsSequentialFromBytesWithContext env.prims env.maxFrameBytes context
          ((makeHeader ++ frames.flatten).take cut) = records.take k ∧
        decodeRecordsSequentialFromReaderWithContext env.prims env.maxFrameBytes context
          (((makeHeader ++ frames.flatten).take cut).drop headerSize) = records.take k ∧
        (context = default →
          scannedRecords env ((makeHeader ++ frames.flatten).take cut) = records.take k) := by
  refine ⟨fun _ => decodeRecordsSequentialFromBytes_eq, fun bytes => ?_, fun bytes => ⟨?_, ?_⟩, ?_⟩
  · rw [scannedRecords_eq, decodeRecordsSequentialFromBytes_eq]
  · rw [scannedRecords_eq, loadRecordsFromStream, decodeRecordsSequentialFromBytes_eq]
  · rw [scannedRecords_eq, loadRecordsFromPath_eq_reader]
  · intro context records frames hframes cut
    have hread := reader_take_flatten hframes (cut - headerSize)
    refine ⟨wholePieces (frames.map List.length) (cut - headerSize), fun i hi => ?_, ?_, ?_, ?_⟩
    · have hframe := length_take_flatten_pos hframes hi
      rw [lt_wholePieces_iff (by rwa [List.length_map, ← hframes.length_eq]), ← List.map_take, ← List.length_flatten]
      omega
    · rw [decodeRecordsSequentialFromBytes_eq, drop_take_makeHeader_append, hread]
    · rw [drop_take_makeHeader_append, hread]
    · rintro rfl
      exact scannedRecords_take hframes cut

def deleteRecord : TransactionRecord := ⟨⟨1⟩, none, none, 0, ⟨"user"⟩, .delete, none⟩

def deleteFrame : Bytes :=
  leBytes 8 (TransactionRecord.codec.encode deleteRecord).length ++ TransactionRecord.codec.encode deleteRecord

theorem frameOf_deleteFrame :
    FrameOf (WalEnv.unset .plain).prims (WalEnv.unset .plain).maxFrameBytes default deleteRecord deleteFrame :=
  ⟨leBytes 8 (TransactionRecord.codec.encode deleteRecord).length, TransactionRecord.codec.encode deleteRecord,
    rfl, rfl, by decide +kernel, by decide +kernel, by decide +kernel⟩

/-- Two frames, cut in the middle of the second: the first is read. -/
theorem torn_second_frame :
    scannedRecords (.unset .plain)
      ((makeHeader ++ [deleteFrame, deleteFrame].flatten).take (headerSize + deleteFrame.length + 9)) =
        [deleteRecord] := by
  have hframes := List.Forall₂.cons frameOf_deleteFrame (.cons frameOf_deleteFrame .nil)
  obtain ⟨k, hk, -, -, hscanned⟩ := (frame_readers_agree (.unset .plain)).2.2.2 default
    [deleteRecord, deleteRecord] [deleteFrame, deleteFrame] hframes (headerSize + deleteFrame.length + 9)
  have hfirst : 0 < k := (hk 0 (by decide)).mpr (by decide +kernel)
  have hsecond : ¬ 1 < k := fun h => absurd ((hk 1 (by decide)).mp h) (by decide +kernel)
  have hone : k = 1 := by omega
  rw [hscanned rfl, hone]
  rfl

/-- Behind five bytes that are no header, the two loops read the frame and the scan refuses the file. -/
theorem unverified_header_read :
    decodeRecordsSequentialFromBytesWithContext .plain 100 default ([0, 0, 0, 0, 0] ++ deleteFrame) =
        [deleteRecord] ∧
      (unloadedStream ([0, 0, 0, 0, 0] ++ deleteFrame)).scanDurableRecordsIfUnloaded ⟨.plain, 100, true⟩
        .success true true = .error "invalid WAL header/version" := by
  decide +kernel

end DistDb.Wal
