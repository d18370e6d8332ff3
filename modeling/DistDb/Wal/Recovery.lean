import DistDb.Wal.Theorems

/-! # Recovery after a crash

A crash may leave any part of the bytes that an append was writing at the end of the file. -/

namespace DistDb.Wal
open Lib

variable {env : WalEnv} {records : List TransactionRecord} {frames : Bytes}

namespace Framed

theorem decodeRecordsSequential_append (h : Framed env records frames) (fuel : Nat) (tail : Bytes) :
    decodeRecordsSequential env.prims env.maxFrameBytes default (records.length + fuel) (frames ++ tail) =
      records ++ decodeRecordsSequential env.prims env.maxFrameBytes default fuel tail := by
  induction h with
  | nil => simp
  | @cons record records encoded frames hlen hfits hdecode _ ih =>
    have hcount := takeExact_append (leBytes 8 encoded.length) (encoded ++ (frames ++ tail))
    rw [length_leBytes] at hcount
    rw [List.length_cons, Nat.add_right_comm, decodeRecordsSequential, List.append_assoc, List.append_assoc, hcount]
    simp only [leNat_leBytes hfits, if_neg (Nat.not_lt.mpr hlen), takeExact_append, hdecode]
    rw [ih, List.cons_append]

/-- Whatever is behind them, whole frames are read. -/
theorem loadRecordsFromPath_append (h : Framed env records frames) (tail : Bytes) :
    ∃ fuel, loadRecordsFromPath env.prims env.maxFrameBytes (some (makeHeader ++ frames ++ tail)) =
      records ++ decodeRecordsSequential env.prims env.maxFrameBytes default fuel tail := by
  have hfuel : records.length ≤ (makeHeader ++ (frames ++ tail)).length := by
    have hle := h.length_le
    simp only [List.length_append]
    omega
  obtain ⟨fuel, hfuel⟩ := Nat.exists_eq_add_of_le hfuel
  exact ⟨fuel, by rw [List.append_assoc, loadRecordsFromPath_header, hfuel, h.decodeRecordsSequential_append]⟩

/-- A frame whose count is there and whose bytes are not ends the loop, whatever is behind it. -/
theorem decodeRecordsSequential_torn {encoded : Bytes} (hfits : encoded.length < 256 ^ 8) {k : Nat} (hk : 8 ≤ k)
    {later : Bytes} (htorn : k + later.length < 8 + encoded.length) (fuel : Nat) :
    decodeRecordsSequential env.prims env.maxFrameBytes default fuel
      ((leBytes 8 encoded.length ++ encoded).take k ++ later) = [] := by
  obtain ⟨k, rfl⟩ := Nat.exists_eq_add_of_le hk
  cases fuel with
  | zero => rfl
  | succ fuel =>
    have hcount := takeExact_append (leBytes 8 encoded.length) (encoded.take k ++ later)
    rw [length_leBytes] at hcount
    have htake : (leBytes 8 encoded.length ++ encoded).take (8 + k) = leBytes 8 encoded.length ++ encoded.take k := by
      rw [List.take_append, length_leBytes, Nat.add_sub_cancel_left, List.take_of_length_le (by simp)]
    have hshort : takeExact encoded.length (encoded.take k ++ later) = none := by
      rw [takeExact, if_neg]
      simp only [List.length_append, List.length_take]
      omega
    rw [decodeRecordsSequential, htake, List.append_assoc, hcount]
    simp only [leNat_leBytes hfits, hshort, ite_self]

/-- Frames that are cut off read as the records whose frames are whole. -/
theorem decodeRecordsSequential_take (h : Framed env records frames) (k fuel : Nat) :
    ∃ j, decodeRecordsSequential env.prims env.maxFrameBytes default fuel (frames.take k) = records.take j := by
  induction h generalizing k fuel with
  | nil => exact ⟨0, by cases fuel <;> simp [decodeRecordsSequential, takeExact]⟩
  | @cons record records encoded frames hlen hfits hdecode _ ih =>
    have hlength : (leBytes 8 encoded.length ++ encoded).length = 8 + encoded.length := by simp
    cases fuel with
    | zero => exact ⟨0, rfl⟩
    | succ fuel =>
      rw [List.take_append, hlength]
      by_cases hwhole : 8 + encoded.length ≤ k
      · obtain ⟨j, hj⟩ := ih (k - (8 + encoded.length)) fuel
        refine ⟨j + 1, ?_⟩
        have hone := (cons hlen hfits hdecode nil).decodeRecordsSequential_append fuel
          (frames.take (k - (8 + encoded.length)))
        rw [List.append_nil, List.length_singleton, Nat.add_comm, hj] at hone
        rw [List.take_of_length_le (hlength.trans_le hwhole), hone]
        rfl
      · refine ⟨0, ?_⟩
        rw [Nat.sub_eq_zero_of_le (by omega), List.take_zero]
        by_cases hcount : 8 ≤ k
        · exact decodeRecordsSequential_torn hfits hcount (by simp; omega) _
        · rw [decodeRecordsSequential, takeExact, if_neg]
          · rfl
          · simp
            omega

end Framed

namespace Stream

/-- A run in which everything was acknowledged and written leaves these contents in the file. -/
structure Leaves (env : WalEnv) (ops : List (StreamOp × StreamIo)) (contents : Bytes) : Prop where
  acknowledged : Along (next env) (Acknowledged env) fresh ops
  durable : Along (next env) (fun s input => s.WritesDurably env input.1 input.2) fresh ops
  contents : (runFrom (next env) fresh ops).contents = some contents

variable {ops : List (StreamOp × StreamIo)} {contents : Bytes}

theorem Leaves.framed (hp : env.prims.Correct) (h : Leaves env ops contents) :
    ∃ frames, contents = makeHeader ++ frames ∧
      Framed env (runFrom (fun entries input => input.1.meaning entries) [] ops) frames := by
  rcases (run_holds hp h.acknowledged h.durable).disk with ⟨hnone, -⟩ | ⟨frames, hsome, hframed⟩
  · cases hnone.symm.trans h.contents
  · exact ⟨frames, Option.some.inj (h.contents.symm.trans hsome), hframed⟩

def oneAppend : List (StreamOp × StreamIo) := [(.append (insertRecord [1]) default, .success)]

theorem leaves_oneAppend : ∃ contents, Leaves (.unset .plain) oneAppend contents :=
  ⟨_, ⟨rfl, trivial⟩, ⟨⟨fun _ => rfl, fun _ => rfl, .inl rfl, by decide⟩, trivial⟩, rfl⟩

/-- After a crash in the middle of a batch, hydration finds all that was acknowledged before it, and the batch up to
some record. -/
theorem crash_recovers_acknowledged (env : WalEnv) (hp : env.prims.Correct) (hleaves : Leaves env ops contents)
    (context : TransactionPayloadContext) (rand : ℕ → Option Nonce) (records : List TransactionRecord)
    (hrecords : ∀ record ∈ records, DurableUnder env context record) {frames : Bytes}
    (hframes : frameRecords env.prims context rand records = .ok frames) (k : ℕ) :
    ∃ j, loadRecordsFromPath env.prims env.maxFrameBytes (some (contents ++ frames.take k)) =
      runFrom (fun entries input => input.1.meaning entries) [] ops ++ records.take j := by
  obtain ⟨written, rfl, hwritten⟩ := hleaves.framed hp
  obtain ⟨fuel, hload⟩ := hwritten.loadRecordsFromPath_append (frames.take k)
  obtain ⟨j, hj⟩ := (Framed.of_frameRecords hp hrecords hframes).decodeRecordsSequential_take k fuel
  exact ⟨j, hload.trans (by rw [hj])⟩

theorem torn_append_recovers : ∃ contents frames j, Leaves (.unset .plain) oneAppend contents ∧
    frameRecords .plain default (fun _ => none) [insertRecord [2]] = .ok frames ∧
    loadRecordsFromPath .plain (WalEnv.unset .plain).maxFrameBytes (some (contents ++ frames.take 20)) =
      [insertRecord [1]] ++ [insertRecord [2]].take j := by
  obtain ⟨contents, hleaves⟩ := leaves_oneAppend
  obtain ⟨j, hj⟩ := crash_recovers_acknowledged (.unset .plain) PayloadPrimitives.plain_correct hleaves default
    (fun _ => none) [insertRecord [2]] (by decide) rfl 20
  exact ⟨contents, _, j, hleaves, rfl, hj⟩

/-- The bytes that a crash has left of a frame are not removed: records that are acknowledged after the restart are not
found by the next one, until they fill up that frame. -/
theorem torn_frame_hides_later_records (env : WalEnv) (hp : env.prims.Correct) (hleaves : Leaves env ops contents)
    (context : TransactionPayloadContext) (rand : Option Nonce) (record : TransactionRecord) {frame : Bytes}
    (hframe : frameRecordWithContext env.prims rand record context = .ok frame) (hsize : frame.length < 256 ^ 8)
    {k : ℕ} (hk : 8 ≤ k) (later : Bytes) (htorn : k + later.length < frame.length) :
    loadRecordsFromPath env.prims env.maxFrameBytes (some (contents ++ (frame.take k ++ later))) =
      runFrom (fun entries input => input.1.meaning entries) [] ops := by
  obtain ⟨written, rfl, hwritten⟩ := hleaves.framed hp
  obtain ⟨fuel, hload⟩ := hwritten.loadRecordsFromPath_append (frame.take k ++ later)
  unfold frameRecordWithContext at hframe
  split at hframe
  · cases hframe
  · obtain rfl := Except.ok.inj hframe
    simp only [List.length_append, length_leBytes] at hsize htorn
    rw [hload, Framed.decodeRecordsSequential_torn (by omega) hk htorn, List.append_nil]

theorem torn_append_hides_byte : ∃ contents frame, Leaves (.unset .plain) oneAppend contents ∧
    frameRecordWithContext .plain none (insertRecord [2]) default = .ok frame ∧
    loadRecordsFromPath .plain (WalEnv.unset .plain).maxFrameBytes (some (contents ++ (frame.take 20 ++ [0]))) =
      [insertRecord [1]] := by
  obtain ⟨contents, hleaves⟩ := leaves_oneAppend
  refine ⟨contents, _, hleaves, rfl, torn_frame_hides_later_records (.unset .plain) PayloadPrimitives.plain_correct
    hleaves default none (insertRecord [2]) rfl ?_ ?_ [0] ?_⟩
  · decide +kernel
  · decide
  · decide +kernel

end Stream

end DistDb.Wal
