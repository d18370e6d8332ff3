import DistDb.Wal.Lemmas.Placement

/-! # Runs of append requests

What a worker's stream holds after any sequence of `Append` and `AppendBatch` requests, whatever the
disk did meanwhile. -/

namespace DistDb.Wal
open Lib

inductive AppendRequest where
  | append (record : TransactionRecord) (context : TransactionPayloadContext)
  | appendBatch (records : List TransactionRecord) (context : TransactionPayloadContext)

namespace AppendRequest

def command : AppendRequest → WalCommand
  | append record context => .append record context
  | appendBatch records context => .appendBatch records context

def records : AppendRequest → List TransactionRecord
  | append record _ => [record]
  | appendBatch records _ => records

def context : AppendRequest → TransactionPayloadContext
  | append _ context => context
  | appendBatch _ context => context

end AppendRequest

namespace Worker

def fresh (walFile : Option WalFile) : Worker := ⟨[], walFile, true⟩

def run (env : WalEnv) (worker : Worker) : List (AppendRequest × IoOutcome) → Worker
  | [] => worker
  | (request, io) :: requests => run env (worker.step env request.command io).1 requests

/-- Started on some file and run on some requests. -/
def Reachable (env : WalEnv) (worker : Worker) : Prop :=
  ∃ walFile requests, worker = (fresh walFile).run env requests

def acknowledged (env : WalEnv) (worker : Worker) :
    List (AppendRequest × IoOutcome) → List TransactionRecord
  | [] => []
  | (request, io) :: requests =>
    let handled := worker.step env request.command io
    (match handled.2 with
      | .ok () => request.records
      | .error _ => []) ++ acknowledged env handled.1 requests

end Worker

def requested (requests : List (AppendRequest × IoOutcome)) : List TransactionRecord :=
  requests.flatMap fun request => request.1.records

/-- The stream is in id order and holds each acknowledged record once, and nothing else. -/
def KeepsAcknowledged (entries acknowledged : List TransactionRecord) : Prop :=
  SortedBy TransactionRecord.key entries ∧ entries.Perm acknowledged.dedup

instance (entries acknowledged : List TransactionRecord) :
    Decidable (KeepsAcknowledged entries acknowledged) :=
  inferInstanceAs (Decidable (_ ∧ _))

/-! ## One request -/

variable {env : WalEnv} {io : IoOutcome} {worker : Worker} {log : StreamLog}

/-- A request either places its records and is acknowledged, or fails and changes no entry. -/
def Handled.Places (handled : Handled) (entries records : List TransactionRecord) : Prop :=
  (handled.2 = .ok () ∧ handled.1.entries = records.foldl placeEntry entries) ∨
    ∃ e, handled.2 = .error e ∧ handled.1.entries = entries

theorem Worker.handleAppend_places (env : WalEnv) (io : IoOutcome) (worker : Worker)
    (record : TransactionRecord) (context : TransactionPayloadContext) :
    (worker.handleAppend env io record context).Places worker.entries [record] := by
  have hplaced : [record].foldl placeEntry worker.entries = placeEntry worker.entries record := rfl
  rw [placeEntry] at hplaced
  unfold handleAppend
  split_ifs with hord
  · rw [if_pos hord] at hplaced
    split
    · exact Or.inl ⟨rfl, hplaced.symm⟩
    · split
      · exact Or.inr ⟨_, rfl, rfl⟩
      · split
        · exact Or.inr ⟨_, rfl, rfl⟩
        · exact Or.inl ⟨rfl, hplaced.symm⟩
  · rw [if_neg hord] at hplaced
    cases hplace : placeOutOfOrder worker.entries record with
    | none =>
      rw [hplace, Option.getD_none] at hplaced
      exact Or.inl ⟨rfl, hplaced.symm⟩
    | some stagedEntries =>
      rw [hplace, Option.getD_some] at hplaced
      dsimp only
      split
      · exact Or.inl ⟨rfl, hplaced.symm⟩
      · split
        · exact Or.inr ⟨_, rfl, rfl⟩
        · exact Or.inl ⟨rfl, hplaced.symm⟩

theorem Worker.handleAppendBatch_places (env : WalEnv) (io : IoOutcome) (worker : Worker)
    (records : List TransactionRecord) (context : TransactionPayloadContext) :
    (worker.handleAppendBatch env io records context).Places worker.entries records := by
  unfold handleAppendBatch
  split_ifs with hord
  · have hextend := batchOrdered_entries hord
    split
    · exact Or.inl ⟨rfl, hextend⟩
    · split
      · exact Or.inr ⟨_, rfl, rfl⟩
      · split
        · exact Or.inr ⟨_, rfl, rfl⟩
        · exact Or.inl ⟨rfl, hextend⟩
  · have hmerged := mergeBatch_workingEntries worker.entries records
    dsimp only
    split
    · exact Or.inl ⟨rfl, hmerged⟩
    · by_cases hdirty : (mergeBatch worker.entries records).stagedDirty = true
      · rw [if_pos hdirty]
        split
        · exact Or.inr ⟨_, rfl, rfl⟩
        · exact Or.inl ⟨rfl, hmerged⟩
      · rw [if_neg hdirty]
        exact Or.inl ⟨rfl, by rw [← hmerged, mergeBatch_clean (by simpa using hdirty)]⟩

theorem Worker.step_places (env : WalEnv) (io : IoOutcome) (worker : Worker) (request : AppendRequest) :
    (worker.step env request.command io).Places worker.entries request.records := by
  have hlocks : ∀ {handled : Handled} {records}, handled.Places worker.entries records →
      (worker.withLocks io handled).Places worker.entries records := by
    intro handled records hplaces
    unfold withLocks
    split_ifs
    · exact hplaces
    · exact Or.inr ⟨_, rfl, rfl⟩
  unfold step
  split_ifs
  · cases request with
    | append record context => exact hlocks (handleAppend_places env io worker record context)
    | appendBatch records context =>
      simp only [AppendRequest.command, AppendRequest.records]
      split_ifs with hempty
      · rw [List.isEmpty_iff.mp hempty]
        exact Or.inl ⟨rfl, rfl⟩
      · exact hlocks (handleAppendBatch_places env io worker records context)
  · exact Or.inr ⟨_, rfl, rfl⟩

def Handled.Merges (handled : Handled) (log : StreamLog) (records : List TransactionRecord) : Prop :=
  (handled.2 = .ok () ∧ handled.1.entries = (log.mergeAll records).entries) ∨
    ∃ e, handled.2 = .error e ∧ handled.1.entries = log.entries

theorem Worker.step_merges (env : WalEnv) (io : IoOutcome) (request : AppendRequest)
    (h : worker.entries = log.entries) :
    (worker.step env request.command io).Merges log request.records := by
  have hplaces := step_places env io worker request
  rw [h] at hplaces
  rcases hplaces with ⟨hack, hentries⟩ | hrefused
  · exact Or.inl ⟨hack, hentries.trans foldl_placeEntry_log⟩
  · exact Or.inr hrefused

/-! ## Runs -/

/-- After any run the stream holds the acknowledged records, placed in the order they were
acknowledged. -/
theorem Worker.run_eq_foldl (env : WalEnv) (worker : Worker) (requests : List (AppendRequest × IoOutcome)) :
    (worker.run env requests).entries = (worker.acknowledged env requests).foldl placeEntry worker.entries := by
  induction requests generalizing worker with
  | nil => rfl
  | cons request requests ih =>
    simp only [run, acknowledged]
    rw [ih]
    rcases step_places env request.2 worker request.1 with ⟨hack, hentries⟩ | ⟨e, hack, hentries⟩
    · rw [hack, List.foldl_append, hentries]
    · rw [hack, List.nil_append, hentries]

theorem Worker.run_entries (env : WalEnv) (requests : List (AppendRequest × IoOutcome))
    (h : worker.entries = log.entries) :
    (worker.run env requests).entries = (log.mergeAll (worker.acknowledged env requests)).entries := by
  rw [run_eq_foldl, h, foldl_placeEntry_log]

theorem Worker.run_fresh_entries (env : WalEnv) (walFile : Option WalFile)
    (requests : List (AppendRequest × IoOutcome)) :
    ((fresh walFile).run env requests).entries =
      (KeyedLog.empty.mergeAll ((fresh walFile).acknowledged env requests) : StreamLog).entries :=
  run_entries env requests rfl

theorem Worker.Reachable.exists_log (h : worker.Reachable env) : ∃ log : StreamLog, worker.entries = log.entries := by
  obtain ⟨walFile, requests, rfl⟩ := h
  exact ⟨_, run_fresh_entries env walFile requests⟩

theorem Worker.acknowledged_sublist (requests : List (AppendRequest × IoOutcome)) :
    (worker.acknowledged env requests).Sublist (requested requests) := by
  induction requests generalizing worker with
  | nil => exact List.Sublist.refl _
  | cons request requests ih =>
    simp only [acknowledged, requested, List.flatMap_cons]
    refine List.Sublist.append ?_ ih
    split
    · exact List.Sublist.refl _
    · exact List.nil_sublist _

theorem Worker.run_keepsAcknowledged_iff {walFile : Option WalFile} {requests : List (AppendRequest × IoOutcome)} :
    KeepsAcknowledged ((fresh walFile).run env requests).entries ((fresh walFile).acknowledged env requests) ↔
      NoReturn TransactionRecord.key ((fresh walFile).acknowledged env requests) := by
  rw [KeepsAcknowledged, run_fresh_entries, ← KeyedLog.nodup_mergeAll_iff]
  refine ⟨fun h => h.2.nodup_iff.mpr (List.nodup_dedup _), fun h => ⟨KeyedLog.sorted _, ?_⟩⟩
  rw [List.perm_ext_iff_of_nodup h (List.nodup_dedup _)]
  intro x
  simp [KeyedLog.mem_mergeAll]

/-! ## A stream as a plain log

Writers number their records on from the last one, so a stream takes them at its end or not at all.
The layers above work with the list of entries and an append that may fail. -/

def latestTransactionId (log : List TransactionRecord) : Option TransactionId :=
  log.getLast?.map (·.id)

def nextTransactionId (log : List TransactionRecord) : TransactionId :=
  match latestTransactionId log with
  | some id => ⟨id.val + 1⟩
  | none => ⟨1⟩

/-- The error, if any, with which a stream that holds the first list refuses the second. -/
abbrev AppendFault := List TransactionRecord → List TransactionRecord → Option String

def appendRecords (fault : AppendFault) (log records : List TransactionRecord) :
    Except String (List TransactionRecord) :=
  match fault log records with
  | none => .ok (log ++ records)
  | some e => .error e

def NumberedOn (log records : List TransactionRecord) : Prop :=
  records.Pairwise (·.key < ·.key) ∧ ∀ x ∈ log, ∀ r ∈ records, x.key < r.key

end DistDb.Wal
