import DistDb.Coordinator.Theorems
import DistDb.Session.Lemmas.Exclusion

/-! # Theorems about the transactions of sessions -/

namespace DistDb.Session
open Lib Sql Coordinator

namespace ServerApp

variable {σ : Type} {settings : Settings} {app : ServerApp σ}

/-! ## Bookkeeping -/

def history (settings : Settings) : ServerApp σ → List (Input σ) → List (Input σ × Outcome σ)
  | _, [] => []
  | app, input :: inputs =>
    (input, (app.handleRequest settings input.1 input.2).2) :: history settings (app.step settings input) inputs

def captured (events : List (Input σ × Outcome σ)) : String → Option σ := events.foldl capture fun _ => none

theorem tracks_run {inputs : List (Input σ)} {captured : String → Option σ}
    (hrun : Along (step settings) (SnapshotCommitSucceeds settings) app inputs)
    (h : ∀ s, app.Tracks captured s) :
    ∀ s, (runFrom (step settings) app inputs).Tracks ((history settings app inputs).foldl capture captured) s := by
  induction inputs generalizing app captured with
  | nil => exact h
  | cons input inputs ih => exact ih hrun.2 (tracks_step h input hrun.1)

theorem tracks_new (captured : String → Option σ) (s : String) : (new : ServerApp σ).Tracks captured s :=
  .of_idle (by simp [new, CoordinatorState.new, CoordinatorState.active]) (by simp [new])

theorem handleRequest_committed {env : Env σ} {request : Request} {input : CommitInput σ}
    (h : (app.handleRequest settings env request).2.committed = some input) :
    let app' := app.enforceTransactionSnapshotLimits settings env.epochNanos
    ∃ staged, app'.coordinator.stagedBySession.lookup input.sessionId = some staged ∧
      input = app'.commitInput input.sessionId staged := by
  obtain hquiet | ⟨sessionId, query, -, ⟨-, hnone, -⟩ | ⟨staged, -, hlookup, -, hcommitted⟩⟩ :=
    handleRequest_cases app settings env request
  · rw [hquiet.2] at h
    cases h
  · rw [hnone] at h
    cases h
  · rw [hcommitted, Option.some.injEq] at h
    subst h
    exact ⟨staged, hlookup, rfl⟩

/-- When no commit of a session with a snapshot fails, a session is in the maps only while it has an
active transaction, and a commit is validated against the snapshot of that transaction's own `BEGIN`. -/
theorem run_bookkeepingAgrees {inputs : List (Input σ)}
    (hrun : Along (step settings) (SnapshotCommitSucceeds settings) new inputs) :
    let app := runFrom (step settings) new inputs
    (∀ s, (app.txBeginEpochMsBySession.lookup s).isSome = true ∨
        (app.txSnapshotBySession.lookup s).isSome = true ∨
        (app.txReadObservationsBySession.lookup s).isSome = true →
      app.coordinator.active s = true) ∧
    ∀ env request input, (app.handleRequest settings env request).2.committed = some input →
      input.snapshot = captured (history settings new inputs) input.sessionId := by
  have htracks := tracks_run hrun (tracks_new fun _ => none)
  refine ⟨fun s hmaps => ?_, fun env request input hinput => ?_⟩
  · by_contra hidle
    obtain ⟨hbegin, hsnapshot, hobs⟩ := (htracks s).idle (by simpa using hidle)
    simp [hbegin, hsnapshot, hobs] at hmaps
  · obtain ⟨staged, hlookup, heq⟩ := handleRequest_committed hinput
    have hlive := (tracks_enforce settings env.epochNanos htracks input.sessionId).live
      (CoordinatorState.active_of_lookup hlookup)
    rw [heq]
    exact hlive

def plainSettings : Settings where
  parse := CoordinatorState.insertsIntoOrders
  selectPlan := fun _ => none
  ttlNanos := 0
  maxSessions := 0

def plainEnv (database : ℕ) (result : Except String ℕ) : Env ℕ where
  knownSession := true
  epochNanos := 1
  database := database
  seedSandboxWal := .ok ()
  authorization := none
  execute := fun _ => .ok 1
  transactionalRead := fun _ => .ok 0
  commitStagedQueries := fun input => ⟨input.stagedQueries.length, result⟩

def request (sessionId sql : String) : Request := .query sessionId ⟨"shop", sql⟩

def committedTransaction : List (Input ℕ) :=
  [(plainEnv 1 (.ok 0), request "alice" "BEGIN"), (plainEnv 2 (.ok 1), request "alice" "INSERT"),
    (plainEnv 2 (.ok 1), request "alice" "COMMIT")]

theorem committedTransaction_bookkeepingAgrees :
    Along (step plainSettings) (SnapshotCommitSucceeds plainSettings) new committedTransaction ∧
      ((runFrom (step plainSettings) new committedTransaction).coordinator.active "alice" = false →
        (runFrom (step plainSettings) new committedTransaction).txSnapshotBySession.lookup "alice" = none) := by
  have hrun : Along (step plainSettings) (SnapshotCommitSucceeds plainSettings) new committedTransaction :=
    ⟨fun _ _ _ _ => ⟨0, rfl⟩, fun _ _ _ _ => ⟨1, rfl⟩, fun _ _ _ _ => ⟨1, rfl⟩, trivial⟩
  refine ⟨hrun, fun hidle => ?_⟩
  by_contra hsome
  have hactive := (run_bookkeepingAgrees hrun).1 "alice"
    (.inr (.inl (Option.isSome_iff_ne_none.mpr hsome)))
  rw [hidle] at hactive
  cases hactive

def failedCommit : List (Input ℕ) :=
  [(plainEnv 1 (.ok 0), request "alice" "BEGIN"), (plainEnv 2 (.error "conflict"), request "alice" "COMMIT")]

def lockedAfterFailure : List (Input ℕ) :=
  failedCommit ++ [(plainEnv 3 (.ok 0), request "alice" "LOCK TABLES orders WRITE")]

def unlockOutcome : Outcome ℕ :=
  ((runFrom (step plainSettings) new lockedAfterFailure).handleRequest plainSettings (plainEnv 4 (.ok 0))
    (request "alice" "UNLOCK TABLES")).2

/-- After a failed commit the session is idle but keeps its begin time, snapshot and observations, and
the commit of its next transaction is validated against the snapshot of the failed one. -/
theorem failedCommit_staleSnapshot :
    (runFrom (step plainSettings) new failedCommit).coordinator.active "alice" = false ∧
      (runFrom (step plainSettings) new failedCommit).txBeginEpochMsBySession.lookup "alice" = some 1 ∧
      (runFrom (step plainSettings) new failedCommit).txSnapshotBySession.lookup "alice" = some 1 ∧
      (runFrom (step plainSettings) new failedCommit).txReadObservationsBySession.lookup "alice" = some [] ∧
      unlockOutcome.committed.bind (·.snapshot) = some 1 ∧
      captured (history plainSettings new lockedAfterFailure) "alice" = none := by
  decide +kernel

/-! ## Table locks exclude other writers -/

/-- When queries change only the tables they name, and a table is locked only while no other session
has staged a write on it, a query that changes a locked table is executed only by the lock's owner. -/
theorem run_locksExclude {writes : DataQuery → List String} {inputs : List (Input σ)}
    (hrun : Along (step settings) (LocksUnstaged settings writes) new inputs) (env : Env σ) (request : Request)
    (hinput : (runFrom (step settings) new inputs).LocksUnstaged settings writes (env, request)) :
    let app := runFrom (step settings) new inputs
    ∀ query ∈ (app.handleRequest settings env request).2.executed, ∀ t ∈ writes query, ∀ owner,
      (app.enforceTransactionSnapshotLimits settings env.epochNanos).coordinator.locks.tableLocksByTable.lookup t =
        some owner →
      ∃ sent, request = .query owner sent := by
  have hnew : (new : ServerApp σ).coordinator.StagedFree writes := by
    intro s query hquery
    rw [new, CoordinatorState.staged_new] at hquery
    cases hquery
  have hfree := hrun.invariant (I := fun app : ServerApp σ => app.coordinator.StagedFree writes)
    (fun app input hinput h => stagedFree_step h input hinput) hnew
  intro app query hquery t ht owner howner
  exact executed_owner hfree hinput hquery ht howner

def plainWrites : DataQuery → List String := dmlTableIdsForQuery plainSettings.parse

def lockedInsert : List (Input ℕ) :=
  [(plainEnv 1 (.ok 0), request "alice" "LOCK TABLES orders WRITE"), (plainEnv 1 (.ok 0), request "alice" "INSERT")]

theorem lockedInsert_locksExclude :
    (runFrom (step plainSettings) new lockedInsert).coordinator.locks.tableLocksByTable.lookup "orders" =
        some "alice" ∧
      ((runFrom (step plainSettings) new lockedInsert).handleRequest plainSettings (plainEnv 1 (.ok 1))
        (request "alice" "UNLOCK TABLES")).2.executed = [⟨"shop", "INSERT"⟩] ∧
      ∃ sent, request "alice" "UNLOCK TABLES" = .query "alice" sent := by
  have hlock : (new : ServerApp ℕ).LocksUnstaged plainSettings plainWrites
      (plainEnv 1 (.ok 0), request "alice" "LOCK TABLES orders WRITE") := by
    refine ⟨fun _ t ht => ht, fun _ t _ s _ staged hstaged => ?_⟩
    simp [enforceTransactionSnapshotLimits, plainSettings, new] at hstaged
  have hrun : Along (step plainSettings) (LocksUnstaged plainSettings plainWrites) new lockedInsert :=
    ⟨hlock, ⟨fun _ t ht => ht, fun hcontrol => absurd hcontrol (by decide +kernel)⟩, trivial⟩
  refine ⟨by decide +kernel, by decide +kernel, ?_⟩
  exact run_locksExclude hrun (plainEnv 1 (.ok 1)) (request "alice" "UNLOCK TABLES")
    ⟨fun _ t ht => ht, fun hcontrol => absurd hcontrol (by decide +kernel)⟩ ⟨"shop", "INSERT"⟩
    (by decide +kernel) "orders" (by decide +kernel) "alice" (by decide +kernel)

def stagedThenLocked : List (Input ℕ) :=
  [(plainEnv 1 (.ok 0), request "bob" "BEGIN"), (plainEnv 1 (.ok 0), request "bob" "INSERT"),
    (plainEnv 1 (.ok 0), request "alice" "LOCK TABLES orders WRITE")]

/-- A write staged before the lock is executed at `COMMIT` while another session holds it. -/
theorem stagedThenLocked_notExcluded :
    (runFrom (step plainSettings) new stagedThenLocked).coordinator.locks.tableLocksByTable.lookup "orders" =
        some "alice" ∧
      ((runFrom (step plainSettings) new stagedThenLocked).handleRequest plainSettings (plainEnv 1 (.ok 1))
        (request "bob" "COMMIT")).2.executed = [⟨"shop", "INSERT"⟩] ∧
      plainWrites ⟨"shop", "INSERT"⟩ = ["orders"] := by
  decide +kernel

end ServerApp

end DistDb.Session
