import DistDb.Coordinator.Lemmas.Staged
import DistDb.Session.Control

/-! # The maps of the sessions follow the coordinator

A session that the coordinator does not know is in none of the three maps, and an active session's
snapshot is the one its own `BEGIN` captured. -/

namespace DistDb.Coordinator.CoordinatorState
open Lib Sql

/-! ## Active sessions -/

variable {parse : Parser} {state : CoordinatorState} {sessionId : String}

@[simp] theorem active_setStaged (queries : List DataQuery) :
    (state.setStaged sessionId queries).active = Function.update state.active sessionId true := by
  funext s
  by_cases hs : s = sessionId
  · subst hs
    simp [active, setStaged]
  · simp [active, setStaged, Function.update_of_ne hs, Finmap.lookup_insert_of_ne _ hs]

@[simp] theorem active_erase (state : CoordinatorState) (locks : TableLocks) (sessionId : String) :
    active ⟨state.stagedBySession.erase sessionId, locks⟩ = Function.update state.active sessionId false := by
  funext s
  by_cases hs : s = sessionId
  · subst hs
    simp [active]
  · simp [active, Function.update_of_ne hs, Finmap.lookup_erase_ne hs]

@[simp] theorem active_dropSession :
    (state.dropSession sessionId).active = Function.update state.active sessionId false :=
  active_erase state _ sessionId

theorem active_of_lookup {queries : List DataQuery}
    (h : state.stagedBySession.lookup sessionId = some queries) : state.active sessionId = true := by
  simp [active, h]

theorem begin_cases (state : CoordinatorState) (sessionId : String) :
    (∃ err, state.begin sessionId = (state, .error err)) ∨
      state.active sessionId = false ∧ ∃ state', state.begin sessionId = (state', .ok ()) ∧
        state'.active = Function.update state.active sessionId true := by
  unfold begin
  split
  · exact .inl ⟨_, rfl⟩
  · rename_i hactive
    exact .inr ⟨by simpa using hactive, _, rfl, active_setStaged []⟩

theorem beginWithTableLocks_cases (state : CoordinatorState) (sessionId : String) (tableIds : List String) :
    (∃ err, state.beginWithTableLocks sessionId tableIds = (state, .error err)) ∨
      state.active sessionId = false ∧ ∃ state', state.beginWithTableLocks sessionId tableIds = (state', .ok ()) ∧
        state'.active = Function.update state.active sessionId true := by
  simp only [beginWithTableLocks]
  split_ifs with hactive
  · exact .inl ⟨_, rfl⟩
  · exact .inl ⟨_, rfl⟩
  · exact .inl ⟨_, rfl⟩
  · exact .inr ⟨by simpa using hactive, _, rfl, active_setStaged []⟩

theorem takeForCommit_cases (state : CoordinatorState) (sessionId : String) :
    (∃ err, state.takeForCommit sessionId = (state, .error err)) ∨
      ∃ staged, state.stagedBySession.lookup sessionId = some staged ∧ state.takeForCommit sessionId =
          ({ state with stagedBySession := state.stagedBySession.erase sessionId }, .ok staged) := by
  unfold takeForCommit
  split
  · exact .inl ⟨_, rfl⟩
  · rename_i staged hlookup
    exact .inr ⟨staged, hlookup, rfl⟩

theorem active_routeQuery (parse : Parser) (state : CoordinatorState) (sessionId : String)
    (query : DataQuery) (canStage : Bool) :
    (state.routeQuery parse sessionId query canStage).1.active = state.active := by
  obtain ⟨message, h⟩ | ⟨-, ⟨staged, hlookup, -, h⟩ | ⟨-, h⟩⟩ :=
    routeQuery_cases parse state sessionId query canStage
  · rw [h]
  · rw [h, active_setStaged]
    exact Function.update_eq_self_iff.mpr (active_of_lookup hlookup).symm
  · rw [h]

theorem active_releaseRemoteLocks (ownerId : String) (tableIds : List String) :
    (state.releaseRemoteLocks ownerId tableIds).active = state.active := by
  simp only [releaseRemoteLocks]
  split_ifs <;> rfl

end DistDb.Coordinator.CoordinatorState

namespace DistDb.Session
open Lib Sql Coordinator

namespace ServerApp

variable {σ : Type} {settings : Settings} {app : ServerApp σ}

/-! ## Agreement -/

/-- An idle session is in none of the maps; an active one has the snapshot `captured`. -/
structure Tracks (app : ServerApp σ) (captured : String → Option σ) (s : String) : Prop where
  idle : app.coordinator.active s = false →
    app.txBeginEpochMsBySession.lookup s = none ∧ app.txSnapshotBySession.lookup s = none ∧
      app.txReadObservationsBySession.lookup s = none
  live : app.coordinator.active s = true → app.txSnapshotBySession.lookup s = captured s

structure SameSession (app app' : ServerApp σ) (s : String) : Prop where
  active : app'.coordinator.active s = app.coordinator.active s
  beginEpoch : app'.txBeginEpochMsBySession.lookup s = app.txBeginEpochMsBySession.lookup s
  snapshot : app'.txSnapshotBySession.lookup s = app.txSnapshotBySession.lookup s
  observations : app'.txReadObservationsBySession.lookup s = app.txReadObservationsBySession.lookup s

variable {app' : ServerApp σ} {captured captured' : String → Option σ} {s sessionId : String}

theorem Tracks.congr (h : app.Tracks captured s) (hsame : SameSession app app' s)
    (hcaptured : captured' s = captured s) : app'.Tracks captured' s where
  idle hidle := by
    rw [hsame.beginEpoch, hsame.snapshot, hsame.observations]
    exact h.idle (hsame.active ▸ hidle)
  live hlive := by
    rw [hsame.snapshot, hcaptured]
    exact h.live (hsame.active ▸ hlive)

theorem Tracks.of_idle (hidle : app.coordinator.active s = false)
    (hmaps : app.txBeginEpochMsBySession.lookup s = none ∧ app.txSnapshotBySession.lookup s = none ∧
      app.txReadObservationsBySession.lookup s = none) : app.Tracks captured s :=
  ⟨fun _ => hmaps, fun hlive => absurd hlive (by simp [hidle])⟩

/-! ## Ending a transaction -/

theorem tracks_dropped (h : ∀ s, app.Tracks captured s) (sessionId : String) {coordinator : CoordinatorState}
    (hactive : coordinator.active = Function.update app.coordinator.active sessionId false) :
    ∀ s, ({ app with coordinator }.forget sessionId).Tracks captured s := by
  intro s
  by_cases hs : s = sessionId
  · subst hs
    exact .of_idle (by simp [forget, hactive]) (by simp [forget])
  · exact (h s).congr ⟨by simp [forget, hactive, Function.update_of_ne hs],
      by simp [forget, Finmap.lookup_erase_ne hs], by simp [forget, Finmap.lookup_erase_ne hs],
      by simp [forget, Finmap.lookup_erase_ne hs]⟩ rfl

theorem tracks_rollbackIdle (h : ∀ s, app.Tracks captured s) {sessionId : String}
    (hidle : app.coordinator.active sessionId = false) :
    ∀ s, (app.rollbackCoordinator sessionId).Tracks captured s := by
  have hsame : (app.coordinator.dropSession sessionId).active = app.coordinator.active := by
    rw [CoordinatorState.active_dropSession]
    exact Function.update_eq_self_iff.mpr hidle.symm
  intro s
  exact (h s).congr ⟨congrFun hsame s, rfl, rfl, rfl⟩ rfl

theorem tracks_enforce (settings : Settings) (now : ℕ) (h : ∀ s, app.Tracks captured s) :
    ∀ s, (app.enforceTransactionSnapshotLimits settings now).Tracks captured s := by
  unfold enforceTransactionSnapshotLimits
  split
  · exact h
  · exact List.foldlRecOn (motive := fun app : ServerApp σ => ∀ s, app.Tracks captured s)
      (sessionsToRemove settings now app) _ h fun app h sessionId _ =>
        tracks_dropped h sessionId CoordinatorState.active_dropSession

theorem tracks_rollback (h : ∀ s, app.Tracks captured s) (sessionId : String) :
    ∀ s, (app.rollbackTransaction sessionId).1.Tracks captured s := by
  simp only [rollbackTransaction]
  split
  · exact tracks_dropped h sessionId CoordinatorState.active_dropSession
  · rename_i hidle
    exact tracks_rollbackIdle h (by simpa using hidle)

/-! ## Beginning -/

/-- An accepted `BEGIN` captures the database for its session; table locks and imports capture
nothing. -/
def captureFor (captured : String → Option σ) (env : Env σ) (sessionId : String) (query : DataQuery) :
    Option ControlStatement → Except String ℕ → String → Option σ
  | some (.begin lockTables), .ok _ =>
    Function.update captured sessionId
      (if isLightweightImportBegin query lockTables then none else some env.database)
  | _, _ => captured

theorem captureFor_error (env : Env σ) (query : DataQuery) (statement : Option ControlStatement)
    (err : String) : captureFor captured env sessionId query statement (.error err) = captured := by
  cases statement with
  | none => rfl
  | some statement => cases statement <;> rfl

def capture (captured : String → Option σ) : Input σ × Outcome σ → String → Option σ
  | ((env, .query sessionId query), outcome) =>
    captureFor captured env sessionId query (controlStatement (normalizedSql query)) outcome.response
  | _ => captured

theorem beginInCoordinator_cases (app : ServerApp σ) (sessionId : String) (query : DataQuery) (lockTables : Bool) :
    (∃ err, app.beginInCoordinator sessionId query lockTables = (app.coordinator, .error err)) ∨
      app.coordinator.active sessionId = false ∧ ∃ coordinator,
        app.beginInCoordinator sessionId query lockTables = (coordinator, .ok ()) ∧
        coordinator.active = Function.update app.coordinator.active sessionId true := by
  unfold beginInCoordinator
  split
  · exact CoordinatorState.beginWithTableLocks_cases ..
  · exact CoordinatorState.begin_cases ..

theorem tracks_begin (h : ∀ s, app.Tracks captured s) (env : Env σ) (sessionId : String)
    (query : DataQuery) (lockTables : Bool) :
    ∀ s, (app.beginTransaction env sessionId query lockTables).1.Tracks
      (captureFor captured env sessionId query (some (.begin lockTables))
        (app.beginTransaction env sessionId query lockTables).2.response) s := by
  obtain ⟨err, hbegin⟩ | ⟨hidle, coordinator, hbegin, hactive⟩ :=
    beginInCoordinator_cases app sessionId query lockTables
  · simp only [beginTransaction, hbegin, captureFor, Outcome.of]
    exact h
  · simp only [beginTransaction, hbegin]
    -- the coordinator has the session begun; the maps of the other sessions stay
    have hother : ∀ s, s ≠ sessionId → coordinator.active s = app.coordinator.active s := by
      intro s hs
      rw [hactive, Function.update_of_ne hs]
    split
    · rename_i hlight
      simp only [captureFor, Outcome.of, hlight, if_true]
      intro s
      by_cases hs : s = sessionId
      · subst hs
        exact ⟨fun hnot => absurd hnot (by simp [hactive]), fun _ => by simp [((h s).idle hidle).2.1]⟩
      · exact (h s).congr ⟨hother s hs, Finmap.lookup_insert_of_ne _ hs, rfl, rfl⟩ (Function.update_of_ne hs ..)
    · rename_i hfull
      cases hseed : env.seedSandboxWal with
      | error err =>
        simp only [captureFor, Outcome.of]
        intro s
        by_cases hs : s = sessionId
        · subst hs
          exact .of_idle (by simp [rollbackCoordinator]) ⟨by simp, ((h s).idle hidle).2⟩
        · exact (h s).congr ⟨by simp [rollbackCoordinator, Function.update_of_ne hs, hother s hs],
            by simp [Finmap.lookup_erase_ne hs, Finmap.lookup_insert_of_ne _ hs], rfl, rfl⟩ rfl
      | ok seeded =>
        simp only [captureFor, Outcome.of, if_neg hfull]
        intro s
        by_cases hs : s = sessionId
        · subst hs
          exact ⟨fun hnot => absurd hnot (by simp [hactive]), fun _ => by simp⟩
        · exact (h s).congr ⟨hother s hs, Finmap.lookup_insert_of_ne _ hs,
            Finmap.lookup_insert_of_ne _ hs, Finmap.lookup_insert_of_ne _ hs⟩ (Function.update_of_ne hs ..)

/-! ## Committing -/

/-- A `COMMIT` of a session with a snapshot is carried out. -/
def SnapshotCommitSucceeds (settings : Settings) (app : ServerApp σ) : Input σ → Prop
  | (env, .query sessionId query) =>
    let app := app.enforceTransactionSnapshotLimits settings env.epochNanos
    controlStatement (normalizedSql query) = some .commit →
    (app.txSnapshotBySession.lookup sessionId).isSome = true →
    ∀ stagedQueries, app.coordinator.stagedBySession.lookup sessionId = some stagedQueries →
      ∃ total, (env.commitStagedQueries (app.commitInput sessionId stagedQueries)).result = .ok total
  | _ => True

theorem tracks_commit (h : ∀ s, app.Tracks captured s) (env : Env σ)
    (hcommit : (app.txSnapshotBySession.lookup sessionId).isSome = true →
      ∀ stagedQueries, app.coordinator.stagedBySession.lookup sessionId = some stagedQueries →
        ∃ total, (env.commitStagedQueries (app.commitInput sessionId stagedQueries)).result = .ok total) :
    ∀ s, (app.commitTransaction env sessionId).1.Tracks captured s := by
  obtain ⟨err, htake⟩ | ⟨staged, hlookup, htake⟩ :=
    CoordinatorState.takeForCommit_cases app.coordinator sessionId
  · simp only [commitTransaction, htake]
    exact h
  · -- after taking, committing or failing, the coordinator has dropped the session
    have hactive : (CoordinatorState.dropSession
          { app.coordinator with stagedBySession := app.coordinator.stagedBySession.erase sessionId }
          sessionId).active = Function.update app.coordinator.active sessionId false := by
      rw [CoordinatorState.active_dropSession, CoordinatorState.active_erase, Function.update_idem]
    have hend := tracks_dropped h sessionId hactive
    simp only [commitTransaction, htake]
    cases hresult : (env.commitStagedQueries (app.commitInput sessionId staged)).result with
    | ok total =>
      simp only [commitInput] at hresult ⊢
      rw [hresult]
      exact hend
    | error err =>
      have hnone : (app.txSnapshotBySession.lookup sessionId).isSome = false := by
        by_contra hsome
        obtain ⟨total, htotal⟩ := hcommit (Bool.of_not_eq_false hsome) staged hlookup
        rw [hresult] at htotal
        cases htotal
      simp only [commitInput] at hresult ⊢
      rw [hresult]
      simp only [hnone]
      exact hend

/-! ## Other queries -/

theorem tracks_coordinator (h : ∀ s, app.Tracks captured s) {coordinator : CoordinatorState}
    (hactive : coordinator.active = app.coordinator.active) :
    ∀ s, ({ app with coordinator } : ServerApp σ).Tracks captured s :=
  fun s => (h s).congr ⟨congrFun hactive s, rfl, rfl, rfl⟩ rfl

theorem tracks_observation (h : ∀ s, app.Tracks captured s)
    (hactive : app.coordinator.active sessionId = true) (query : DataQuery) :
    ∀ s, (app.recordSimpleReadObservation settings sessionId query).Tracks captured s := by
  unfold recordSimpleReadObservation
  split
  · exact h
  · split
    · exact h
    · intro s
      by_cases hs : s = sessionId
      · subst hs
        exact ⟨fun hidle => absurd hidle (by simp [hactive]), (h s).live⟩
      · exact (h s).congr ⟨rfl, rfl, rfl, Finmap.lookup_insert_of_ne _ hs⟩ rfl

theorem tracks_query (h : ∀ s, app.Tracks captured s) (env : Env σ) (sessionId : String)
    (query : DataQuery) : ∀ s, (app.handleQuery settings env sessionId query).1.Tracks captured s := by
  unfold handleQuery
  split
  · exact h
  · exact h
  · rename_i requests _ _
    split
    · rename_i hread
      have hactive := (Bool.and_eq_true_iff.mp hread).1
      unfold executeTransactionalRead
      split
      · exact h
      · split
        · exact h
        · exact tracks_observation h hactive query
    · have hroute := tracks_coordinator h
        (CoordinatorState.active_routeQuery settings.parse app.coordinator sessionId query
          (isStagedDmlRequests requests))
      simp only
      split <;> exact hroute

/-! ## One request -/

theorem tracks_step (h : ∀ s, app.Tracks captured s) (input : Input σ)
    (hcommit : app.SnapshotCommitSucceeds settings input) :
    ∀ s, (app.step settings input).Tracks
      (capture captured (input, (app.handleRequest settings input.1 input.2).2)) s := by
  obtain ⟨env, request⟩ := input
  cases request with
  | query sessionId query =>
    have henforced := tracks_enforce settings env.epochNanos h
    simp only [step, handleRequest, capture]
    split
    · cases hcontrol : controlStatement (normalizedSql query) with
      | none => exact tracks_query henforced env sessionId query
      | some statement =>
        cases statement with
        | begin lockTables => exact tracks_begin henforced env sessionId query lockTables
        | commit => exact tracks_commit henforced env (hcommit hcontrol)
        | rollback => exact tracks_rollback henforced sessionId
    · rw [Outcome.of, captureFor_error]
      exact henforced
  | disconnect sessionId => exact tracks_rollback h sessionId
  | remoteTableLockState ownerNodeId ownerSessionId tableIds locked =>
    simp only [step, handleRequest, capture]
    split
    · exact tracks_coordinator h rfl
    · exact tracks_coordinator h (CoordinatorState.active_releaseRemoteLocks _ tableIds)

end ServerApp

end DistDb.Session
