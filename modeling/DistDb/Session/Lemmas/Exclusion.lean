import DistDb.Session.Lemmas.Bookkeeping

/-! # Staged writes and table locks

What a request executes, and the invariant that keeps staged writes off the tables that other owners
have locked. -/

namespace DistDb.Coordinator
open Lib Sql

/-! ## Locks that are only released -/

namespace TableLocks

variable {locks : TableLocks} {ownerId t owner : String}

theorem lookup_releaseSessionLocks (h : (locks.releaseSessionLocks ownerId).tableLocksByTable.lookup t = some owner) :
    locks.tableLocksByTable.lookup t = some owner := by
  unfold releaseSessionLocks at h
  split at h
  · exact h
  · exact ((lookup_foldl_disown ..).mp h).1

theorem lookup_unlockTable {tableId : String}
    (h : (locks.unlockTable ownerId tableId).tableLocksByTable.lookup t = some owner) :
    locks.tableLocksByTable.lookup t = some owner := by
  rw [unlockTable, lookup_disown] at h
  split at h
  · cases h
  · exact h

theorem lookup_foldl_unlockTable {tableIds : List String} :
    ∀ {locks : TableLocks}, (tableIds.foldl (unlockTable ownerId) locks).tableLocksByTable.lookup t = some owner →
      locks.tableLocksByTable.lookup t = some owner := by
  induction tableIds with
  | nil => exact id
  | cons tableId tableIds ih => exact fun h => lookup_unlockTable (ih h)

theorem lookup_dropEmptyLockSet : (locks.dropEmptyLockSet ownerId).tableLocksByTable = locks.tableLocksByTable := by
  unfold dropEmptyLockSet
  split <;> rfl

/-! ## Locks that are taken -/

theorem lookup_foldl_of_lockTable {f : TableLocks → String → TableLocks} {tableIds : List String}
    (hf : ∀ locks tableId, f locks tableId = locks ∨ f locks tableId = locks.lockTable ownerId tableId) :
    ∀ {locks : TableLocks}, (tableIds.foldl f locks).tableLocksByTable.lookup t = some owner →
      locks.tableLocksByTable.lookup t = some owner ∨ t ∈ tableIds ∧ owner = ownerId := by
  induction tableIds with
  | nil => exact .inl
  | cons tableId tableIds ih =>
    intro locks h
    rw [List.mem_cons]
    rcases ih h with hbefore | ⟨hmem, howner⟩
    · rcases hf locks tableId with hsame | hlock
      · exact .inl (hsame ▸ hbefore)
      · rw [hlock, lockTable] at hbefore
        by_cases ht : t = tableId
        · subst ht
          rw [Finmap.lookup_insert, Option.some.injEq] at hbefore
          exact .inr ⟨.inl rfl, hbefore.symm⟩
        · rw [Finmap.lookup_insert_of_ne _ ht] at hbefore
          exact .inl hbefore
    · exact .inr ⟨.inr hmem, howner⟩

end TableLocks

namespace CoordinatorState

variable {parse : Parser} {state state' : CoordinatorState} {sessionId : String} {tableIds : List String}

theorem lookup_releaseRemoteLocks {ownerId t owner : String}
    (h : (state.releaseRemoteLocks ownerId tableIds).locks.tableLocksByTable.lookup t = some owner) :
    state.locks.tableLocksByTable.lookup t = some owner := by
  simp only [releaseRemoteLocks] at h
  split_ifs at h
  · exact TableLocks.lookup_releaseSessionLocks h
  · rw [TableLocks.lookup_dropEmptyLockSet] at h
    exact TableLocks.lookup_foldl_unlockTable h
  · exact h

theorem lookup_applyRemoteLocks {ownerId t owner : String}
    (h : (state.applyRemoteLocks ownerId tableIds).locks.tableLocksByTable.lookup t = some owner) :
    state.locks.tableLocksByTable.lookup t = some owner ∨ t ∈ normalizeUniqueTableIds tableIds ∧ owner = ownerId := by
  have hf : ∀ (locks : TableLocks) (tableId : String), locks.lockTableUnlessOther ownerId tableId = locks ∨
        locks.lockTableUnlessOther ownerId tableId = locks.lockTable ownerId tableId := by
    intro locks tableId
    unfold TableLocks.lockTableUnlessOther
    split
    · exact .inl rfl
    · exact .inr rfl
  have hentry : (state.locks.entry ownerId).tableLocksByTable.lookup t = some owner ∨
      t ∈ normalizeUniqueTableIds tableIds ∧ owner = ownerId := TableLocks.lookup_foldl_of_lockTable hf h
  exact hentry

theorem lookup_beginWithTableLocks {t owner : String}
    (h : (state.beginWithTableLocks sessionId tableIds).1.locks.tableLocksByTable.lookup t = some owner) :
    state.locks.tableLocksByTable.lookup t = some owner ∨ t ∈ normalizeUniqueTableIds tableIds ∧ owner = sessionId := by
  simp only [beginWithTableLocks] at h
  split_ifs at h
  · exact .inl h
  · exact .inl h
  · exact .inl h
  · have hentry : (state.locks.entry sessionId).tableLocksByTable.lookup t = some owner ∨
        t ∈ normalizeUniqueTableIds tableIds ∧ owner = sessionId :=
      TableLocks.lookup_foldl_of_lockTable (fun _ _ => .inr rfl) h
    exact hentry

/-! ## Staged writes -/

def StagedFree (writes : DataQuery → List String) (state : CoordinatorState) : Prop :=
  ∀ s, ∀ query ∈ state.staged s, ∀ t ∈ writes query, ∀ owner,
    state.locks.tableLocksByTable.lookup t = some owner → owner = s

variable {writes : DataQuery → List String}

theorem StagedFree.mono (h : state.StagedFree writes) (hstaged : ∀ s, ∀ query ∈ state'.staged s, query ∈ state.staged s)
    (hlocks : ∀ t owner, state'.locks.tableLocksByTable.lookup t = some owner →
      state.locks.tableLocksByTable.lookup t = some owner) : state'.StagedFree writes :=
  fun s query hquery t ht owner howner => h s query (hstaged s query hquery) t ht owner (hlocks t owner howner)

variable {query : DataQuery}

theorem mem_update_nil {staged : String → List DataQuery} {s : String}
    (h : query ∈ Function.update staged sessionId [] s) : query ∈ staged s := by
  by_cases hs : s = sessionId
  · subst hs
    simp at h
  · rwa [Function.update_of_ne hs] at h

theorem StagedFree.dropSession (h : state.StagedFree writes) (sessionId : String) :
    (state.dropSession sessionId).StagedFree writes := by
  refine h.mono (fun s query hquery => ?_) fun t owner => TableLocks.lookup_releaseSessionLocks
  rw [CoordinatorState.dropSession, staged_erase] at hquery
  exact mem_update_nil hquery

theorem StagedFree.erase (h : state.StagedFree writes) (sessionId : String) :
    StagedFree writes { state with stagedBySession := state.stagedBySession.erase sessionId } := by
  refine h.mono (fun s query hquery => ?_) fun t owner howner => howner
  rw [staged_erase] at hquery
  exact mem_update_nil hquery

theorem StagedFree.begin (h : state.StagedFree writes) (sessionId : String) :
    (state.begin sessionId).1.StagedFree writes := by
  unfold CoordinatorState.begin
  split
  · exact h
  · refine h.mono (fun s query hquery => ?_) fun t owner howner => howner
    rw [staged_setStaged] at hquery
    exact mem_update_nil hquery

theorem StagedFree.beginWithTableLocks (h : state.StagedFree writes)
    (hunstaged : ∀ t ∈ normalizeUniqueTableIds tableIds, ∀ s, s ≠ sessionId →
      ∀ query ∈ state.staged s, t ∉ writes query) :
    (state.beginWithTableLocks sessionId tableIds).1.StagedFree writes := by
  intro s query hquery t ht owner howner
  have hbefore : query ∈ state.staged s := by
    simp only [CoordinatorState.beginWithTableLocks] at hquery
    split_ifs at hquery
    · exact hquery
    · exact hquery
    · exact hquery
    · rw [staged_setStaged] at hquery
      exact mem_update_nil hquery
  rcases lookup_beginWithTableLocks howner with hold | ⟨hmem, rfl⟩
  · exact h s query hbefore t ht owner hold
  · by_contra hs
    exact hunstaged t hmem s (Ne.symm hs) query hbefore ht

theorem StagedFree.applyRemoteLocks (h : state.StagedFree writes) {ownerId : String}
    (hunstaged : ∀ t ∈ normalizeUniqueTableIds tableIds, ∀ s, s ≠ ownerId →
      ∀ query ∈ state.staged s, t ∉ writes query) :
    (state.applyRemoteLocks ownerId tableIds).StagedFree writes := by
  intro s query hquery t ht owner howner
  rcases lookup_applyRemoteLocks howner with hold | ⟨hmem, rfl⟩
  · exact h s query hquery t ht owner hold
  · by_contra hs
    exact hunstaged t hmem s (Ne.symm hs) query hquery ht

theorem StagedFree.releaseRemoteLocks (h : state.StagedFree writes) (ownerId : String) (tableIds : List String) :
    (state.releaseRemoteLocks ownerId tableIds).StagedFree writes := by
  refine h.mono (fun s query hquery => ?_) fun t owner => lookup_releaseRemoteLocks
  simp only [CoordinatorState.releaseRemoteLocks] at hquery
  split_ifs at hquery <;> exact hquery

theorem free_of_unblocked (hfree : (dmlTableIdsForQuery parse query).any (state.locks.lockedByOther sessionId) = false)
    (hwrites : ∀ t ∈ writes query, t ∈ dmlTableIdsForQuery parse query) :
    ∀ t ∈ writes query, ∀ owner, state.locks.tableLocksByTable.lookup t = some owner → owner = sessionId := by
  intro t ht owner howner
  have hother := List.any_eq_false.mp hfree t (hwrites t ht)
  exact TableLocks.lockedByOther_eq_false.mp (by simpa using hother) owner howner

theorem StagedFree.routeQuery (h : state.StagedFree writes) (sessionId : String)
    (canStage : Bool) (hwrites : ∀ t ∈ writes query, t ∈ dmlTableIdsForQuery parse query) :
    (state.routeQuery parse sessionId query canStage).1.StagedFree writes := by
  obtain ⟨message, hroute⟩ | ⟨hfree, ⟨staged, hlookup, -, hroute⟩ | ⟨-, hroute⟩⟩ :=
    routeQuery_cases parse state sessionId query canStage
  · rw [hroute]
    exact h
  · rw [hroute]
    intro s q hq
    rw [staged_setStaged] at hq
    by_cases hs : s = sessionId
    · subst hs
      rw [Function.update_self, List.mem_append, List.mem_singleton] at hq
      rcases hq with hold | rfl
      · exact h s q (staged_of_lookup hlookup ▸ hold)
      · exact free_of_unblocked hfree hwrites
    · rw [Function.update_of_ne hs] at hq
      exact h s q hq
  · rw [hroute]
    exact h

end CoordinatorState

end DistDb.Coordinator

namespace DistDb.Session
open Lib Sql Coordinator

/-! ## What a request executes -/

def Outcome.Quiet {σ : Type} (outcome : Outcome σ) : Prop := outcome.executed = [] ∧ outcome.committed = none

theorem Outcome.of_quiet {σ : Type} (response : Except String ℕ) : (Outcome.of response : Outcome σ).Quiet :=
  ⟨rfl, rfl⟩

namespace ServerApp

variable {σ : Type} {settings : Settings} {app : ServerApp σ} {env : Env σ} {sessionId : String}

theorem beginTransaction_quiet (env : Env σ) (sessionId : String) (query : DataQuery) (lockTables : Bool) :
    (app.beginTransaction env sessionId query lockTables).2.Quiet := by
  unfold beginTransaction
  split
  · exact Outcome.of_quiet _
  · simp only
    split
    · exact Outcome.of_quiet _
    · split <;> exact Outcome.of_quiet _

theorem rollbackTransaction_quiet (sessionId : String) : (app.rollbackTransaction sessionId).2.Quiet := by
  simp only [rollbackTransaction]
  split <;> exact Outcome.of_quiet _

theorem commitTransaction_cases (env : Env σ) (sessionId : String) : (app.commitTransaction env sessionId).2.Quiet ∨
      ∃ staged applied, app.coordinator.stagedBySession.lookup sessionId = some staged ∧
        (app.commitTransaction env sessionId).2.executed = staged.take applied ∧
        (app.commitTransaction env sessionId).2.committed = some (app.commitInput sessionId staged) := by
  obtain ⟨err, htake⟩ | ⟨staged, hlookup, htake⟩ :=
    CoordinatorState.takeForCommit_cases app.coordinator sessionId
  · simp only [commitTransaction, htake]
    exact .inl (Outcome.of_quiet _)
  · refine .inr ⟨staged, (env.commitStagedQueries (app.commitInput sessionId staged)).applied, hlookup, ?_⟩
    simp only [commitTransaction, htake]
    split <;> exact ⟨rfl, rfl⟩

/-- A query that is no control statement is executed only if no table it names is locked by another
owner. -/
theorem handleQuery_cases (settings : Settings) (env : Env σ) (sessionId : String) (query : DataQuery) :
    (app.handleQuery settings env sessionId query).2.Quiet ∨
      (app.handleQuery settings env sessionId query).2.executed = [query] ∧
      (app.handleQuery settings env sessionId query).2.committed = none ∧
      (dmlTableIdsForQuery settings.parse query).any (app.coordinator.locks.lockedByOther sessionId) = false := by
  unfold handleQuery
  split
  · exact .inl (Outcome.of_quiet _)
  · exact .inl (Outcome.of_quiet _)
  · rename_i requests _ _
    split
    · refine .inl ?_
      unfold executeTransactionalRead
      split
      · exact Outcome.of_quiet _
      · split <;> exact Outcome.of_quiet _
    · obtain ⟨message, hroute⟩ | ⟨hfree, ⟨staged, -, -, hroute⟩ | ⟨-, hroute⟩⟩ :=
        CoordinatorState.routeQuery_cases settings.parse app.coordinator sessionId query (isStagedDmlRequests requests)
      · simp only [hroute]
        exact .inl (Outcome.of_quiet _)
      · simp only [hroute]
        exact .inl (Outcome.of_quiet _)
      · simp only [hroute]
        exact .inr ⟨trivial, trivial, hfree⟩

/-- A request executes its own query, unblocked by locks, or commits queries staged for its session. -/
theorem handleRequest_cases (app : ServerApp σ) (settings : Settings) (env : Env σ) (request : Request) :
    (app.handleRequest settings env request).2.Quiet ∨ ∃ sessionId query, request = .query sessionId query ∧
        let app' := app.enforceTransactionSnapshotLimits settings env.epochNanos
        ((app.handleRequest settings env request).2.executed = [query] ∧
            (app.handleRequest settings env request).2.committed = none ∧
            controlStatement (normalizedSql query) = none ∧
            (dmlTableIdsForQuery settings.parse query).any (app'.coordinator.locks.lockedByOther sessionId) = false ∨
          ∃ staged applied, app'.coordinator.stagedBySession.lookup sessionId = some staged ∧
            (app.handleRequest settings env request).2.executed = staged.take applied ∧
            (app.handleRequest settings env request).2.committed = some (app'.commitInput sessionId staged)) := by
  cases request with
  | query sessionId query =>
    simp only [handleRequest]
    split
    · cases hcontrol : controlStatement (normalizedSql query) with
      | none =>
        refine (handleQuery_cases settings env sessionId query).imp_right fun h => ?_
        exact ⟨sessionId, query, rfl, .inl ⟨h.1, h.2.1, hcontrol, h.2.2⟩⟩
      | some statement =>
        cases statement with
        | begin lockTables => exact .inl (beginTransaction_quiet env sessionId query lockTables)
        | commit =>
          refine (commitTransaction_cases env sessionId).imp_right fun h => ?_
          exact ⟨sessionId, query, rfl, .inr h⟩
        | rollback => exact .inl (rollbackTransaction_quiet sessionId)
    · exact .inl (Outcome.of_quiet _)
  | disconnect sessionId => exact .inl (rollbackTransaction_quiet sessionId)
  | remoteTableLockState ownerNodeId ownerSessionId tableIds locked =>
    refine .inl ?_
    simp only [handleRequest]
    split <;> exact Outcome.of_quiet _

/-! ## One request keeps the staged writes free -/

/-- A query changes only tables that its inserts, updates and deletes name, and a table is locked only
while no other session has staged a write on it. -/
def LocksUnstaged (settings : Settings) (writes : DataQuery → List String) (app : ServerApp σ) :
    Input σ → Prop
  | (env, .query sessionId query) =>
    (controlStatement (normalizedSql query) = none →
      ∀ t ∈ writes query, t ∈ dmlTableIdsForQuery settings.parse query) ∧
    (controlStatement (normalizedSql query) = some (.begin true) →
      ∀ t ∈ normalizeUniqueTableIds (parseLockTableIds query.sql), ∀ s, s ≠ sessionId →
        ∀ staged ∈ (app.enforceTransactionSnapshotLimits settings env.epochNanos).coordinator.staged s,
          t ∉ writes staged)
  | (_, .remoteTableLockState ownerNodeId ownerSessionId tableIds true) =>
    ∀ t ∈ normalizeUniqueTableIds tableIds, ∀ s, s ≠ remoteOwnerId ownerNodeId ownerSessionId →
      ∀ staged ∈ app.coordinator.staged s, t ∉ writes staged
  | _ => True

variable {writes : DataQuery → List String}

theorem stagedFree_enforce (h : app.coordinator.StagedFree writes) (settings : Settings) (now : ℕ) :
    (app.enforceTransactionSnapshotLimits settings now).coordinator.StagedFree writes := by
  unfold enforceTransactionSnapshotLimits
  split
  · exact h
  · exact List.foldlRecOn (motive := fun app : ServerApp σ => app.coordinator.StagedFree writes)
      (sessionsToRemove settings now app) _ h fun _ h sessionId _ => h.dropSession sessionId

theorem stagedFree_rollback (h : app.coordinator.StagedFree writes) (sessionId : String) :
    (app.rollbackTransaction sessionId).1.coordinator.StagedFree writes := by
  simp only [rollbackTransaction]
  split <;> exact h.dropSession sessionId

theorem stagedFree_commit (h : app.coordinator.StagedFree writes) (env : Env σ) (sessionId : String) :
    (app.commitTransaction env sessionId).1.coordinator.StagedFree writes := by
  obtain ⟨err, htake⟩ | ⟨staged, -, htake⟩ :=
    CoordinatorState.takeForCommit_cases app.coordinator sessionId
  · simp only [commitTransaction, htake]
    exact h
  · have hdropped := (h.erase sessionId).dropSession sessionId
    simp only [commitTransaction, htake]
    split
    · split <;> exact hdropped
    · exact hdropped

variable {query : DataQuery}

theorem stagedFree_begin (h : app.coordinator.StagedFree writes) (env : Env σ) {lockTables : Bool}
    (hunstaged : lockTables = true → ∀ t ∈ normalizeUniqueTableIds (parseLockTableIds query.sql), ∀ s,
      s ≠ sessionId → ∀ staged ∈ app.coordinator.staged s, t ∉ writes staged) :
    (app.beginTransaction env sessionId query lockTables).1.coordinator.StagedFree writes := by
  have hbegun : (app.beginInCoordinator sessionId query lockTables).1.StagedFree writes := by
    unfold beginInCoordinator
    split
    · rename_i hlock
      exact h.beginWithTableLocks (hunstaged hlock)
    · exact h.begin sessionId
  unfold beginTransaction
  split
  · rename_i hbegin
    rw [hbegin] at hbegun
    exact hbegun
  · rename_i hbegin
    rw [hbegin] at hbegun
    simp only
    split
    · exact hbegun
    · split
      · exact hbegun.dropSession sessionId
      · exact hbegun

theorem stagedFree_query (h : app.coordinator.StagedFree writes) (env : Env σ)
    (hwrites : ∀ t ∈ writes query, t ∈ dmlTableIdsForQuery settings.parse query) :
    (app.handleQuery settings env sessionId query).1.coordinator.StagedFree writes := by
  unfold handleQuery
  split
  · exact h
  · exact h
  · rename_i requests _ _
    split
    · unfold executeTransactionalRead recordSimpleReadObservation
      split
      · exact h
      · split
        · exact h
        · split
          · exact h
          · split <;> exact h
    · have hrouted := h.routeQuery sessionId (isStagedDmlRequests requests) hwrites
      simp only
      split <;> exact hrouted

theorem stagedFree_step (h : app.coordinator.StagedFree writes) (input : Input σ)
    (hinput : app.LocksUnstaged settings writes input) :
    (app.step settings input).coordinator.StagedFree writes := by
  obtain ⟨env, request⟩ := input
  cases request with
  | query sessionId query =>
    have henforced := stagedFree_enforce h settings env.epochNanos
    simp only [step, handleRequest]
    split
    · cases hcontrol : controlStatement (normalizedSql query) with
      | none => exact stagedFree_query henforced env (hinput.1 hcontrol)
      | some statement =>
        cases statement with
        | begin lockTables =>
          refine stagedFree_begin henforced env fun hlock => ?_
          exact hinput.2 (hlock ▸ hcontrol)
        | commit => exact stagedFree_commit henforced env sessionId
        | rollback => exact stagedFree_rollback henforced sessionId
    · exact henforced
  | disconnect sessionId => exact stagedFree_rollback h sessionId
  | remoteTableLockState ownerNodeId ownerSessionId tableIds locked =>
    cases locked with
    | false => exact h.releaseRemoteLocks _ tableIds
    | true => exact h.applyRemoteLocks hinput

theorem executed_owner (h : app.coordinator.StagedFree writes) {env : Env σ} {request : Request}
    (hinput : app.LocksUnstaged settings writes (env, request))
    (hquery : query ∈ (app.handleRequest settings env request).2.executed) {t owner : String}
    (ht : t ∈ writes query)
    (howner : (app.enforceTransactionSnapshotLimits settings env.epochNanos).coordinator.locks.tableLocksByTable.lookup
      t = some owner) : ∃ sent, request = .query owner sent := by
  obtain hquiet | ⟨sessionId, sent, rfl, ⟨hexecuted, -, hcontrol, hfree⟩ | ⟨staged, applied, hlookup, hexecuted, -⟩⟩ :=
    handleRequest_cases app settings env request
  · rw [hquiet.1] at hquery
    cases hquery
  · rw [hexecuted, List.mem_singleton] at hquery
    subst hquery
    have hsame := CoordinatorState.free_of_unblocked hfree (hinput.1 hcontrol) t ht owner howner
    exact ⟨query, hsame ▸ rfl⟩
  · rw [hexecuted] at hquery
    have hstaged := CoordinatorState.staged_of_lookup hlookup ▸ List.mem_of_mem_take hquery
    have hsame := stagedFree_enforce h settings env.epochNanos sessionId query hstaged t ht owner howner
    exact ⟨sent, hsame ▸ rfl⟩

end ServerApp

end DistDb.Session
