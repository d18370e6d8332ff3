import DistDb.Coordinator.Lemmas.Staged

/-! # Theorems about the transaction coordinator -/

namespace DistDb.Coordinator
open Lib Sql

namespace CoordinatorState

/-! ## Table locks -/

/-- After any sequence of commands the two lock maps agree, a query that is staged or executed writes
no table locked by another owner, and a refused `BeginWithTableLocks` changes nothing. -/
theorem run_locksConsistent (parse : Parser) (commands : List CoordinatorCommand) :
    let state := runFrom (step parse) new commands
    (∀ t owner, state.locks.tableLocksByTable.lookup t = some owner ↔
      ∃ lockedTables, state.locks.lockedTablesBySession.lookup owner = some lockedTables ∧ t ∈ lockedTables) ∧
    (∀ sessionId query canStage,
      (∀ message, (state.handle parse (.routeQuery sessionId query canStage)).2 ≠
        .routing (.rejected message)) →
      ∀ requests, parse query = some requests → ∀ request ∈ requests, request.operation.isDml = true →
      ∀ name, request.objectName = some name →
      ∀ owner, state.locks.tableLocksByTable.lookup (normalizeIdentifier name) = some owner →
        owner = sessionId) ∧
    (∀ sessionId tableIds message,
      (state.handle parse (.beginWithTableLocks sessionId tableIds)).2 = .result (.error message) →
      (state.handle parse (.beginWithTableLocks sessionId tableIds)).1 = state) := by
  have h := run_consistent parse commands
  refine ⟨fun t owner => (h.inverse t owner).trans mem_holdings, ?_, ?_⟩
  · intro sessionId query canStage hrouted requests hparse request hmem hdml name hname owner howner
    have hnot : ∀ message, (routeQuery parse (runFrom (step parse) new commands) sessionId query
        canStage).2 ≠ .rejected message :=
      fun message heq => hrouted message (congrArg CoordinatorReply.routing heq)
    exact routeQuery_unlocked h hnot hparse hmem hdml hname howner
  · intro sessionId tableIds message herror
    exact beginWithTableLocks_error (CoordinatorReply.result.inj herror)

def insertsIntoOrders : Parser := fun _ => some [⟨.insert, some "`Orders`"⟩]

def orderQuery (sql : String) : DataQuery := ⟨"shop", sql⟩

def ordersLocked : CoordinatorState :=
  runFrom (step insertsIntoOrders) new [.beginWithTableLocks "alice" ["orders"], .begin "bob"]

theorem ordersLocked_consistent :
    ordersLocked.locks.tableLocksByTable.lookup "orders" = some "alice" ∧
      ((∀ message, (ordersLocked.handle insertsIntoOrders (.routeQuery "bob" (orderQuery "insert") true)).2 ≠
        .routing (.rejected message)) → "alice" = "bob") := by
  have h := run_locksConsistent insertsIntoOrders [.beginWithTableLocks "alice" ["orders"], .begin "bob"]
  refine ⟨by decide +kernel, fun hrouted => ?_⟩
  exact h.2.1 "bob" (orderQuery "insert") true hrouted _ rfl ⟨.insert, some "`Orders`"⟩ (by simp) rfl _ rfl
    "alice" (by decide +kernel)

/-- A session that ends, by a rollback or a commit, leaves every table that it held and no other. -/
theorem ended_session_frees_tables (parse : Parser) (commands : List CoordinatorCommand) (sessionId : String) :
    let state := runFrom (step parse) new commands
    let ended := state.step parse (.rollback sessionId)
    state.step parse (.finalizeCommit sessionId) = ended ∧ ended.active sessionId = false ∧
      ∀ t owner, ended.locks.tableLocksByTable.lookup t = some owner ↔
        state.locks.tableLocksByTable.lookup t = some owner ∧ owner ≠ sessionId := by
  intro state ended
  have hinverse := (run_consistent parse commands).inverse
  refine ⟨rfl, by simp [ended, step, handle, dropSession, active], fun t owner => ?_⟩
  change (state.locks.releaseSessionLocks sessionId).tableLocksByTable.lookup t = some owner ↔ _
  unfold TableLocks.releaseSessionLocks
  split
  · rename_i hnone
    refine (and_iff_left_of_imp ?_).symm
    rintro howner rfl
    obtain ⟨held, hheld, -⟩ := mem_holdings.mp ((hinverse t owner).mp howner)
    cases hnone.symm.trans hheld
  · rename_i lockedTables hlocked
    rw [lookup_foldl_disown]
    refine and_congr_right fun howner => ⟨?_, fun hne _ => hne⟩
    rintro hne rfl
    obtain ⟨held, hheld, hmem⟩ := mem_holdings.mp ((hinverse t owner).mp howner)
    cases hlocked.symm.trans hheld
    exact hne hmem rfl

/-! ## Staged queries -/

/-- When every commit is finalized before anything new is staged, and restored before a new
transaction begins, each session has exactly the queries staged that it was told are staged and that
have not been handed out or rolled back since, in that order, and a commit is handed all of them. -/
theorem run_keepsStaged (parse : Parser) {commands : List CoordinatorCommand}
    (h : Along (step parse) CommitUndisturbed new commands) (sessionId : String) :
    let state := runFrom (step parse) new commands
    state.staged sessionId = owed (history parse new commands) sessionId ∧
      ∀ queries, (state.handle parse (.takeForCommit sessionId)).2 = .queries (.ok queries) →
        queries = owed (history parse new commands) sessionId := by
  have hstaged := congrFun (staged_run h) sessionId
  rw [staged_new] at hstaged
  exact ⟨hstaged, fun queries htaken => (takeForCommit_eq htaken).trans hstaged⟩

def restoredCommit : List CoordinatorCommand :=
  [.begin "alice", .routeQuery "alice" (orderQuery "first") true, .takeForCommit "alice",
    .restoreAfterFailedCommit "alice" [orderQuery "first"],
    .routeQuery "alice" (orderQuery "second") true]

theorem restoredCommit_keepsStaged :
    (runFrom (step insertsIntoOrders) new restoredCommit).staged "alice" =
      [orderQuery "first", orderQuery "second"] := by
  have h : Along (step insertsIntoOrders) CommitUndisturbed new restoredCommit :=
    ⟨trivial, trivial, trivial, (by decide +kernel : _ = false), trivial, trivial⟩
  exact (run_keepsStaged insertsIntoOrders h "alice").1.trans (by decide +kernel)

def finalizedLate : List CoordinatorCommand :=
  [.begin "alice", .takeForCommit "alice", .begin "alice", .routeQuery "alice" (orderQuery "late") true,
    .finalizeCommit "alice"]

/-- A query staged between taking a commit and finalizing it is lost. -/
theorem finalizedLate_losesStaged :
    (.routeQuery "alice" (orderQuery "late") true, .routing .staged) ∈
        history insertsIntoOrders new finalizedLate ∧
      owed (history insertsIntoOrders new finalizedLate) "alice" = [orderQuery "late"] ∧
      (runFrom (step insertsIntoOrders) new finalizedLate).staged "alice" = [] := by
  refine ⟨?_, ?_, ?_⟩ <;> decide +kernel

end CoordinatorState

end DistDb.Coordinator
