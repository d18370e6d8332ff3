import DistDb.Coordinator.Lemmas.Locks

/-! # What the sessions are owed

A history of commands and replies says which queries each session may expect to be staged: those it
was told are staged, from the last time they were handed out or rolled back. -/

namespace DistDb.Coordinator
open Lib Sql

/-! ## Histories -/

abbrev Event := CoordinatorCommand × CoordinatorReply

def history (parse : Parser) : CoordinatorState → List CoordinatorCommand → List Event
  | _, [] => []
  | state, command :: commands =>
    (command, (state.handle parse command).2) :: history parse (state.step parse command) commands

def record (owed : String → List DataQuery) : Event → String → List DataQuery
  | (.routeQuery sessionId query _, .routing .staged) =>
    Function.update owed sessionId (owed sessionId ++ [query])
  | (.stage sessionId query, .result (.ok _)) =>
    Function.update owed sessionId (owed sessionId ++ [query])
  | (.takeForCommit sessionId, .queries (.ok _)) => Function.update owed sessionId []
  | (.rollback sessionId, _) => Function.update owed sessionId []
  | (.restoreAfterFailedCommit sessionId staged, _) =>
    Function.update owed sessionId (staged ++ owed sessionId)
  | _ => owed

def owed (events : List Event) : String → List DataQuery := events.foldl record fun _ => []

namespace CoordinatorState

def staged (state : CoordinatorState) (sessionId : String) : List DataQuery :=
  (state.stagedBySession.lookup sessionId).getD []

/-- A commit is finalized when nothing has been staged since it was taken, and restored when no new
transaction has begun. -/
def CommitUndisturbed (state : CoordinatorState) : CoordinatorCommand → Prop
  | .finalizeCommit sessionId => state.staged sessionId = []
  | .restoreAfterFailedCommit sessionId _ => state.active sessionId = false
  | _ => True

/-! ## One command -/

variable {parse : Parser} {state : CoordinatorState} {sessionId : String}

@[simp] theorem staged_new : new.staged = fun _ => [] := by
  funext sessionId
  simp [staged, new]

theorem staged_of_lookup {queries : List DataQuery}
    (h : state.stagedBySession.lookup sessionId = some queries) : state.staged sessionId = queries := by
  simp [staged, h]

theorem staged_of_inactive (h : state.active sessionId = false) : state.staged sessionId = [] := by
  rw [active, Option.isSome_eq_false_iff, Option.isNone_iff_eq_none] at h
  simp [staged, h]

@[simp] theorem staged_setStaged (queries : List DataQuery) :
    (state.setStaged sessionId queries).staged = Function.update state.staged sessionId queries := by
  funext s
  by_cases hs : s = sessionId
  · subst hs
    simp [staged, setStaged]
  · simp [staged, setStaged, Function.update_of_ne hs, Finmap.lookup_insert_of_ne _ hs]

theorem staged_erase (state : CoordinatorState) (locks : TableLocks) (sessionId : String) :
    staged ⟨state.stagedBySession.erase sessionId, locks⟩ = Function.update state.staged sessionId [] := by
  funext s
  by_cases hs : s = sessionId
  · subst hs
    simp [staged]
  · simp [staged, Function.update_of_ne hs, Finmap.lookup_erase_ne hs]

theorem update_staged_nil (h : state.staged sessionId = []) :
    Function.update state.staged sessionId [] = state.staged :=
  Function.update_eq_self_iff.mpr h.symm

theorem staged_step (command : CoordinatorCommand) (h : state.CommitUndisturbed command) :
    (state.step parse command).staged = record state.staged (command, (state.handle parse command).2) := by
  cases command with
  | begin sessionId =>
    simp only [step, handle, begin, Prod.map]
    split_ifs with hactive
    · rfl
    · have hnil : state.staged sessionId = [] := staged_of_inactive (by simpa using hactive)
      exact (staged_setStaged []).trans (update_staged_nil hnil)
  | beginWithTableLocks sessionId tableIds =>
    simp only [step, handle, Prod.map, record, beginWithTableLocks, id]
    split_ifs with hactive
    · rfl
    · rfl
    · rfl
    · have hnil : state.staged sessionId = [] := staged_of_inactive (by simpa using hactive)
      rw [staged_setStaged]
      exact update_staged_nil hnil
  | isActive sessionId => rfl
  | routeQuery sessionId query canStage =>
    simp only [step, handle]
    obtain ⟨message, hroute⟩ | ⟨-, ⟨queries, hlookup, -, hroute⟩ | ⟨-, hroute⟩⟩ :=
      routeQuery_cases parse state sessionId query canStage
    · rw [hroute]
      rfl
    · rw [hroute]
      simp only [Prod.map, id, record, staged_setStaged, staged_of_lookup hlookup]
    · rw [hroute]
      rfl
  | stage sessionId query =>
    simp only [step, handle]
    cases hlookup : state.stagedBySession.lookup sessionId with
    | none => rfl
    | some queries => simp only [record, staged_setStaged, staged_of_lookup hlookup]
  | getStaged sessionId =>
    simp only [step, handle]
    cases state.stagedBySession.lookup sessionId <;> rfl
  | takeForCommit sessionId =>
    simp only [step, handle, takeForCommit, Prod.map]
    cases state.stagedBySession.lookup sessionId with
    | none => rfl
    | some queries => exact staged_erase state state.locks sessionId
  | restoreAfterFailedCommit sessionId queries =>
    have hnil := staged_of_inactive h
    simp only [step, handle, if_neg (Bool.eq_false_iff.mp h), record, staged_setStaged, hnil, List.append_nil]
  | finalizeCommit sessionId =>
    exact (staged_erase state _ sessionId).trans (update_staged_nil h)
  | applyRemoteLocks ownerId tableIds => rfl
  | releaseRemoteLocks ownerId tableIds =>
    simp only [step, handle, record, releaseRemoteLocks]
    split_ifs <;> rfl
  | rollback sessionId => exact staged_erase state _ sessionId

/-! ## Whole runs -/

theorem staged_run {commands : List CoordinatorCommand} (h : Along (step parse) CommitUndisturbed state commands) :
    (runFrom (step parse) state commands).staged = (history parse state commands).foldl record state.staged := by
  induction commands generalizing state with
  | nil => rfl
  | cons command commands ih =>
    rw [runFrom_cons, ih h.2, staged_step command h.1]
    rfl

theorem takeForCommit_eq {queries : List DataQuery}
    (h : (state.handle parse (.takeForCommit sessionId)).2 = .queries (.ok queries)) :
    queries = state.staged sessionId := by
  simp only [handle, takeForCommit, Prod.map] at h
  cases hlookup : state.stagedBySession.lookup sessionId with
  | none =>
    rw [hlookup] at h
    cases h
  | some staged =>
    rw [hlookup] at h
    cases h
    exact (staged_of_lookup hlookup).symm

end CoordinatorState

end DistDb.Coordinator
