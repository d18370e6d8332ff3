import DistDb.Lib.Ownership
import DistDb.Lib.Run
import DistDb.Sql.Request

/-! # The transaction coordinator

One loop receives the commands of all sessions and owns the staged queries and the table locks, so a
run of the coordinator is a sequence of commands in the order received. -/

namespace DistDb.Coordinator
open Lib Sql

/-! ## Table locks -/

structure TableLocks where
  tableLocksByTable : Finmap fun _ : String => String
  lockedTablesBySession : Finmap fun _ : String => List String
  deriving DecidableEq

namespace TableLocks

def new : TableLocks := ⟨∅, ∅⟩

def lockSet (locks : TableLocks) (ownerId : String) : List String :=
  holdings locks.lockedTablesBySession ownerId

def lockedByOther (locks : TableLocks) (ownerId tableId : String) : Bool :=
  (locks.tableLocksByTable.lookup tableId).any (· != ownerId)

def entry (locks : TableLocks) (ownerId : String) : TableLocks :=
  { locks with
    lockedTablesBySession := locks.lockedTablesBySession.insert ownerId (locks.lockSet ownerId) }

def lockTable (ownerId : String) (locks : TableLocks) (tableId : String) : TableLocks where
  tableLocksByTable := locks.tableLocksByTable.insert tableId ownerId
  lockedTablesBySession :=
    locks.lockedTablesBySession.insert ownerId ((locks.lockSet ownerId).insert tableId)

def lockTableUnlessOther (ownerId : String) (locks : TableLocks) (tableId : String) : TableLocks :=
  if locks.lockedByOther ownerId tableId then locks else locks.lockTable ownerId tableId

def unlockTable (ownerId : String) (locks : TableLocks) (tableId : String) : TableLocks where
  tableLocksByTable := disown ownerId locks.tableLocksByTable tableId
  lockedTablesBySession :=
    locks.lockedTablesBySession.insert ownerId ((locks.lockSet ownerId).filter (· ≠ tableId))

def dropEmptyLockSet (locks : TableLocks) (ownerId : String) : TableLocks :=
  if locks.lockSet ownerId = [] then
    { locks with lockedTablesBySession := locks.lockedTablesBySession.erase ownerId }
  else locks

def releaseSessionLocks (locks : TableLocks) (ownerId : String) : TableLocks :=
  match locks.lockedTablesBySession.lookup ownerId with
  | none => locks
  | some lockedTables =>
    { tableLocksByTable := lockedTables.foldl (disown ownerId) locks.tableLocksByTable
      lockedTablesBySession := locks.lockedTablesBySession.erase ownerId }

end TableLocks

/-! ## Table names -/

def normalizeUniqueTableIds (tableIds : List String) : List String :=
  (tableIds.map normalizeIdentifier).foldl
    (fun normalized tableId =>
      if tableId = "" ∨ tableId ∈ normalized then normalized else normalized ++ [tableId]) []

def dmlTableIdsForQuery (parse : Parser) (query : DataQuery) : List String :=
  match parse query with
  | none => []
  | some statements => normalizeUniqueTableIds (dmlObjectNames statements)

/-! ## Commands -/

inductive QueryRoutingDecision where
  | executeImmediately
  | staged
  | rejected (message : String)
  deriving DecidableEq, Repr

inductive CoordinatorCommand where
  | begin (sessionId : String)
  | beginWithTableLocks (sessionId : String) (tableIds : List String)
  | isActive (sessionId : String)
  | routeQuery (sessionId : String) (query : DataQuery) (canStage : Bool)
  | stage (sessionId : String) (query : DataQuery)
  | getStaged (sessionId : String)
  | takeForCommit (sessionId : String)
  | restoreAfterFailedCommit (sessionId : String) (staged : List DataQuery)
  | finalizeCommit (sessionId : String)
  | applyRemoteLocks (ownerId : String) (tableIds : List String)
  | releaseRemoteLocks (ownerId : String) (tableIds : List String)
  | rollback (sessionId : String)
  deriving DecidableEq, Repr

inductive CoordinatorReply where
  | result (outcome : Except String Unit)
  | flag (value : Bool)
  | routing (decision : QueryRoutingDecision)
  | queries (outcome : Except String (List DataQuery))
  | done
  deriving DecidableEq

structure CoordinatorState where
  stagedBySession : Finmap fun _ : String => List DataQuery
  locks : TableLocks
  deriving DecidableEq

namespace CoordinatorState

def new : CoordinatorState := ⟨∅, .new⟩

def active (state : CoordinatorState) (sessionId : String) : Bool :=
  (state.stagedBySession.lookup sessionId).isSome

def setStaged (state : CoordinatorState) (sessionId : String) (staged : List DataQuery) : CoordinatorState :=
  { state with stagedBySession := state.stagedBySession.insert sessionId staged }

def dropSession (state : CoordinatorState) (sessionId : String) : CoordinatorState where
  stagedBySession := state.stagedBySession.erase sessionId
  locks := state.locks.releaseSessionLocks sessionId

def alreadyActive : String := "transaction already active for this session"

def noActive : String := "no active transaction for this session"

def begin (state : CoordinatorState) (sessionId : String) : CoordinatorState × Except String Unit :=
  if state.active sessionId then (state, .error alreadyActive)
  else (state.setStaged sessionId [], .ok ())

def beginWithTableLocks (state : CoordinatorState) (sessionId : String) (tableIds : List String) :
    CoordinatorState × Except String Unit :=
  if state.active sessionId then (state, .error alreadyActive)
  else
    let normalizedTables := normalizeUniqueTableIds tableIds
    if normalizedTables = [] then (state, .error "lock tables requires at least one table name")
    else if normalizedTables.any (state.locks.lockedByOther sessionId) then
      (state, .error "one or more requested tables are locked by another session")
    else
      let locks := normalizedTables.foldl (TableLocks.lockTable sessionId) (state.locks.entry sessionId)
      ({ state with locks }.setStaged sessionId [], .ok ())

def routeQuery (parse : Parser) (state : CoordinatorState) (sessionId : String) (query : DataQuery)
    (canStage : Bool) : CoordinatorState × QueryRoutingDecision :=
  if (dmlTableIdsForQuery parse query).any (state.locks.lockedByOther sessionId) then
    (state, .rejected "table is locked by another session")
  else
    match state.stagedBySession.lookup sessionId with
    | some staged =>
      if canStage then (state.setStaged sessionId (staged ++ [query]), .staged)
      else
        (state, .rejected
          "only single-statement insert/update/delete queries are allowed inside explicit transactions")
    | none => (state, .executeImmediately)

def takeForCommit (state : CoordinatorState) (sessionId : String) :
    CoordinatorState × Except String (List DataQuery) :=
  match state.stagedBySession.lookup sessionId with
  | none => (state, .error noActive)
  | some staged => ({ state with stagedBySession := state.stagedBySession.erase sessionId }, .ok staged)

def applyRemoteLocks (state : CoordinatorState) (ownerId : String) (tableIds : List String) :
    CoordinatorState :=
  { state with
    locks := (normalizeUniqueTableIds tableIds).foldl (TableLocks.lockTableUnlessOther ownerId)
      (state.locks.entry ownerId) }

def releaseRemoteLocks (state : CoordinatorState) (ownerId : String) (tableIds : List String) :
    CoordinatorState :=
  let normalizedTables := normalizeUniqueTableIds tableIds
  if normalizedTables = [] then { state with locks := state.locks.releaseSessionLocks ownerId }
  else if (state.locks.lockedTablesBySession.lookup ownerId).isSome then
    { state with
      locks := (normalizedTables.foldl (TableLocks.unlockTable ownerId) state.locks).dropEmptyLockSet ownerId }
  else state

def handle (parse : Parser) (state : CoordinatorState) :
    CoordinatorCommand → CoordinatorState × CoordinatorReply
  | .begin sessionId => (state.begin sessionId).map id .result
  | .beginWithTableLocks sessionId tableIds =>
    (state.beginWithTableLocks sessionId tableIds).map id .result
  | .isActive sessionId => (state, .flag (state.active sessionId))
  | .routeQuery sessionId query canStage =>
    (state.routeQuery parse sessionId query canStage).map id .routing
  | .stage sessionId query =>
    match state.stagedBySession.lookup sessionId with
    | none => (state, .result (.error noActive))
    | some staged => (state.setStaged sessionId (staged ++ [query]), .result (.ok ()))
  | .getStaged sessionId =>
    match state.stagedBySession.lookup sessionId with
    | none => (state, .queries (.error noActive))
    | some staged => (state, .queries (.ok staged))
  | .takeForCommit sessionId => (state.takeForCommit sessionId).map id .queries
  | .restoreAfterFailedCommit sessionId staged =>
    if state.active sessionId then (state, .result (.error alreadyActive))
    else (state.setStaged sessionId staged, .result (.ok ()))
  | .rollback sessionId => (state.dropSession sessionId, .flag (state.active sessionId))
  | .finalizeCommit sessionId => (state.dropSession sessionId, .result (.ok ()))
  | .applyRemoteLocks ownerId tableIds => (state.applyRemoteLocks ownerId tableIds, .done)
  | .releaseRemoteLocks ownerId tableIds => (state.releaseRemoteLocks ownerId tableIds, .done)

def step (parse : Parser) (state : CoordinatorState) (command : CoordinatorCommand) : CoordinatorState :=
  (state.handle parse command).1

end CoordinatorState

end DistDb.Coordinator
