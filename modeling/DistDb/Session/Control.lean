import DistDb.Coordinator.Loop

/-! # Transactions of sessions

The server's side of a transaction: the coordinator's state, and three maps that hold what a session
needs between its `BEGIN` and its `COMMIT`. -/

namespace DistDb.Session
open Lib Sql Coordinator

/-! ## State -/

structure ReadObservation where
  databaseId : String
  tableId : String
  deriving DecidableEq, Repr

/-- `σ` is what a snapshot captures: catalogs, runtime indexes and the seeded log. -/
structure ServerApp (σ : Type) where
  coordinator : CoordinatorState
  txBeginEpochMsBySession : Finmap fun _ : String => ℕ
  txSnapshotBySession : Finmap fun _ : String => σ
  txReadObservationsBySession : Finmap fun _ : String => List ReadObservation

structure CommitInput (σ : Type) where
  sessionId : String
  stagedQueries : List DataQuery
  snapshotEpochMs : ℕ
  snapshot : Option σ
  observations : Option (List ReadObservation)

structure CommitOutcome where
  applied : ℕ
  result : Except String ℕ

structure Env (σ : Type) where
  knownSession : Bool
  epochNanos : ℕ
  database : σ
  seedSandboxWal : Except String Unit
  /-- The response of authorization, grants and user creation, if they answer the query. -/
  authorization : Option (Except String ℕ)
  execute : DataQuery → Except String ℕ
  transactionalRead : DataQuery → Except String ℕ
  commitStagedQueries : CommitInput σ → CommitOutcome

structure Settings where
  parse : Parser
  selectPlan : SelectPlanner
  ttlNanos : ℕ
  maxSessions : ℕ

structure Outcome (σ : Type) where
  response : Except String ℕ
  executed : List DataQuery
  committed : Option (CommitInput σ)

def Outcome.of {σ : Type} (response : Except String ℕ) : Outcome σ := ⟨response, [], none⟩

/-! ## Control statements -/

def normalizedSql (query : DataQuery) : String := toAsciiLowercase (trim (trimEndMatches ';' (trim query.sql)))

def isLockTables (normalized : String) : Bool :=
  startsWith normalized "lock table" || startsWith normalized "lock tables"

def isUnlockTables (normalized : String) : Bool :=
  startsWith normalized "unlock table" || startsWith normalized "unlock tables"

inductive ControlStatement where
  | begin (lockTables : Bool)
  | commit
  | rollback
  deriving DecidableEq, Repr

def controlStatement (normalized : String) : Option ControlStatement :=
  if startsWith normalized "begin" || startsWith normalized "start transaction" || isLockTables normalized then
    some (.begin (isLockTables normalized))
  else if startsWith normalized "commit" || isUnlockTables normalized then some .commit
  else if startsWith normalized "rollback" then some .rollback
  else none

def isLightweightImportBegin (query : DataQuery) (lockTables : Bool) : Bool :=
  containsText (normalizedSql query) "distdb_import" || lockTables

def backtick : Char := Char.ofNat 0x60

/-- The table of one entry of a lock list: its first word, without quotes and qualifier. -/
def lockTableId (segment : String) : String :=
  let unquote := fun text => trimMatches '"' (trimMatches backtick text)
  let tableToken := unquote (firstToken segment)
  normalizeIdentifier (unquote ((splitText '.' tableToken).getLastD tableToken))

def parseLockTableIds (sql : String) : List String :=
  let trimmed := trim (trimEndMatches ';' (trim sql))
  let lowered := toAsciiLowercase trimmed
  let lockList := fun keyword : String =>
    ((splitText ',' (String.ofList (trimmed.toList.drop keyword.length))).map lockTableId).foldl
      (fun out tableId => if tableId = "" ∨ tableId ∈ out then out else out ++ [tableId]) []
  if startsWith lowered "lock tables " then lockList "lock tables "
  else if startsWith lowered "lock table " then lockList "lock table "
  else []

example : parseLockTableIds "LOCK TABLES shop.`Orders` WRITE, items READ, ;" = ["orders", "items"] := by
  decide +kernel

/-! ## Requests -/

namespace ServerApp

variable {σ : Type}

def new : ServerApp σ := ⟨.new, ∅, ∅, ∅⟩

def forget (app : ServerApp σ) (sessionId : String) : ServerApp σ :=
  { app with
    txBeginEpochMsBySession := app.txBeginEpochMsBySession.erase sessionId
    txSnapshotBySession := app.txSnapshotBySession.erase sessionId
    txReadObservationsBySession := app.txReadObservationsBySession.erase sessionId }

def rollbackCoordinator (app : ServerApp σ) (sessionId : String) : ServerApp σ :=
  { app with coordinator := app.coordinator.dropSession sessionId }

def sessionsToRemove (settings : Settings) (now : ℕ) (app : ServerApp σ) : List String :=
  let expired :=
    if settings.ttlNanos = 0 then []
    else (sortTexts app.txBeginEpochMsBySession.keys).filter fun sessionId =>
      settings.ttlNanos ≤ now - (app.txBeginEpochMsBySession.lookup sessionId).getD 0
  let sessions := sortTexts app.txSnapshotBySession.keys
  if 0 < settings.maxSessions ∧ settings.maxSessions < sessions.length then
    let beginEpoch := fun sessionId => (app.txBeginEpochMsBySession.lookup sessionId).getD 0
    let oldest := (sessions.mergeSort fun a b => beginEpoch a ≤ beginEpoch b).take
      (sessions.length - settings.maxSessions)
    expired ++ oldest.filter (· ∉ expired)
  else expired

def enforceTransactionSnapshotLimits (settings : Settings) (now : ℕ) (app : ServerApp σ) : ServerApp σ :=
  if app.txSnapshotBySession.keys = ∅ ∨ settings.ttlNanos = 0 ∧ settings.maxSessions = 0 then app
  else
    (sessionsToRemove settings now app).foldl
      (fun app sessionId => (app.rollbackCoordinator sessionId).forget sessionId) app

def beginInCoordinator (app : ServerApp σ) (sessionId : String) (query : DataQuery) (lockTables : Bool) :
    CoordinatorState × Except String Unit :=
  if lockTables then app.coordinator.beginWithTableLocks sessionId (parseLockTableIds query.sql)
  else app.coordinator.begin sessionId

def beginTransaction (env : Env σ) (app : ServerApp σ) (sessionId : String) (query : DataQuery)
    (lockTables : Bool) : ServerApp σ × Outcome σ :=
  match app.beginInCoordinator sessionId query lockTables with
  | (coordinator, .error err) => ({ app with coordinator }, .of (.error err))
  | (coordinator, .ok _) =>
    let app := { app with
      coordinator
      txBeginEpochMsBySession := app.txBeginEpochMsBySession.insert sessionId env.epochNanos }
    if isLightweightImportBegin query lockTables then (app, .of (.ok 0))
    else
      match env.seedSandboxWal with
      | .error err =>
        ({ app.rollbackCoordinator sessionId with
            txBeginEpochMsBySession := app.txBeginEpochMsBySession.erase sessionId },
          .of (.error ("failed to capture transaction snapshot: " ++ err)))
      | .ok _ =>
        ({ app with
            txSnapshotBySession := app.txSnapshotBySession.insert sessionId env.database
            txReadObservationsBySession := app.txReadObservationsBySession.insert sessionId [] },
          .of (.ok 0))

def commitInput (app : ServerApp σ) (sessionId : String) (stagedQueries : List DataQuery) : CommitInput σ where
  sessionId := sessionId
  stagedQueries := stagedQueries
  snapshotEpochMs := (app.txBeginEpochMsBySession.lookup sessionId).getD 0
  snapshot := app.txSnapshotBySession.lookup sessionId
  observations := app.txReadObservationsBySession.lookup sessionId

def commitTransaction (env : Env σ) (app : ServerApp σ) (sessionId : String) : ServerApp σ × Outcome σ :=
  match app.coordinator.takeForCommit sessionId with
  | (coordinator, .error err) => ({ app with coordinator }, .of (.error err))
  | (coordinator, .ok stagedQueries) =>
    let app := { app with coordinator }
    let input := app.commitInput sessionId stagedQueries
    let outcome := env.commitStagedQueries input
    let executed := stagedQueries.take outcome.applied
    match outcome.result with
    | .error err =>
      let app := app.rollbackCoordinator sessionId
      (if input.snapshot.isSome then app else app.forget sessionId, ⟨.error err, executed, some input⟩)
    | .ok total => ((app.forget sessionId).rollbackCoordinator sessionId, ⟨.ok total, executed, some input⟩)

def rollbackTransaction (app : ServerApp σ) (sessionId : String) : ServerApp σ × Outcome σ :=
  let active := app.coordinator.active sessionId
  let app := app.rollbackCoordinator sessionId
  if active then (app.forget sessionId, .of (.ok 0)) else (app, .of (.error CoordinatorState.noActive))

def recordSimpleReadObservation (settings : Settings) (app : ServerApp σ) (sessionId : String)
    (query : DataQuery) : ServerApp σ :=
  match settings.selectPlan query with
  | none => app
  | some readPlan =>
    if readPlan.tableId = "" ∨ readPlan.joins ≠ [] then app
    else
      let observations := (app.txReadObservationsBySession.lookup sessionId).getD []
      let observation : ReadObservation := ⟨query.databaseId, readPlan.tableId⟩
      { app with
        txReadObservationsBySession := app.txReadObservationsBySession.insert sessionId
          (if observation ∈ observations then observations else observations ++ [observation]) }

def executeTransactionalRead (settings : Settings) (env : Env σ) (app : ServerApp σ) (sessionId : String)
    (query : DataQuery) : ServerApp σ × Outcome σ :=
  if (app.txSnapshotBySession.lookup sessionId).isNone then
    (app, .of (.error "missing transaction WAL snapshot state for this session"))
  else
    match env.transactionalRead query with
    | .error err => (app, .of (.error err))
    | .ok rows => (app.recordSimpleReadObservation settings sessionId query, .of (.ok rows))

def isTransactionalReadRequests : List SqlRequest → Bool
  | [request] => request.operation == .select
  | _ => false

def handleQuery (settings : Settings) (env : Env σ) (app : ServerApp σ) (sessionId : String)
    (query : DataQuery) : ServerApp σ × Outcome σ :=
  match settings.parse query, env.authorization with
  | none, _ => (app, .of (.error "sql parse failed"))
  | some _, some response => (app, .of response)
  | some requests, none =>
    if app.coordinator.active sessionId && isTransactionalReadRequests requests then
      app.executeTransactionalRead settings env sessionId query
    else
      let (coordinator, decision) :=
        app.coordinator.routeQuery settings.parse sessionId query (isStagedDmlRequests requests)
      let app := { app with coordinator }
      match decision with
      | .executeImmediately => (app, ⟨env.execute query, [query], none⟩)
      | .staged => (app, .of (.ok 0))
      | .rejected message => (app, .of (.error message))

inductive Request where
  | query (sessionId : String) (query : DataQuery)
  | disconnect (sessionId : String)
  | remoteTableLockState (ownerNodeId ownerSessionId : String) (tableIds : List String) (locked : Bool)

def remoteOwnerId (ownerNodeId ownerSessionId : String) : String :=
  "remote:" ++ ownerNodeId ++ ":" ++ ownerSessionId

def handleControl (env : Env σ) (app : ServerApp σ) (sessionId : String) (query : DataQuery) :
    ControlStatement → ServerApp σ × Outcome σ
  | .begin lockTables => app.beginTransaction env sessionId query lockTables
  | .commit => app.commitTransaction env sessionId
  | .rollback => app.rollbackTransaction sessionId

def handleRequest (settings : Settings) (app : ServerApp σ) (env : Env σ) :
    Request → ServerApp σ × Outcome σ
  | .query sessionId query =>
    let app := app.enforceTransactionSnapshotLimits settings env.epochNanos
    if env.knownSession then
      match controlStatement (normalizedSql query) with
      | some statement => app.handleControl env sessionId query statement
      | none => app.handleQuery settings env sessionId query
    else (app, .of (.error ("invalid session '" ++ sessionId ++ "'")))
  | .disconnect sessionId => app.rollbackTransaction sessionId
  | .remoteTableLockState ownerNodeId ownerSessionId tableIds locked =>
    let ownerId := remoteOwnerId ownerNodeId ownerSessionId
    if locked then
      ({ app with coordinator := app.coordinator.applyRemoteLocks ownerId tableIds }, .of (.ok 0))
    else ({ app with coordinator := app.coordinator.releaseRemoteLocks ownerId tableIds }, .of (.ok 0))

abbrev Input (σ : Type) := Env σ × Request

def step (settings : Settings) (app : ServerApp σ) (input : Input σ) : ServerApp σ :=
  (app.handleRequest settings input.1 input.2).1

end ServerApp

end DistDb.Session
