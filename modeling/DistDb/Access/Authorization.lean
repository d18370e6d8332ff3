import DistDb.Access.Statement

/-! # Authorization

A request is checked in one database, against the entry of the session's user there, for every object
name that is collected from its statement. -/

namespace DistDb.Access
open Lib Sql

/-! ## Accounts and their privileges -/

inductive AccountPrivilege where
  | alter | alterRoutine | create | createRole | createRoutine | createTablespace
  | createTemporaryTables | createUser | createView | delete | drop | dropRole | event | execute
  | file | grantOption | index | insert | lockTables | process | proxy | references | reload
  | replicationClient | replicationSlave | select | showDatabases | showView | shutdown | super
  | trigger | update | applicationPasswordAdmin | auditAbortExempt | auditAdmin
  | authenticationPolicyAdmin | backupAdmin | binlogAdmin | binlogEncryptionAdmin | cloneAdmin
  | connectionAdmin | encryptionKeyAdmin | firewallAdmin | firewallExempt | firewallUser
  | flushOptimizerCosts | flushStatus | flushTables | flushUserResources | groupReplicationAdmin
  | groupReplicationStream | innoDbRedoLogArchive | innoDbRedoLogEnable | maskingDictionariesAdmin
  | ndbStoredUser | passwordlessUserAdmin | persistRoVariablesAdmin | replicationApplier
  | replicationSlaveAdmin | resourceGroupAdmin | resourceGroupUser | roleAdmin
  | sensitiveVariablesObserver | serviceConnectionAdmin | sessionVariablesAdmin | setUserId
  | showRoutine | skipQueryRewrite | systemUser | systemVariablesAdmin | tableEncryptionAdmin
  | telemetryLogAdmin | tpConnectionAdmin | versionTokenAdmin | xaRecoverAdmin
  deriving DecidableEq, Repr

def AccountPrivilege.asStr : AccountPrivilege → String
  | .alter => "ALTER"
  | .alterRoutine => "ALTER ROUTINE"
  | .create => "CREATE"
  | .createRole => "CREATE ROLE"
  | .createRoutine => "CREATE ROUTINE"
  | .createTablespace => "CREATE TABLESPACE"
  | .createTemporaryTables => "CREATE TEMPORARY TABLES"
  | .createUser => "CREATE USER"
  | .createView => "CREATE VIEW"
  | .delete => "DELETE"
  | .drop => "DROP"
  | .dropRole => "DROP ROLE"
  | .event => "EVENT"
  | .execute => "EXECUTE"
  | .file => "FILE"
  | .grantOption => "GRANT OPTION"
  | .index => "INDEX"
  | .insert => "INSERT"
  | .lockTables => "LOCK TABLES"
  | .process => "PROCESS"
  | .proxy => "PROXY"
  | .references => "REFERENCES"
  | .reload => "RELOAD"
  | .replicationClient => "REPLICATION CLIENT"
  | .replicationSlave => "REPLICATION SLAVE"
  | .select => "SELECT"
  | .showDatabases => "SHOW DATABASES"
  | .showView => "SHOW VIEW"
  | .shutdown => "SHUTDOWN"
  | .super => "SUPER"
  | .trigger => "TRIGGER"
  | .update => "UPDATE"
  | .applicationPasswordAdmin => "APPLICATION_PASSWORD_ADMIN"
  | .auditAbortExempt => "AUDIT_ABORT_EXEMPT"
  | .auditAdmin => "AUDIT_ADMIN"
  | .authenticationPolicyAdmin => "AUTHENTICATION_POLICY_ADMIN"
  | .backupAdmin => "BACKUP_ADMIN"
  | .binlogAdmin => "BINLOG_ADMIN"
  | .binlogEncryptionAdmin => "BINLOG_ENCRYPTION_ADMIN"
  | .cloneAdmin => "CLONE_ADMIN"
  | .connectionAdmin => "CONNECTION_ADMIN"
  | .encryptionKeyAdmin => "ENCRYPTION_KEY_ADMIN"
  | .firewallAdmin => "FIREWALL_ADMIN"
  | .firewallExempt => "FIREWALL_EXEMPT"
  | .firewallUser => "FIREWALL_USER"
  | .flushOptimizerCosts => "FLUSH_OPTIMIZER_COSTS"
  | .flushStatus => "FLUSH_STATUS"
  | .flushTables => "FLUSH_TABLES"
  | .flushUserResources => "FLUSH_USER_RESOURCES"
  | .groupReplicationAdmin => "GROUP_REPLICATION_ADMIN"
  | .groupReplicationStream => "GROUP_REPLICATION_STREAM"
  | .innoDbRedoLogArchive => "INNODB_REDO_LOG_ARCHIVE"
  | .innoDbRedoLogEnable => "INNODB_REDO_LOG_ENABLE"
  | .maskingDictionariesAdmin => "MASKING_DICTIONARIES_ADMIN"
  | .ndbStoredUser => "NDB_STORED_USER"
  | .passwordlessUserAdmin => "PASSWORDLESS_USER_ADMIN"
  | .persistRoVariablesAdmin => "PERSIST_RO_VARIABLES_ADMIN"
  | .replicationApplier => "REPLICATION_APPLIER"
  | .replicationSlaveAdmin => "REPLICATION_SLAVE_ADMIN"
  | .resourceGroupAdmin => "RESOURCE_GROUP_ADMIN"
  | .resourceGroupUser => "RESOURCE_GROUP_USER"
  | .roleAdmin => "ROLE_ADMIN"
  | .sensitiveVariablesObserver => "SENSITIVE_VARIABLES_OBSERVER"
  | .serviceConnectionAdmin => "SERVICE_CONNECTION_ADMIN"
  | .sessionVariablesAdmin => "SESSION_VARIABLES_ADMIN"
  | .setUserId => "SET_USER_ID"
  | .showRoutine => "SHOW_ROUTINE"
  | .skipQueryRewrite => "SKIP_QUERY_REWRITE"
  | .systemUser => "SYSTEM_USER"
  | .systemVariablesAdmin => "SYSTEM_VARIABLES_ADMIN"
  | .tableEncryptionAdmin => "TABLE_ENCRYPTION_ADMIN"
  | .telemetryLogAdmin => "TELEMETRY_LOG_ADMIN"
  | .tpConnectionAdmin => "TP_CONNECTION_ADMIN"
  | .versionTokenAdmin => "VERSION_TOKEN_ADMIN"
  | .xaRecoverAdmin => "XA_RECOVER_ADMIN"

/-- `acl` and the sets of `objectAcl` as membership tests. The owner, the database and the grant options
are left out. -/
structure AccountAclEntry where
  acl : String → Bool
  objectAcl : String → Option (String → Bool)

def normalizeAclObjectName (value : String) : String :=
  toAsciiLowercase (trimMatches '"' (trimMatches (Char.ofNat 96) (trim value)))

def AccountAclEntry.hasPrivilegeForObject (entry : AccountAclEntry) (privilege : AccountPrivilege)
    (objectName : Option String) : Bool :=
  if entry.acl privilege.asStr then true
  else
    match objectName with
    | none => false
    | some objectName =>
      let normalizedObject := normalizeAclObjectName objectName
      if normalizedObject = "" then false
      else ((entry.objectAcl normalizedObject).map fun privileges => privileges privilege.asStr).getD false

structure AclCatalog where
  accountAclEntries : String → Option AccountAclEntry

def AclCatalog.effectiveAccountAclEntry (catalog : AclCatalog) (userId : String) : Option AccountAclEntry :=
  catalog.accountAclEntries (toAsciiLowercase (trim userId))

/-! ## Requests -/

structure ParsedRequest extends SqlRequest where
  parsedStatement : Option Statement
  requiredPrivilege : Option AccountPrivilege

namespace ParsedRequest

def referencedObjectNames (request : ParsedRequest) : List String :=
  let pushed := match request.parsedStatement with
    | some statement => statement.pushedNames request.objectName
    | none => request.objectName.toList
  pushed.foldl pushObject []

def authorizationObjects (request : ParsedRequest) : List String :=
  if request.operation = .createDatabase ∨ request.operation = .dropDatabase then []
  else
    request.referencedObjectNames.filterMap fun objectName =>
      let normalized := normalizeIdentifier (trim ((splitText '.' objectName).getLastD objectName))
      if normalized = "" then none else some normalized

def authorizationDatabase (queryDatabaseId : String) (request : ParsedRequest) : String :=
  if request.operation = .createDatabase then "main"
  else
    let qualifier := (request.objectName.bind (splitOnce '.')).map fun parts => normalizeIdentifier parts.1
    match qualifier.filter (· ≠ "") with
    | some database => database
    | none =>
      if normalizeIdentifier queryDatabaseId ≠ "" then normalizeIdentifier queryDatabaseId else "main"

def references (request : ParsedRequest) : List String :=
  match request.parsedStatement with
  | some statement => statement.references
  | none => request.objectName.toList

end ParsedRequest

/-! ## The node -/

structure AclNode where
  sessions : String → Option String
  catalogs : String → Option AclCatalog

namespace AclNode

variable (databaseIdOf : String → Option String)

def known (node : AclNode) (key : String) : Bool := (node.catalogs key).isSome

def authorizeObjects (entry : AccountAclEntry) (privilege : AccountPrivilege) (user database : String) :
    List String → Except String Unit
  | [] => .ok ()
  | objectName :: objects =>
    if entry.hasPrivilegeForObject privilege (some objectName) then
      authorizeObjects entry privilege user database objects
    else
      .error s!"permission denied for user '{user}': missing '{privilege.asStr}' on object '{database}.{objectName}'"

def authorizeRequest (node : AclNode) (user queryDatabaseId : String) (request : ParsedRequest) :
    Except String Unit :=
  match request.requiredPrivilege with
  | none => .ok ()
  | some privilege =>
    let database := request.authorizationDatabase queryDatabaseId
    let entry := ((resolveCatalogKey databaseIdOf node.known database).bind node.catalogs).bind
      (·.effectiveAccountAclEntry user)
    match entry with
    | none => .error s!"permission denied for user '{user}' on database '{database}'"
    | some entry =>
      if request.authorizationObjects = [] then
        if entry.hasPrivilegeForObject privilege none then .ok ()
        else .error s!"permission denied for user '{user}': missing '{privilege.asStr}' on database '{database}'"
      else authorizeObjects entry privilege user database request.authorizationObjects

def authorizeRequests (node : AclNode) (user queryDatabaseId : String) : List ParsedRequest → Except String Unit
  | [] => .ok ()
  | request :: requests =>
    match node.authorizeRequest databaseIdOf user queryDatabaseId request with
    | .ok () => authorizeRequests node user queryDatabaseId requests
    | .error e => .error e

def authorizeSqlRequestsForSession (node : AclNode) (sessionId queryDatabaseId : String)
    (requests : List ParsedRequest) : Except String Unit :=
  match node.sessions sessionId with
  | none => .error s!"invalid session '{sessionId}'"
  | some user =>
    if toAsciiLowercase user = "root" then .ok ()
    else node.authorizeRequests databaseIdOf user queryDatabaseId requests

end AclNode

/-! ## What authorization is for -/

/-- The database an object lies in, and its name there; a dropped database is its own. The server reads
the qualifier up to the last dot. -/
def ownObject (databaseIdOf : String → Option String) (known : String → Bool) (queryDatabaseId : String)
    (request : ParsedRequest) (name : String) : Option (String × Option String) :=
  match request.operation with
  | .createDatabase => none
  | .dropDatabase => (resolveCatalogKey databaseIdOf known name).map (·, none)
  | _ =>
    match rsplitOnce '.' name with
    | some (databaseName, tableId) =>
      if normalizeIdentifier tableId = "" then none
      else (resolveCatalogKey databaseIdOf known databaseName).map (·, some (normalizeIdentifier tableId))
    | none =>
      if normalizeIdentifier name = "" ∨ trim queryDatabaseId = "" then none
      else (resolveCatalogKey databaseIdOf known queryDatabaseId).map (·, some (normalizeIdentifier name))

/-- The entry of the user in the database has the privilege for the object. -/
def AclNode.Grants (node : AclNode) (user : String) (privilege : AccountPrivilege) (own : String × Option String) :
    Prop :=
  ∃ catalog entry, node.catalogs own.1 = some catalog ∧ catalog.effectiveAccountAclEntry user = some entry ∧
    entry.hasPrivilegeForObject privilege own.2 = true

/-- Every object that a request refers to is granted to the user in its own database. -/
def AclNode.GrantsReferences (databaseIdOf : String → Option String) (node : AclNode)
    (user queryDatabaseId : String) (requests : List ParsedRequest) : Prop :=
  ∀ request ∈ requests, ∀ privilege ∈ request.requiredPrivilege, ∀ name ∈ request.references,
    ∀ own ∈ ownObject databaseIdOf node.known queryDatabaseId request name, node.Grants user privilege own

/-- A request that is accepted shows that the privilege for the object is granted. -/
def ParsedRequest.Covers (databaseIdOf : String → Option String) (known : String → Bool) (queryDatabaseId : String)
    (request : ParsedRequest) (privilege : AccountPrivilege) (own : String × Option String) : Prop :=
  (∃ checked ∈ request.requiredPrivilege, checked.asStr = privilege.asStr) ∧
    resolveCatalogKey databaseIdOf known (request.authorizationDatabase queryDatabaseId) = some own.1 ∧
    (request.authorizationObjects = [] ∨ ∃ objectName ∈ request.authorizationObjects,
      normalizeAclObjectName objectName = "" ∨
        own.2.map normalizeAclObjectName = some (normalizeAclObjectName objectName))

/-- The databases that the requests are checked in exist. -/
def Resolves (databaseIdOf : String → Option String) (known : String → Bool) (queryDatabaseId : String)
    (requests : List ParsedRequest) : Prop :=
  ∀ request ∈ requests, request.requiredPrivilege.isSome = true →
    (resolveCatalogKey databaseIdOf known (request.authorizationDatabase queryDatabaseId)).isSome = true

/-- What a request refers to is covered by the check of some request. -/
def Covered (databaseIdOf : String → Option String) (known : String → Bool) (queryDatabaseId : String)
    (requests : List ParsedRequest) : Prop :=
  ∀ request ∈ requests, ∀ privilege ∈ request.requiredPrivilege, ∀ name ∈ request.references,
    ∀ own ∈ ownObject databaseIdOf known queryDatabaseId request name,
      ∃ covering ∈ requests, covering.Covers databaseIdOf known queryDatabaseId privilege own

/-! ## The checks -/

section
variable {databaseIdOf : String → Option String} {node : AclNode} {user queryDatabaseId : String}
    {privilege : AccountPrivilege}

theorem hasPrivilegeForObject_iff {entry : AccountAclEntry} {objectName : Option String} :
    entry.hasPrivilegeForObject privilege objectName = true ↔ entry.acl privilege.asStr = true ∨
      ∃ name ∈ objectName, normalizeAclObjectName name ≠ "" ∧
        ∃ privileges ∈ entry.objectAcl (normalizeAclObjectName name), privileges privilege.asStr = true := by
  unfold AccountAclEntry.hasPrivilegeForObject
  split
  · rename_i hacl
    exact iff_of_true rfl (.inl hacl)
  · rename_i hacl
    rw [or_iff_right hacl]
    cases objectName with
    | none => simp
    | some name =>
      cases hprivileges : entry.objectAcl (normalizeAclObjectName name) with
      | none => simp [hprivileges]
      | some privileges => simp [hprivileges]

theorem authorizeObjects_eq_ok_iff {entry : AccountAclEntry} {database : String} {objects : List String} :
    AclNode.authorizeObjects entry privilege user database objects = .ok () ↔
      ∀ objectName ∈ objects, entry.hasPrivilegeForObject privilege (some objectName) = true := by
  induction objects with
  | nil => simp [AclNode.authorizeObjects]
  | cons objectName objects ih =>
    rw [AclNode.authorizeObjects, List.forall_mem_cons]
    split
    · rename_i hgranted
      rw [ih, and_iff_right hgranted]
    · rename_i hdenied
      exact iff_of_false (fun h => by cases h) fun h => hdenied h.1

theorem authorizeRequest_eq_ok_iff {request : ParsedRequest} :
    node.authorizeRequest databaseIdOf user queryDatabaseId request = .ok () ↔
      ∀ privilege ∈ request.requiredPrivilege, ∃ key catalog entry,
        resolveCatalogKey databaseIdOf node.known (request.authorizationDatabase queryDatabaseId) = some key ∧
        node.catalogs key = some catalog ∧ catalog.effectiveAccountAclEntry user = some entry ∧
        if request.authorizationObjects = [] then entry.hasPrivilegeForObject privilege none = true
        else ∀ objectName ∈ request.authorizationObjects,
          entry.hasPrivilegeForObject privilege (some objectName) = true := by
  rw [AclNode.authorizeRequest]
  cases request.requiredPrivilege with
  | none => simp
  | some privilege =>
    dsimp only
    cases hentry : ((resolveCatalogKey databaseIdOf node.known
        (request.authorizationDatabase queryDatabaseId)).bind node.catalogs).bind (·.effectiveAccountAclEntry user) with
    | none =>
      refine iff_of_false (fun h => by cases h) fun h => ?_
      obtain ⟨key, catalog, entry, hkey, hcatalog, heffective, -⟩ := h privilege rfl
      rw [hkey, Option.bind_some, hcatalog, Option.bind_some, heffective] at hentry
      cases hentry
    | some entry =>
      obtain ⟨catalog, hcatalog, heffective⟩ := Option.bind_eq_some_iff.mp hentry
      obtain ⟨key, hkey, hcatalog⟩ := Option.bind_eq_some_iff.mp hcatalog
      have hchecks : (∀ checked ∈ some privilege, ∃ key catalog entry,
          resolveCatalogKey databaseIdOf node.known (request.authorizationDatabase queryDatabaseId) = some key ∧
          node.catalogs key = some catalog ∧ catalog.effectiveAccountAclEntry user = some entry ∧
          if request.authorizationObjects = [] then entry.hasPrivilegeForObject checked none = true
          else ∀ objectName ∈ request.authorizationObjects,
            entry.hasPrivilegeForObject checked (some objectName) = true) ↔
          if request.authorizationObjects = [] then entry.hasPrivilegeForObject privilege none = true
          else ∀ objectName ∈ request.authorizationObjects,
            entry.hasPrivilegeForObject privilege (some objectName) = true := by
        constructor
        · intro h
          obtain ⟨key', catalog', entry', hkey', hcatalog', heffective', hchecked⟩ := h privilege rfl
          cases hkey.symm.trans hkey'
          cases hcatalog.symm.trans hcatalog'
          cases heffective.symm.trans heffective'
          exact hchecked
        · intro h checked hmem
          cases hmem
          exact ⟨key, catalog, entry, hkey, hcatalog, heffective, h⟩
      rw [hchecks]
      dsimp only
      split
      · cases entry.hasPrivilegeForObject privilege none <;> simp
      · exact authorizeObjects_eq_ok_iff

theorem authorizeRequests_eq_ok_iff {requests : List ParsedRequest} :
    node.authorizeRequests databaseIdOf user queryDatabaseId requests = .ok () ↔
      ∀ request ∈ requests, node.authorizeRequest databaseIdOf user queryDatabaseId request = .ok () := by
  induction requests with
  | nil => simp [AclNode.authorizeRequests]
  | cons request requests ih =>
    rw [AclNode.authorizeRequests, List.forall_mem_cons]
    cases hrequest : node.authorizeRequest databaseIdOf user queryDatabaseId request with
    | ok => simp [ih]
    | error e => simp

theorem authorizeSqlRequestsForSession_eq {sessionId : String} (huser : node.sessions sessionId = some user)
    (hroot : toAsciiLowercase user ≠ "root") (requests : List ParsedRequest) :
    node.authorizeSqlRequestsForSession databaseIdOf sessionId queryDatabaseId requests =
      node.authorizeRequests databaseIdOf user queryDatabaseId requests := by
  rw [AclNode.authorizeSqlRequestsForSession, huser]
  exact if_neg hroot

theorem grants_of_covers {request : ParsedRequest} {own : String × Option String}
    (hok : node.authorizeRequest databaseIdOf user queryDatabaseId request = .ok ())
    (hcovers : request.Covers databaseIdOf node.known queryDatabaseId privilege own) :
    node.Grants user privilege own := by
  obtain ⟨⟨checked, hchecked, hsame⟩, hkey, hobjects⟩ := hcovers
  obtain ⟨key, catalog, entry, hkey', hcatalog, heffective, hgranted⟩ :=
    authorizeRequest_eq_ok_iff.mp hok checked hchecked
  cases hkey.symm.trans hkey'
  refine ⟨catalog, entry, hcatalog, heffective, ?_⟩
  rw [hasPrivilegeForObject_iff, ← hsame]
  by_cases hnone : request.authorizationObjects = []
  · rw [if_pos hnone, hasPrivilegeForObject_iff] at hgranted
    refine hgranted.imp_right ?_
    rintro ⟨name, hmem, -⟩
    cases hmem
  · rw [if_neg hnone] at hgranted
    obtain ⟨objectName, hmem, hname⟩ := hobjects.resolve_left hnone
    refine (hasPrivilegeForObject_iff.mp (hgranted objectName hmem)).imp_right ?_
    rintro ⟨name, hname', hne, hprivileges⟩
    cases hname'
    obtain ⟨tableId, htable, hsameName⟩ := Option.map_eq_some_iff.mp (hname.resolve_left hne)
    exact ⟨tableId, htable, by rwa [hsameName], by rwa [hsameName]⟩

end

/-! ## An account that has all but one privilege -/

def allButEntry (privilege : AccountPrivilege) (own : String × Option String) (key : String) : AccountAclEntry where
  acl name := key ≠ own.1 || name ≠ privilege.asStr
  objectAcl name := if own.2.map normalizeAclObjectName = some name then none else some fun _ => true

def allButNode (known : String → Bool) (privilege : AccountPrivilege) (own : String × Option String) : AclNode where
  sessions _ := some "alice"
  catalogs key := if known key then some ⟨fun _ => some (allButEntry privilege own key)⟩ else none

section
variable {databaseIdOf : String → Option String} {known : String → Bool} {queryDatabaseId : String}
  {privilege : AccountPrivilege} {own : String × Option String}

theorem known_allButNode : (allButNode known privilege own).known = known := by
  funext key
  rw [AclNode.known, allButNode]
  cases hknown : known key <;> simp [hknown]

theorem known_of_resolveCatalogKey {databaseId key : String}
    (h : resolveCatalogKey databaseIdOf known databaseId = some key) : known key = true := by
  rw [resolveCatalogKey] at h
  split at h
  · rename_i hknown
    exact Option.some.inj h ▸ hknown
  · exact (Option.filter_eq_some_iff.mp h).2

theorem not_grants_allButNode (known : String → Bool) (privilege : AccountPrivilege) (own : String × Option String) :
    ¬ (allButNode known privilege own).Grants "alice" privilege own := by
  rintro ⟨catalog, entry, hcatalog, heffective, hgranted⟩
  dsimp only [allButNode] at hcatalog
  split at hcatalog
  · cases hcatalog
    cases heffective
    rcases hasPrivilegeForObject_iff.mp hgranted with hacl | ⟨name, hname, -, privileges, hprivileges, -⟩
    · simp [allButEntry] at hacl
    · dsimp only [allButEntry] at hprivileges
      rw [hname, Option.map_some, if_pos rfl] at hprivileges
      cases hprivileges
  · cases hcatalog

theorem authorizeRequest_allButNode {request : ParsedRequest} (hresolves : request.requiredPrivilege.isSome = true →
      (resolveCatalogKey databaseIdOf known (request.authorizationDatabase queryDatabaseId)).isSome = true)
    (hcovers : ¬ request.Covers databaseIdOf known queryDatabaseId privilege own) :
    (allButNode known privilege own).authorizeRequest databaseIdOf "alice" queryDatabaseId request = .ok () := by
  rw [authorizeRequest_eq_ok_iff, known_allButNode]
  intro checked hchecked
  obtain ⟨key, hkey⟩ := Option.isSome_iff_exists.mp (hresolves (Option.isSome_of_mem hchecked))
  refine ⟨key, _, allButEntry privilege own key, hkey, if_pos (known_of_resolveCatalogKey hkey), rfl, ?_⟩
  by_cases hother : key ≠ own.1 ∨ checked.asStr ≠ privilege.asStr
  · have hacl : (allButEntry privilege own key).acl checked.asStr = true := by
      simpa [allButEntry] using hother
    split
    · exact hasPrivilegeForObject_iff.mpr (.inl hacl)
    · exact fun _ _ => hasPrivilegeForObject_iff.mpr (.inl hacl)
  · obtain ⟨hsameKey, hsame⟩ := not_or.mp hother
    rw [not_not] at hsameKey hsame
    rw [ParsedRequest.Covers, hkey, hsameKey] at hcovers
    have hobjects := fun h => hcovers ⟨⟨checked, hchecked, hsame⟩, rfl, h⟩
    rw [if_neg fun hnone => hobjects (.inl hnone)]
    intro objectName hmem
    have hname := fun h => hobjects (.inr ⟨objectName, hmem, h⟩)
    refine hasPrivilegeForObject_iff.mpr (.inr ⟨objectName, rfl, fun hempty => hname (.inl hempty), ?_⟩)
    exact ⟨fun _ => true, if_neg fun hsameName => hname (.inr hsameName), rfl⟩

end

/-! ## Theorem -/

/-- Whatever the accounts may do, a list of requests that is accepted refers only to what its user may
access, if and only if a database it is checked in does not exist or its checks cover what it refers
to. -/
theorem authorization_protects_iff (databaseIdOf : String → Option String) (known : String → Bool)
    (queryDatabaseId : String) (requests : List ParsedRequest) :
    (∀ (node : AclNode) (sessionId user : String), node.known = known → node.sessions sessionId = some user →
      toAsciiLowercase user ≠ "root" →
      node.authorizeSqlRequestsForSession databaseIdOf sessionId queryDatabaseId requests = .ok () →
      node.GrantsReferences databaseIdOf user queryDatabaseId requests) ↔
    (Resolves databaseIdOf known queryDatabaseId requests → Covered databaseIdOf known queryDatabaseId requests) := by
  constructor
  · intro hprotects hresolves request hrequest privilege hprivilege name hname own hown
    by_contra hnone
    refine not_grants_allButNode known privilege own ?_
    have haccepted : (allButNode known privilege own).authorizeSqlRequestsForSession databaseIdOf "session"
        queryDatabaseId requests = .ok () := by
      rw [authorizeSqlRequestsForSession_eq rfl (by decide), authorizeRequests_eq_ok_iff]
      intro covering hcovering
      exact authorizeRequest_allButNode (hresolves covering hcovering) fun hcovers =>
        hnone ⟨covering, hcovering, hcovers⟩
    refine hprotects _ "session" "alice" known_allButNode rfl (by decide) haccepted request hrequest privilege
      hprivilege name hname own ?_
    rwa [known_allButNode]
  · intro hcovered node sessionId user hknown huser hroot haccepted request hrequest privilege hprivilege name hname
      own hown
    subst hknown
    rw [authorizeSqlRequestsForSession_eq huser hroot, authorizeRequests_eq_ok_iff] at haccepted
    have hresolves : Resolves databaseIdOf node.known queryDatabaseId requests := by
      intro checked hchecked hsome
      obtain ⟨required, hrequired⟩ := Option.isSome_iff_exists.mp hsome
      obtain ⟨key, -, -, hkey, -⟩ := authorizeRequest_eq_ok_iff.mp (haccepted checked hchecked) required hrequired
      rw [hkey]
      rfl
    obtain ⟨covering, hcovering, hcovers⟩ :=
      hcovered hresolves request hrequest privilege hprivilege name hname own hown
    exact grants_of_covers (haccepted covering hcovering) hcovers

/-! Two databases, and an account that may read and drop in one of them. -/

def appNode : AclNode where
  sessions _ := some "alice"
  catalogs key :=
    if key = "app" then
      some ⟨fun user => if user = "alice" then
        some ⟨fun name => name = "SELECT" || name = "DROP", fun _ => none⟩ else none⟩
    else if key = "hr" then some ⟨fun _ => none⟩
    else none

/-- `SELECT … FROM items JOIN hr.salaries` -/
def joinAcross : ParsedRequest where
  operation := .select
  objectName := some "items"
  parsedStatement := some (.query (.mk false [] (.select [.mk (.table "items") [.table "hr.salaries"]] []) []))
  requiredPrivilege := some .select

/-- `SELECT … FROM items WHERE … IN (SELECT … FROM hr.salaries)` -/
def subqueryAcross : ParsedRequest where
  operation := .select
  objectName := some "items"
  parsedStatement := some (.query (.mk false []
    (.select [.mk (.table "items") []] [.mk false [] (.select [.mk (.table "hr.salaries") []] []) []]) []))
  requiredPrivilege := some .select

/-- `DROP DATABASE hr` -/
def dropOther : ParsedRequest where
  operation := .dropDatabase
  objectName := some "hr"
  parsedStatement := some (.drop ["hr"])
  requiredPrivilege := some .drop

/-- All three are accepted in `app`, and the account has no entry in `hr`. -/
theorem authorization_misses_database :
    (∀ request ∈ [joinAcross, subqueryAcross, dropOther],
      appNode.authorizeSqlRequestsForSession (fun _ => none) "session" "app" [request] = .ok ()) ∧
    ¬ appNode.GrantsReferences (fun _ => none) "alice" "app" [joinAcross] ∧
    ¬ appNode.GrantsReferences (fun _ => none) "alice" "app" [subqueryAcross] ∧
    ¬ appNode.GrantsReferences (fun _ => none) "alice" "app" [dropOther] := by
  have hdenied : ∀ privilege objectName, ¬ appNode.Grants "alice" privilege ("hr", objectName) := by
    rintro privilege objectName ⟨catalog, entry, hcatalog, heffective, -⟩
    cases hcatalog
    cases heffective
  refine ⟨by decide +kernel, fun h => ?_, fun h => ?_, fun h => ?_⟩
  · exact hdenied _ _ (h joinAcross (List.mem_singleton_self _) .select rfl "hr.salaries" (by decide +kernel)
      ("hr", some "salaries") (by decide +kernel))
  · exact hdenied _ _ (h subqueryAcross (List.mem_singleton_self _) .select rfl "hr.salaries" (by decide +kernel)
      ("hr", some "salaries") (by decide +kernel))
  · exact hdenied _ _ (h dropOther (List.mem_singleton_self _) .drop rfl "hr" (by decide +kernel)
      ("hr", none) (by decide +kernel))

/-! ## More privileges -/

/-- The second node has the sessions and databases of the first, and grants all that the first grants. -/
structure AclNode.Below (node node' : AclNode) : Prop where
  sessions : node'.sessions = node.sessions
  known : node'.known = node.known
  grants : ∀ user privilege own, node.Grants user privilege own → node'.Grants user privilege own

/-- More privileges never make the server refuse what it accepted. -/
theorem authorized_of_below {node node' : AclNode} (h : node.Below node') (databaseIdOf : String → Option String)
    (sessionId queryDatabaseId : String) (requests : List ParsedRequest)
    (hok : node.authorizeSqlRequestsForSession databaseIdOf sessionId queryDatabaseId requests = .ok ()) :
    node'.authorizeSqlRequestsForSession databaseIdOf sessionId queryDatabaseId requests = .ok () := by
  unfold AclNode.authorizeSqlRequestsForSession at hok ⊢
  rw [h.sessions]
  cases huser : node.sessions sessionId with
  | none =>
    rw [huser] at hok
    cases hok
  | some user =>
    simp only [huser] at hok ⊢
    split
    · rfl
    · rename_i hroot
      rw [if_neg hroot, authorizeRequests_eq_ok_iff] at hok
      rw [authorizeRequests_eq_ok_iff]
      intro request hrequest
      rw [authorizeRequest_eq_ok_iff]
      intro privilege hprivilege
      obtain ⟨key, catalog, entry, hkey, hcatalog, heffective, hgranted⟩ :=
        authorizeRequest_eq_ok_iff.mp (hok request hrequest) privilege hprivilege
      have hafter := fun name hhas => h.grants user privilege (key, name) ⟨catalog, entry, hcatalog, heffective, hhas⟩
      by_cases hnone : request.authorizationObjects = []
      · rw [if_pos hnone] at hgranted
        obtain ⟨catalog', entry', hcatalog', heffective', hhas⟩ := hafter none hgranted
        exact ⟨key, catalog', entry', h.known ▸ hkey, hcatalog', heffective', by rwa [if_pos hnone]⟩
      · rw [if_neg hnone] at hgranted
        obtain ⟨first, hfirst⟩ := List.exists_mem_of_ne_nil _ hnone
        obtain ⟨catalog', entry', hcatalog', heffective', -⟩ := hafter first (hgranted first hfirst)
        refine ⟨key, catalog', entry', h.known ▸ hkey, hcatalog', heffective', ?_⟩
        rw [if_neg hnone]
        intro name hname
        obtain ⟨_, _, hcatalog'', heffective'', hhas⟩ := hafter name (hgranted name hname)
        cases hcatalog'.symm.trans hcatalog''
        cases heffective'.symm.trans heffective''
        exact hhas

def grantAll (node : AclNode) : AclNode where
  sessions := node.sessions
  catalogs key := (node.catalogs key).map fun _ => ⟨fun _ => some ⟨fun _ => true, fun _ => none⟩⟩

theorem joinAcross_authorized :
    (grantAll appNode).authorizeSqlRequestsForSession (fun _ => none) "session" "app" [joinAcross] = .ok () := by
  have hbelow : appNode.Below (grantAll appNode) := by
    refine ⟨rfl, funext fun key => by simp [AclNode.known, grantAll], ?_⟩
    rintro user privilege ⟨key, name⟩ ⟨catalog, entry, hcatalog, -, -⟩
    exact ⟨_, _, congrArg (Option.map _) hcatalog, rfl, rfl⟩
  exact authorized_of_below hbelow _ _ _ _ (by decide +kernel)

end DistDb.Access
