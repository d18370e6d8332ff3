import DistDb.Access.Authorization
import DistDb.Wal.Requests

/-! # GRANT and REVOKE

The plans of a request are carried out one after the other: the changed entry of the account is appended to the log
of the plan's database and then put into the catalog. -/

namespace DistDb.Grants
open Lib Wal Sql Access

/-! ## Entries of accounts -/

structure AccountAclEntry where
  userId : UserId
  databaseId : String
  acl : Finset String
  grantAcl : Finset String
  objectAcl : Finmap fun _ : String => Finset String

def normalizeAclUserKey (userId : String) : String := toAsciiLowercase (trim userId)

namespace AccountAclEntry

def new (userId : UserId) (databaseId : String) : AccountAclEntry :=
  ⟨userId, toAsciiLowercase (trim databaseId), ∅, ∅, ∅⟩

def appendPrivilege (entry : AccountAclEntry) (privilege : AccountPrivilege) : AccountAclEntry :=
  { entry with acl := insert privilege.asStr entry.acl }

def appendGrantOptionForPrivilege (entry : AccountAclEntry) (privilege : AccountPrivilege) : AccountAclEntry :=
  { entry with grantAcl := insert privilege.asStr entry.grantAcl }

def revokePrivilege (entry : AccountAclEntry) (privilege : AccountPrivilege) : AccountAclEntry :=
  { entry with acl := entry.acl.erase privilege.asStr, grantAcl := entry.grantAcl.erase privilege.asStr }

def appendObjectPrivilege (entry : AccountAclEntry) (objectName : String) (privilege : AccountPrivilege) :
    AccountAclEntry :=
  let normalizedObject := normalizeAclObjectName objectName
  if normalizedObject = "" then entry
  else
    let privileges := (entry.objectAcl.lookup normalizedObject).getD ∅
    { entry with objectAcl := entry.objectAcl.insert normalizedObject (insert privilege.asStr privileges) }

def revokeObjectPrivilege (entry : AccountAclEntry) (objectName : String) (privilege : AccountPrivilege) :
    AccountAclEntry :=
  let normalizedObject := normalizeAclObjectName objectName
  if normalizedObject = "" then entry
  else
    match entry.objectAcl.lookup normalizedObject with
    | none => entry
    | some privileges =>
      if privileges.erase privilege.asStr = ∅ then
        { entry with objectAcl := entry.objectAcl.erase normalizedObject }
      else
        { entry with objectAcl := entry.objectAcl.insert normalizedObject (privileges.erase privilege.asStr) }

/-- What authorization reads of an entry. -/
def checked (entry : AccountAclEntry) : Access.AccountAclEntry where
  acl name := name ∈ entry.acl
  objectAcl objectName := (entry.objectAcl.lookup objectName).map fun privileges name => name ∈ privileges

/-! The user of an entry never changes. -/

variable (entry : AccountAclEntry) (privilege : AccountPrivilege) (objectName : String)

@[simp] theorem new_userId (userId : UserId) (databaseId : String) : (new userId databaseId).userId = userId := rfl

@[simp] theorem appendPrivilege_userId : (entry.appendPrivilege privilege).userId = entry.userId := rfl

@[simp] theorem appendGrantOptionForPrivilege_userId :
    (entry.appendGrantOptionForPrivilege privilege).userId = entry.userId := rfl

@[simp] theorem revokePrivilege_userId : (entry.revokePrivilege privilege).userId = entry.userId := rfl

@[simp] theorem appendObjectPrivilege_userId :
    (entry.appendObjectPrivilege objectName privilege).userId = entry.userId := by
  simp only [appendObjectPrivilege]
  split <;> rfl

@[simp] theorem revokeObjectPrivilege_userId :
    (entry.revokeObjectPrivilege objectName privilege).userId = entry.userId := by
  simp only [revokeObjectPrivilege]
  split
  · rfl
  · split
    · rfl
    · split <;> rfl

end AccountAclEntry

structure AccountAclEntries where
  get : String → Option AccountAclEntry
  keyed : ∀ key entry, get key = some entry → normalizeAclUserKey entry.userId.val = key

def AccountAclEntries.effectiveAccountAclEntry (entries : AccountAclEntries) (userId : String) :
    Option AccountAclEntry :=
  entries.get (normalizeAclUserKey userId)

def AccountAclEntries.upsertAccountAclEntry (entries : AccountAclEntries) (entry : AccountAclEntry) :
    AccountAclEntries where
  get := Function.update entries.get (normalizeAclUserKey entry.userId.val) (some entry)
  keyed key other h := by
    by_cases hkey : key = normalizeAclUserKey entry.userId.val
    · rw [hkey, Function.update_self] at h
      cases h
      exact hkey.symm
    · rw [Function.update_of_ne hkey] at h
      exact entries.keyed key other h

/-! ## Plans -/

inductive AclMutationKind where
  | grant
  | revoke
  deriving DecidableEq, Repr

structure AclMutationPlan where
  kind : AclMutationKind
  grantee : String
  privilege : AccountPrivilege
  databaseName : Option String
  objectName : Option String
  withGrantOption : Bool
  deriving DecidableEq, Repr

def normalizeDatabase (value : String) : String :=
  if normalizeIdentifier value = "" then "main" else normalizeIdentifier value

/-- A qualified object name counts more than the database of the target. -/
def parseDatabaseAndObjectFromAclTarget (databaseHint : String) (targetDatabaseName targetObjectName : Option String) :
    String × Option String :=
  let databaseName := (targetDatabaseName.map normalizeDatabase).getD (normalizeDatabase databaseHint)
  let objectName := (targetObjectName.map normalizeIdentifier).filter (· ≠ "")
  match objectName.bind (splitOnce '.') with
  | some (databasePart, objectPart) =>
    if normalizeIdentifier objectPart = "" then (databaseName, objectName)
    else (normalizeDatabase databasePart, some (normalizeIdentifier objectPart))
  | none => (databaseName, objectName)

namespace AclMutationPlan

def target (queryDatabaseId : String) (plan : AclMutationPlan) : String × Option String :=
  parseDatabaseAndObjectFromAclTarget queryDatabaseId plan.databaseName plan.objectName

def database (queryDatabaseId : String) (plan : AclMutationPlan) : String := (plan.target queryDatabaseId).1

def appliedTo (queryDatabaseId : String) (plan : AclMutationPlan) (previous : Option AccountAclEntry) :
    AccountAclEntry :=
  let databaseName := plan.database queryDatabaseId
  let entry := previous.getD (.new ⟨plan.grantee⟩ databaseName)
  let entry := { entry with databaseId := databaseName }
  match plan.kind, (plan.target queryDatabaseId).2 with
  | .grant, some objectName => entry.appendObjectPrivilege objectName plan.privilege
  | .grant, none =>
    let entry := entry.appendPrivilege plan.privilege
    if plan.withGrantOption then entry.appendGrantOptionForPrivilege plan.privilege else entry
  | .revoke, some objectName => entry.revokeObjectPrivilege objectName plan.privilege
  | .revoke, none => entry.revokePrivilege plan.privilege

end AclMutationPlan

/-! ## The node -/

structure AclState where
  sessions : String → Option String
  catalogs : String → Option AccountAclEntries
  wal : String → List TransactionRecord

/-- The hashes of names, the encoding of an entry, and for each plan the time and the error of its append. -/
structure GrantEnv where
  databaseIdOf : String → Option String
  userIdOf : String → UserId
  serialize : AccountAclEntry → Bytes
  now : Nat → UInt64
  appendError : Nat → Option String

inductive AclResponse where
  | rejected (message : String)
  | applied (affectedRows : Nat)
  deriving DecidableEq, Repr

def accountAclWalPrefix : Bytes := utf8Bytes "distdb:security:acl:v1:\n"

namespace AclState

variable (env : GrantEnv)

def known (state : AclState) (key : String) : Bool := (state.catalogs key).isSome

def catalogKey (state : AclState) (databaseId : String) : Option String :=
  resolveCatalogKey env.databaseIdOf state.known databaseId

def resolveCatalogWalStreamForDatabase (state : AclState) (databaseId : String) : String :=
  match state.catalogKey env databaseId with
  | some key => key
  | none =>
    match state.catalogKey env "main" with
    | some key => key
    | none => (env.databaseIdOf "main").getD "main"

def aclChangeRecord (now : UInt64) (actor : UserId) (entry : AccountAclEntry) (log : List TransactionRecord) :
    TransactionRecord where
  id := nextTransactionId log
  groupid := none
  refid := latestTransactionId log
  timestampEpochMs := now
  actor := actor
  kind := .securityChange
  payload := some (accountAclWalPrefix ++ env.serialize entry)

def appendAccountAclChangeRecord (state : AclState) (i : Nat) (databaseHint actor : String) (entry : AccountAclEntry) :
    Except String AclState :=
  let walId := state.resolveCatalogWalStreamForDatabase env databaseHint
  let record := aclChangeRecord env (env.now i) (env.userIdOf actor) entry (state.wal walId)
  match appendRecords (fun _ _ => env.appendError i) (state.wal walId) [record] with
  | .ok log => .ok { state with wal := Function.update state.wal walId log }
  | .error err => .error s!"set password failed: wal append failed: {err}"

def applyAclMutationPlan (queryDatabaseId sessionUser : String) (i : Nat) (state : AclState) (plan : AclMutationPlan) :
    AclState × Option String :=
  let databaseName := plan.database queryDatabaseId
  match state.catalogKey env databaseName with
  | none => (state, some s!"database '{databaseName}' not found for ACL mutation")
  | some catalogKey =>
    let previous := (state.catalogs catalogKey).bind (·.effectiveAccountAclEntry plan.grantee)
    let entry := plan.appliedTo queryDatabaseId previous
    match state.appendAccountAclChangeRecord env i databaseName sessionUser entry with
    | .error err => (state, some s!"failed to persist ACL mutation to WAL: {err}")
    | .ok state =>
      match state.catalogs catalogKey with
      | none => (state, some s!"database '{databaseName}' catalog is unavailable")
      | some catalog =>
        ({ state with
          catalogs := Function.update state.catalogs catalogKey (some (catalog.upsertAccountAclEntry entry)) },
          none)

def applyAclMutationPlans (queryDatabaseId sessionUser : String) :
    Nat → AclState → List AclMutationPlan → AclState × AclResponse
  | i, state, [] => (state, .applied i)
  | i, state, plan :: plans =>
    match state.applyAclMutationPlan env queryDatabaseId sessionUser i plan with
    | (state, some message) => (state, .rejected message)
    | (state, none) => applyAclMutationPlans queryDatabaseId sessionUser (i + 1) state plans

/-- `apply_acl_mutation_requests`, given the plans of each statement. A statement without plans is not a GRANT or
REVOKE, and if there are only such there is no response. -/
def applyAclMutationRequests (state : AclState) (sessionId queryDatabaseId : String)
    (requests : List (List AclMutationPlan)) : AclState × Option AclResponse :=
  if requests.all (·.isEmpty) then (state, none)
  else if requests.any (·.isEmpty) then
    (state, some (.rejected "GRANT/REVOKE cannot be combined with non-ACL statements in the same request"))
  else
    match state.sessions sessionId with
    | none => (state, some (.rejected s!"invalid session '{sessionId}'"))
    | some sessionUser =>
      if toAsciiLowercase sessionUser ≠ "root" then
        (state, some (.rejected
          s!"permission denied for user '{sessionUser}': only root can execute GRANT/REVOKE"))
      else
        let applied := applyAclMutationPlans env queryDatabaseId sessionUser 0 state requests.flatten
        (applied.1, some applied.2)

end AclState

/-! ## One plan -/

namespace AclState

def entryOf (state : AclState) (key account : String) : Option AccountAclEntry :=
  (state.catalogs key).bind fun entries => entries.get account

/-- The database is unknown, or the log takes no record. -/
def Refuses (env : GrantEnv) (queryDatabaseId : String) (state : AclState) (i : Nat) (plan : AclMutationPlan) : Prop :=
  state.catalogKey env (plan.database queryDatabaseId) = none ∨ env.appendError i ≠ none

def Targets (env : GrantEnv) (queryDatabaseId : String) (state : AclState) (plan : AclMutationPlan)
    (key account : String) : Prop :=
  state.catalogKey env (plan.database queryDatabaseId) = some key ∧ normalizeAclUserKey plan.grantee = account

instance (env : GrantEnv) (queryDatabaseId : String) (state : AclState) (plan : AclMutationPlan)
    (key account : String) : Decidable (state.Targets env queryDatabaseId plan key account) :=
  inferInstanceAs (Decidable (_ ∧ _))

variable {env : GrantEnv} {queryDatabaseId sessionUser : String} {state : AclState} {i : Nat}
  {plan : AclMutationPlan} {plans : List AclMutationPlan}

theorem known_of_catalogKey {databaseId key : String} (h : state.catalogKey env databaseId = some key) :
    ∃ entries, state.catalogs key = some entries := by
  exact Option.isSome_iff_exists.mp (known_of_resolveCatalogKey h)

theorem userId_appliedTo (previous : Option AccountAclEntry) :
    (plan.appliedTo queryDatabaseId previous).userId = (previous.map (·.userId)).getD ⟨plan.grantee⟩ := by
  have hprevious : (previous.getD (.new ⟨plan.grantee⟩ (plan.database queryDatabaseId))).userId =
      (previous.map (·.userId)).getD ⟨plan.grantee⟩ := by cases previous <;> rfl
  rw [← hprevious]
  unfold AclMutationPlan.appliedTo
  split
  · simp
  · split <;> simp
  · simp
  · simp

theorem normalize_userId_appliedTo {entries : AccountAclEntries} :
    normalizeAclUserKey (plan.appliedTo queryDatabaseId (entries.effectiveAccountAclEntry plan.grantee)).userId.val =
      normalizeAclUserKey plan.grantee := by
  rw [userId_appliedTo]
  cases hentry : entries.effectiveAccountAclEntry plan.grantee with
  | none => rfl
  | some entry => exact entries.keyed _ entry hentry

theorem applyAclMutationPlan_of_refuses (sessionUser : String) (h : state.Refuses env queryDatabaseId i plan) :
    ∃ message, state.applyAclMutationPlan env queryDatabaseId sessionUser i plan = (state, some message) := by
  cases hkey : state.catalogKey env (plan.database queryDatabaseId) with
  | none =>
    simp only [applyAclMutationPlan, hkey]
    exact ⟨_, rfl⟩
  | some key =>
    obtain ⟨err, herr⟩ := Option.ne_none_iff_exists'.mp (h.resolve_left (by simp [hkey]))
    simp only [applyAclMutationPlan, hkey, appendAccountAclChangeRecord, appendRecords, herr]
    exact ⟨_, rfl⟩

structure Carries (env : GrantEnv) (queryDatabaseId : String) (plan : AclMutationPlan) (state after : AclState) :
    Prop where
  sessions : after.sessions = state.sessions
  known : after.known = state.known
  wal : ∃ key record, state.catalogKey env (plan.database queryDatabaseId) = some key ∧
    after.wal = Function.update state.wal key (state.wal key ++ [record])
  entryOf : ∀ key account, after.entryOf key account =
    if state.Targets env queryDatabaseId plan key account then
      some (plan.appliedTo queryDatabaseId (state.entryOf key account))
    else state.entryOf key account

theorem applyAclMutationPlan_of_not_refuses (sessionUser : String) (h : ¬state.Refuses env queryDatabaseId i plan) :
    ∃ after, state.applyAclMutationPlan env queryDatabaseId sessionUser i plan = (after, none) ∧
      Carries env queryDatabaseId plan state after := by
  obtain ⟨hknown, herr⟩ := not_or.mp h
  obtain ⟨key, hkey⟩ := Option.ne_none_iff_exists'.mp hknown
  obtain ⟨entries, hentries⟩ := known_of_catalogKey hkey
  have herr : env.appendError i = none := not_not.mp herr
  unfold applyAclMutationPlan
  simp only [hkey, hentries, Option.bind_some, appendAccountAclChangeRecord, appendRecords, herr,
    resolveCatalogWalStreamForDatabase]
  refine ⟨_, rfl, rfl, ?_, ⟨key, _, hkey, rfl⟩, fun other account => ?_⟩
  · funext other
    by_cases hother : other = key
    · subst hother
      simp [known, hentries]
    · simp [known, Function.update_of_ne hother]
  · by_cases hother : other = key
    · subst hother
      simp only [entryOf, Targets, hkey, true_and, Function.update_self, Option.bind_some, hentries,
        AccountAclEntries.upsertAccountAclEntry, normalize_userId_appliedTo]
      by_cases haccount : normalizeAclUserKey plan.grantee = account
      · subst haccount
        rw [if_pos rfl, Function.update_self]
        rfl
      · rw [if_neg haccount, Function.update_of_ne (Ne.symm haccount)]
    · have hnot : ¬state.Targets env queryDatabaseId plan other account := by
        rintro ⟨hkey', -⟩
        rw [hkey] at hkey'
        exact hother (Option.some.inj hkey').symm
      simp only [entryOf, if_neg hnot, Function.update_of_ne hother]

/-- The node as authorization sees it. -/
def node (state : AclState) : AclNode where
  sessions := state.sessions
  catalogs key := (state.catalogs key).map fun entries => ⟨fun account => (entries.get account).map (·.checked)⟩

/-- What was granted is found when a request of the account is checked. -/
theorem Carries.grants {after : AclState} {key : String} (h : Carries env queryDatabaseId plan state after)
    (hgrant : plan.kind = .grant) (hkey : state.catalogKey env (plan.database queryDatabaseId) = some key)
    (hname : ∀ name ∈ (plan.target queryDatabaseId).2, normalizeAclObjectName name ≠ "") :
    after.node.Grants plan.grantee plan.privilege (key, (plan.target queryDatabaseId).2) := by
  have hentry := h.entryOf key (normalizeAclUserKey plan.grantee)
  rw [if_pos ⟨hkey, rfl⟩] at hentry
  obtain ⟨entries, hentries, hget⟩ := Option.bind_eq_some_iff.mp hentry
  refine ⟨_, _, Option.map_eq_some_iff.mpr ⟨entries, hentries, rfl⟩, Option.map_eq_some_iff.mpr ⟨_, hget, rfl⟩, ?_⟩
  rw [hasPrivilegeForObject_iff, AclMutationPlan.appliedTo, hgrant]
  cases htarget : (plan.target queryDatabaseId).2 with
  | none =>
    refine .inl ?_
    dsimp only
    split <;> simp [AccountAclEntry.checked, AccountAclEntry.appendPrivilege,
      AccountAclEntry.appendGrantOptionForPrivilege]
  | some name =>
    have hne := hname name htarget
    refine .inr ⟨name, rfl, hne, ?_⟩
    simp [AccountAclEntry.checked, AccountAclEntry.appendObjectPrivilege, hne]

/-! ## All plans -/

theorem catalogKey_congr {after : AclState} (h : after.known = state.known) :
    after.catalogKey env = state.catalogKey env := by
  funext databaseId
  rw [catalogKey, catalogKey, h]

theorem wal_applyAclMutationPlans (env : GrantEnv) (queryDatabaseId sessionUser : String) (i : Nat) (state : AclState)
    (plans : List AclMutationPlan) (key : String) :
    state.wal key <+: (applyAclMutationPlans env queryDatabaseId sessionUser i state plans).1.wal key := by
  induction plans generalizing i state with
  | nil => exact List.prefix_rfl
  | cons plan plans ih =>
    rw [applyAclMutationPlans]
    by_cases hrefuses : state.Refuses env queryDatabaseId i plan
    · obtain ⟨message, happly⟩ := applyAclMutationPlan_of_refuses sessionUser hrefuses
      rw [happly]
    · obtain ⟨after, happly, hcarries⟩ := applyAclMutationPlan_of_not_refuses sessionUser hrefuses
      obtain ⟨logged, record, -, hwal⟩ := hcarries.wal
      rw [happly]
      refine List.IsPrefix.trans ?_ (ih (i + 1) after)
      rw [hwal]
      by_cases hkey : key = logged
      · rw [hkey, Function.update_self]
        exact List.prefix_append _ _
      · rw [Function.update_of_ne hkey]

theorem wal_applyAclMutationPlans_ne (sessionUser : String) (plans : List AclMutationPlan)
    (h : ¬state.Refuses env queryDatabaseId i plan) :
    (applyAclMutationPlans env queryDatabaseId sessionUser i state (plan :: plans)).1.wal ≠ state.wal := by
  obtain ⟨between, happly, hcarries⟩ := applyAclMutationPlan_of_not_refuses sessionUser h
  obtain ⟨key, record, -, hwal⟩ := hcarries.wal
  intro hsame
  have hadded := wal_applyAclMutationPlans env queryDatabaseId sessionUser (i + 1) between plans key
  rw [applyAclMutationPlans, happly] at hsame
  dsimp only at hsame
  rw [hsame, hwal, Function.update_self] at hadded
  have hlength := hadded.length_le
  rw [List.length_append, List.length_singleton] at hlength
  omega

def entryAfter (env : GrantEnv) (queryDatabaseId : String) (state : AclState) (plans : List AclMutationPlan)
    (key account : String) : Option AccountAclEntry :=
  (plans.filter fun plan => state.Targets env queryDatabaseId plan key account).foldl
    (fun entry plan => some (plan.appliedTo queryDatabaseId entry)) (state.entryOf key account)

/-- The plans are carried out on their entries, and nothing else changes. -/
structure CarriesAll (env : GrantEnv) (queryDatabaseId : String) (plans : List AclMutationPlan)
    (state after : AclState) : Prop where
  sessions : after.sessions = state.sessions
  known : after.known = state.known
  entryOf : ∀ key account, after.entryOf key account = state.entryAfter env queryDatabaseId plans key account
  wal : ∀ key, (∀ plan ∈ plans, state.catalogKey env (plan.database queryDatabaseId) ≠ some key) →
    after.wal key = state.wal key

theorem CarriesAll.cons {between after : AclState} (hplan : Carries env queryDatabaseId plan state between)
    (hplans : CarriesAll env queryDatabaseId plans between after) :
    CarriesAll env queryDatabaseId (plan :: plans) state after := by
  have hkeys : between.catalogKey env = state.catalogKey env := catalogKey_congr hplan.known
  refine ⟨hplans.sessions.trans hplan.sessions, hplans.known.trans hplan.known, fun key account => ?_,
    fun key hothers => ?_⟩
  · have htargets : ∀ other, between.Targets env queryDatabaseId other key account ↔
        state.Targets env queryDatabaseId other key account := by
      intro other
      rw [Targets, Targets, hkeys]
    rw [hplans.entryOf, entryAfter, entryAfter, hplan.entryOf, List.filter_cons]
    simp only [htargets]
    by_cases hmine : state.Targets env queryDatabaseId plan key account
    · simp only [hmine, decide_true, if_true, List.foldl_cons]
    · simp only [hmine, decide_false, if_false, Bool.false_eq_true]
  · obtain ⟨logged, record, hlogged, hwal⟩ := hplan.wal
    have hne : key ≠ logged := by
      rintro rfl
      exact hothers plan List.mem_cons_self hlogged
    have hrest : ∀ other ∈ plans, between.catalogKey env (other.database queryDatabaseId) ≠ some key := by
      rw [hkeys]
      exact fun other hother => hothers other (List.mem_cons_of_mem _ hother)
    rw [hplans.wal key hrest, hwal, Function.update_of_ne hne]

theorem applyAclMutationPlans_of_none_refused (sessionUser : String)
    (h : ∀ j plan, plans[j]? = some plan → ¬state.Refuses env queryDatabaseId (i + j) plan) :
    ∃ after, applyAclMutationPlans env queryDatabaseId sessionUser i state plans =
      (after, .applied (i + plans.length)) ∧ CarriesAll env queryDatabaseId plans state after := by
  induction plans generalizing i state with
  | nil => exact ⟨state, rfl, rfl, rfl, fun key account => rfl, fun key _ => rfl⟩
  | cons plan plans ih =>
    have hplan : ¬state.Refuses env queryDatabaseId i plan := h 0 plan rfl
    obtain ⟨between, happly, hcarries⟩ := applyAclMutationPlan_of_not_refuses sessionUser hplan
    have hnone : ∀ j plan, plans[j]? = some plan → ¬between.Refuses env queryDatabaseId (i + 1 + j) plan := by
      intro j other hother
      rw [Refuses, catalogKey_congr hcarries.known, Nat.add_assoc, Nat.add_comm 1 j]
      exact h (j + 1) other hother
    obtain ⟨after, hplans, hall⟩ := ih hnone
    refine ⟨after, ?_, hall.cons hcarries⟩
    rw [applyAclMutationPlans, happly, List.length_cons, Nat.add_comm plans.length, ← Nat.add_assoc]
    exact hplans

theorem applyAclMutationPlans_of_refused (sessionUser : String) {j : Nat} (hplan : plans[j]? = some plan)
    (h : state.Refuses env queryDatabaseId (i + j) plan) :
    ∃ message, (applyAclMutationPlans env queryDatabaseId sessionUser i state plans).2 = .rejected message := by
  induction plans generalizing i j state with
  | nil => simp at hplan
  | cons first plans ih =>
    rw [applyAclMutationPlans]
    by_cases hfirst : state.Refuses env queryDatabaseId i first
    · obtain ⟨message, happly⟩ := applyAclMutationPlan_of_refuses sessionUser hfirst
      rw [happly]
      exact ⟨message, rfl⟩
    · obtain ⟨after, happly, hcarries⟩ := applyAclMutationPlan_of_not_refuses sessionUser hfirst
      rw [happly]
      cases j with
      | zero =>
        cases hplan
        exact absurd h hfirst
      | succ j =>
        refine ih (j := j) hplan ?_
        rw [Refuses, catalogKey_congr hcarries.known, Nat.add_assoc, Nat.add_comm 1 j]
        exact h

end AclState

/-! ## All or nothing -/

open AclState

/-- A request that is rejected changes no entry and no record. One that is applied leaves of each account what its
plans make of it in order, each in the plan's own database, and changes nothing else. -/
def AllOrNothing (env : GrantEnv) (state : AclState) (sessionId queryDatabaseId : String)
    (requests : List (List AclMutationPlan)) : Prop :=
  match state.applyAclMutationRequests env sessionId queryDatabaseId requests with
  | (after, some (.rejected _)) => after.catalogs = state.catalogs ∧ after.wal = state.wal
  | (after, some (.applied _)) => CarriesAll env queryDatabaseId requests.flatten state after
  | (_, none) => True

/-- The request consists of GRANT and REVOKE statements, and the session is the one of root. -/
def ReachesPlans (state : AclState) (sessionId : String) (requests : List (List AclMutationPlan)) : Prop :=
  requests ≠ [] ∧ (∀ plans ∈ requests, plans ≠ []) ∧
    ∃ sessionUser, state.sessions sessionId = some sessionUser ∧ toAsciiLowercase sessionUser = "root"

variable {env : GrantEnv} {state : AclState} {sessionId queryDatabaseId : String}
  {requests : List (List AclMutationPlan)}

theorem applyAclMutationRequests_of_not_reaches (env : GrantEnv) (queryDatabaseId : String)
    (h : ¬ReachesPlans state sessionId requests) :
    ∃ response, state.applyAclMutationRequests env sessionId queryDatabaseId requests = (state, response) ∧
      ∀ affectedRows, response ≠ some (.applied affectedRows) := by
  unfold applyAclMutationRequests
  split
  · exact ⟨none, rfl, by simp⟩
  · rename_i hall
    split
    · exact ⟨_, rfl, by simp⟩
    · rename_i hany
      split
      · exact ⟨_, rfl, by simp⟩
      · rename_i sessionUser hsession
        split
        · exact ⟨_, rfl, by simp⟩
        · rename_i hroot
          refine absurd ⟨?_, ?_, sessionUser, hsession, not_not.mp hroot⟩ h
          · rintro rfl
            exact hall rfl
          · rintro plans hplans rfl
            exact hany (List.any_eq_true.mpr ⟨[], hplans, rfl⟩)

theorem applyAclMutationRequests_of_reaches (env : GrantEnv) (queryDatabaseId : String)
    (h : ReachesPlans state sessionId requests) :
    ∃ sessionUser, state.applyAclMutationRequests env sessionId queryDatabaseId requests =
      Prod.map id some (applyAclMutationPlans env queryDatabaseId sessionUser 0 state requests.flatten) := by
  obtain ⟨hne, hplans, sessionUser, hsession, hroot⟩ := h
  have hany : requests.any (·.isEmpty) = false := by
    rw [List.any_eq_false]
    intro plans hmem
    simpa using hplans plans hmem
  have hall : requests.all (·.isEmpty) = false := by
    obtain ⟨plans, hmem⟩ := List.exists_mem_of_ne_nil _ hne
    rw [List.all_eq_false]
    exact ⟨plans, hmem, by simpa using hplans plans hmem⟩
  refine ⟨sessionUser, ?_⟩
  simp [applyAclMutationRequests, hany, hall, hsession, hroot, Prod.map]

/-- A request is carried out as a whole or not at all exactly if its first plan is refused wherever one is. -/
theorem grants_all_or_nothing_iff (env : GrantEnv) (state : AclState) (sessionId queryDatabaseId : String)
    (requests : List (List AclMutationPlan)) :
    AllOrNothing env state sessionId queryDatabaseId requests ↔
      (ReachesPlans state sessionId requests → ∀ i plan, requests.flatten[i]? = some plan →
        state.Refuses env queryDatabaseId i plan →
        ∃ first, requests.flatten[0]? = some first ∧ state.Refuses env queryDatabaseId 0 first) := by
  by_cases hreaches : ReachesPlans state sessionId requests
  · obtain ⟨sessionUser, hresult⟩ := applyAclMutationRequests_of_reaches env queryDatabaseId hreaches
    have hresult : AllOrNothing env state sessionId queryDatabaseId requests ↔
        match applyAclMutationPlans env queryDatabaseId sessionUser 0 state requests.flatten with
        | (after, .rejected _) => after.catalogs = state.catalogs ∧ after.wal = state.wal
        | (after, .applied _) => CarriesAll env queryDatabaseId requests.flatten state after := by
      rw [AllOrNothing, hresult]
      rcases applyAclMutationPlans env queryDatabaseId sessionUser 0 state requests.flatten with ⟨after, _ | _⟩ <;> rfl
    rw [hresult, forall_prop_of_true hreaches]
    generalize requests.flatten = plans
    by_cases hrefused : ∃ i plan, plans[i]? = some plan ∧ state.Refuses env queryDatabaseId i plan
    · obtain ⟨i, refused, hrefused, hrefuses⟩ := hrefused
      cases plans with
      | nil => simp at hrefused
      | cons first plans =>
        by_cases hfirst : state.Refuses env queryDatabaseId 0 first
        · obtain ⟨message, happly⟩ := applyAclMutationPlan_of_refuses sessionUser hfirst
          rw [applyAclMutationPlans, happly]
          exact iff_of_true ⟨rfl, rfl⟩ fun _ _ _ _ => ⟨first, rfl, hfirst⟩
        · -- the first plan has left a record by the time the other one is refused
          refine iff_of_false ?_ fun h => ?_
          · obtain ⟨message, hrejected⟩ :=
              applyAclMutationPlans_of_refused (i := 0) sessionUser hrefused (by rwa [Nat.zero_add])
            have hwal := wal_applyAclMutationPlans_ne sessionUser plans hfirst
            generalize applyAclMutationPlans env queryDatabaseId sessionUser 0 state (first :: plans) = result
              at hrejected hwal
            obtain ⟨after, response⟩ := result
            cases hrejected
            exact fun h => hwal h.2
          · obtain ⟨other, hother, hrefuses⟩ := h i refused hrefused hrefuses
            cases hother
            exact hfirst hrefuses
    · have hnone : ∀ j plan, plans[j]? = some plan → ¬state.Refuses env queryDatabaseId (0 + j) plan := by
        intro j plan hplan hrefuses
        rw [Nat.zero_add] at hrefuses
        exact hrefused ⟨j, plan, hplan, hrefuses⟩
      obtain ⟨after, happly, hall⟩ := applyAclMutationPlans_of_none_refused sessionUser hnone
      rw [happly]
      exact iff_of_true hall fun i plan hplan hrefuses => absurd ⟨i, plan, hplan, hrefuses⟩ hrefused
  · obtain ⟨response, hresult, hnot⟩ := applyAclMutationRequests_of_not_reaches env queryDatabaseId hreaches
    refine iff_of_true ?_ fun h => absurd h hreaches
    rw [AllOrNothing, hresult]
    rcases response with _ | _ | affectedRows
    · trivial
    · exact ⟨rfl, rfl⟩
    · exact absurd rfl (hnot affectedRows)

/-! ## A request whose second plan is refused -/

def grantSelect (databaseName : String) : AclMutationPlan :=
  ⟨.grant, "ann", .select, some databaseName, none, false⟩

def freshNode : AclState where
  sessions sessionId := if sessionId = "s1" then some "root" else none
  catalogs key := if key = "main" then some ⟨fun _ => none, by simp⟩ else none
  wal _ := []

def plainEnv : GrantEnv where
  databaseIdOf _ := none
  userIdOf userName := ⟨userName⟩
  serialize _ := []
  now _ := 0
  appendError _ := none

/-- The grant in the database that is there stays, with its record, although the request is rejected. -/
theorem grant_left_by_rejected_request :
    ¬AllOrNothing plainEnv freshNode "s1" "main" [[grantSelect "main", grantSelect "other"]] := by
  have hresponse : (freshNode.applyAclMutationRequests plainEnv "s1" "main"
      [[grantSelect "main", grantSelect "other"]]).2 =
        some (.rejected "database 'other' not found for ACL mutation") := by decide +kernel
  have hrecords : ((freshNode.applyAclMutationRequests plainEnv "s1" "main"
      [[grantSelect "main", grantSelect "other"]]).1.wal "main").length = 1 := by decide +kernel
  rw [AllOrNothing]
  generalize freshNode.applyAclMutationRequests plainEnv "s1" "main" _ = result at hresponse hrecords
  obtain ⟨after, response⟩ := result
  cases hresponse
  rintro ⟨-, hwal⟩
  rw [hwal] at hrecords
  cases hrecords

end DistDb.Grants
