import DistDb.Isolation.Lemmas

/-! # Theorems about conflict detection -/

namespace DistDb.Isolation
open Lib Sql Session Wal Execution

namespace Node

variable {names : Names} {parse : Parser} {catalogs : Finmap fun _ : String => DatabaseCatalog}
  {before after : List Append} {epoch : UInt64}

theorem highWaterKept_run (names : Names) (catalogs : Finmap fun _ : String => DatabaseCatalog)
    (events : List Append) : (runFrom (step names) ⟨catalogs, ∅⟩ events).HighWaterKept :=
  runFrom_invariant (fun _ event h => h.step event) (fun _ _ hlookup => by simp at hlookup) events

/-- The record is visible now, and was not when the transaction began. -/
def BecameVisible (names : Names) (walId : String) (begun node : Node) (record : TransactionRecord) : Prop :=
  (record ∈ node.records names walId ∧ Visible (node.records names walId) record) ∧
    ¬ (record ∈ begun.records names walId ∧ Visible (begun.records names walId) record)

/-- When all that is appended or committed after `BEGIN` carries a later timestamp, what became visible
since is late. -/
theorem late_of_becameVisible
    (hafter : Along (step names) (AppendsLater names epoch) (runFrom (step names) ⟨catalogs, ∅⟩ before) after)
    {walId : String} {record : TransactionRecord} (hdata : isDataWrite record = true)
    (hvisible : BecameVisible names walId (runFrom (step names) ⟨catalogs, ∅⟩ before)
      (runFrom (step names) (runFrom (step names) ⟨catalogs, ∅⟩ before) after) record) :
    epoch < record.timestampEpochMs :=
  (lateUnlessVisible_run hafter walId record hvisible.1.1 hdata hvisible.1.2).resolve_left hvisible.2

/-! ## First committer wins -/

/-- When all that is appended or committed after `BEGIN` carries a later timestamp, and staged queries
name their tables as the catalog does, a write that became visible in a table they write makes the
commit fail. -/
theorem run_firstCommitterWins {σ : Type} {input : CommitInput σ} (before after : List Append)
    (hbegun : 0 < input.snapshotEpochMs)
    (hafter : Along (step names) (AppendsLater names (UInt64.ofNat input.snapshotEpochMs))
      (runFrom (step names) ⟨catalogs, ∅⟩ before) after)
    (hspelled : ∀ table ∈ touchedTables parse input.stagedQueries, normalizeIdentifier table.2 = table.2) :
    let begun := runFrom (step names) ⟨catalogs, ∅⟩ before
    let node := runFrom (step names) begun after
    ∀ walId ∈ writtenWalIds names parse node input.stagedQueries, ∀ record,
      isDataWrite record = true → BecameVisible names walId begun node record →
      ∃ message, node.detectWriteWriteConflict names parse (UInt64.ofNat input.snapshotEpochMs)
          input.stagedQueries = some message ∧
        node.commitConflict names parse input = some message := by
  intro begun node walId hwal record hdata hvisible
  obtain ⟨table, htable, hstream⟩ := List.mem_filterMap.mp hwal
  obtain ⟨catalog, hcatalog, hstream⟩ := Option.bind_eq_some_iff.mp hstream
  rw [hspelled table htable] at hstream
  have hkept : node.HighWaterKept := by
    have hrun := highWaterKept_run names catalogs (before ++ after)
    rwa [runFrom_append] at hrun
  have hlate := hasLateWrite_of_record hkept hcatalog hstream hvisible.1.1 hdata
    (late_of_becameVisible hafter hdata hvisible)
  obtain ⟨message, hmessage⟩ := Option.isSome_iff_exists.mp
    (detectWriteWriteConflict_isSome.mpr ⟨table, htable, hlate⟩)
  refine ⟨message, hmessage, ?_⟩
  rw [commitConflict, if_pos hbegun]
  simp only [hmessage, Option.some_or]

def plainNames : Names := ⟨fun _ => none, id⟩

def shopCatalogs : Finmap fun _ : String => DatabaseCatalog :=
  Finmap.singleton "shop" ⟨[⟨"orders", "orders", "shop:orders"⟩, ⟨"items", "items", "shop:items"⟩]⟩

def insertsInto (name : String) : Parser := fun _ => some [⟨.insert, some name⟩]

def recordAt (timestampEpochMs : UInt64) : TransactionRecord :=
  ⟨⟨1⟩, none, none, timestampEpochMs, ⟨"node"⟩, .insert, none⟩

def insertAt (timestampEpochMs : UInt64) : Append := ⟨"shop:orders", [recordAt timestampEpochMs], true⟩

def stagedInsert : CommitInput Unit := ⟨"alice", [⟨"shop", "insert"⟩], 100, none, none⟩

def shop : Node := runFrom (step plainNames) ⟨shopCatalogs, ∅⟩ []

def afterAppend (event : Append) : Node := runFrom (step plainNames) shop [event]

instance (names : Names) (walId : String) (begun node : Node) (record : TransactionRecord) :
    Decidable (BecameVisible names walId begun node record) :=
  inferInstanceAs (Decidable (_ ∧ ¬ _))

theorem lateInsert_firstCommitterWins :
    ∃ message, (afterAppend (insertAt 200)).detectWriteWriteConflict plainNames (insertsInto "orders")
        (UInt64.ofNat stagedInsert.snapshotEpochMs) stagedInsert.stagedQueries = some message ∧
      (afterAppend (insertAt 200)).commitConflict plainNames (insertsInto "orders") stagedInsert = some message := by
  have hafter : Along (step plainNames) (AppendsLater plainNames (UInt64.ofNat stagedInsert.snapshotEpochMs))
      shop [insertAt 200] := by
    refine ⟨⟨?_, ?_⟩, trivial⟩ <;> decide +kernel
  have hwritten : "shop:orders" ∈ writtenWalIds plainNames (insertsInto "orders") (afterAppend (insertAt 200))
      stagedInsert.stagedQueries := by decide +kernel
  have hvisible : BecameVisible plainNames "shop:orders" shop (afterAppend (insertAt 200)) (recordAt 200) := by
    decide +kernel
  exact run_firstCommitterWins [] [insertAt 200] (by decide) hafter (by decide +kernel) "shop:orders" hwritten
    (recordAt 200) (by decide) hvisible

/-- An import that carries an earlier tick makes a row visible after `BEGIN` and goes unnoticed; so does
any write when the staged query quotes the table's name. -/
theorem earlyImport_unnoticed :
    BecameVisible plainNames "shop:orders" shop (afterAppend (insertAt 50)) (recordAt 50) ∧
    (afterAppend (insertAt 50)).commitConflict plainNames (insertsInto "orders") stagedInsert = none ∧
    "shop:orders" ∈ writtenWalIds plainNames (insertsInto "`orders`") (afterAppend (insertAt 200))
      stagedInsert.stagedQueries ∧
    (afterAppend (insertAt 200)).commitConflict plainNames (insertsInto "`orders`") stagedInsert = none := by
  decide +kernel

/-! ## Read tracking -/

theorem mem_observations {σ : Type} {settings : Settings} {app : ServerApp σ} {sessionId : String}
    {query : DataQuery} {plan : SelectReadPlan} (hplan : settings.selectPlan query = some plan)
    {observation : ReadObservation} :
    observation ∈ holdings (app.recordSimpleReadObservation settings sessionId query).txReadObservationsBySession
        sessionId ↔
      observation ∈ holdings app.txReadObservationsBySession sessionId ∨
        plan.tableId ≠ "" ∧ plan.joins = [] ∧ observation = ⟨query.databaseId, plan.tableId⟩ := by
  simp only [ServerApp.recordSimpleReadObservation, hplan]
  split
  · rename_i hskip
    constructor
    · exact .inl
    · rintro (hold | ⟨hne, hjoins, -⟩)
      · exact hold
      · exact absurd hskip (not_or.mpr ⟨hne, not_not.mpr hjoins⟩)
  · rename_i hrecord
    rw [not_or, not_not] at hrecord
    rw [holdings_insert]
    split
    · rename_i hmem
      constructor
      · exact .inl
      · rintro (hold | ⟨-, -, rfl⟩)
        · exact hold
        · exact hmem
    · rw [List.mem_append, List.mem_singleton]
      exact or_congr_right ⟨fun heq => ⟨hrecord.1, hrecord.2, heq⟩, fun h => h.2.2⟩

/-- The session has read the table in its transaction. -/
def Observed {σ : Type} (app : ServerApp σ) (sessionId databaseId t : String) : Prop :=
  ⟨databaseId, t⟩ ∈ holdings app.txReadObservationsBySession sessionId

instance {σ : Type} (app : ServerApp σ) (sessionId databaseId t : String) :
    Decidable (Observed app sessionId databaseId t) :=
  inferInstanceAs (Decidable (_ ∈ holdings _ _))

/-- A read covers the tables it reads exactly when each of them was covered before or is the plan's own
table and the plan has no joins; and when all that is appended or committed after `BEGIN` carries a
later timestamp, a write that became visible in a covered table makes the commit fail. -/
theorem read_tracked_iff {σ : Type} (settings : Settings) (app : ServerApp σ) (env : Env σ) (sessionId : String)
    (query : DataQuery) {plan : SelectReadPlan} {rows : ℕ}
    (hsnapshot : (app.txSnapshotBySession.lookup sessionId).isSome = true)
    (hread : env.transactionalRead query = .ok rows) (hplan : settings.selectPlan query = some plan)
    (tables : List String) (view : String → Option SelectReadPlan) :
    let app' := (app.executeTransactionalRead settings env sessionId query).1
    ((∀ t, plan.Reads tables view t → Observed app' sessionId query.databaseId t) ↔
      ∀ t, plan.Reads tables view t → Observed app sessionId query.databaseId t ∨
        t = plan.tableId ∧ plan.tableId ≠ "" ∧ plan.joins = []) ∧
    ∀ (names : Names) (parse : Parser) (catalogs : Finmap fun _ : String => DatabaseCatalog)
      (before after : List Append) (stagedQueries : List DataQuery),
      let input := app'.commitInput sessionId stagedQueries
      let begun := runFrom (step names) ⟨catalogs, ∅⟩ before
      let node := runFrom (step names) begun after
      0 < input.snapshotEpochMs →
      Along (step names) (AppendsLater names (UInt64.ofNat input.snapshotEpochMs)) begun after →
      ∀ t catalog walId record, Observed app' sessionId query.databaseId t →
        node.catalog names query.databaseId = some catalog → catalog.entityWalStreamId t = some walId →
        isDataWrite record = true → BecameVisible names walId begun node record →
        (node.detectPredicateReadConflicts names input.observations
            (UInt64.ofNat input.snapshotEpochMs)).isSome = true ∧
          (node.commitConflict names parse input).isSome = true := by
  have hexecuted : (app.executeTransactionalRead settings env sessionId query).1 =
      app.recordSimpleReadObservation settings sessionId query := by
    rw [ServerApp.executeTransactionalRead, if_neg (by simpa using Option.isSome_iff_ne_none.mp hsnapshot), hread]
  have hobserved : ∀ t, Observed (app.recordSimpleReadObservation settings sessionId query) sessionId
      query.databaseId t ↔ Observed app sessionId query.databaseId t ∨
        t = plan.tableId ∧ plan.tableId ≠ "" ∧ plan.joins = [] := by
    intro t
    rw [Observed, mem_observations hplan, Observed]
    refine or_congr_right ⟨?_, ?_⟩
    · rintro ⟨hne, hjoins, heq⟩
      exact ⟨congrArg ReadObservation.tableId heq, hne, hjoins⟩
    · rintro ⟨rfl, hne, hjoins⟩
      exact ⟨hne, hjoins, rfl⟩
  simp only [hexecuted]
  refine ⟨forall₂_congr fun t _ => hobserved t, ?_⟩
  intro names parse catalogs before after stagedQueries hbegun hafter t catalog walId record ht hcatalog
    hstream hdata hvisible
  have hkept : (runFrom (step names) (runFrom (step names) ⟨catalogs, ∅⟩ before) after).HighWaterKept := by
    have hrun := highWaterKept_run names catalogs (before ++ after)
    rwa [runFrom_append] at hrun
  have hlate := hasLateWrite_of_record hkept hcatalog hstream hvisible.1.1 hdata
    (late_of_becameVisible hafter hdata hvisible)
  obtain ⟨observations, hlookup, hmem⟩ := mem_holdings.mp ht
  have hdetected := detectPredicateReadConflicts_isSome.mpr ⟨_, hmem, hlate⟩
  rw [ServerApp.commitInput] at hdetected hbegun ⊢
  simp only [hlookup, commitConflict, if_pos hbegun, Option.isSome_or, Bool.or_eq_true]
  exact ⟨hdetected, .inr hdetected⟩

def readSettings (plan : SelectReadPlan) : Settings := ⟨fun _ => none, fun _ => some plan, 0, 0⟩

def readEnv : Env Unit where
  knownSession := true
  epochNanos := 100
  database := ()
  seedSandboxWal := .ok ()
  authorization := none
  execute := fun _ => .ok 0
  transactionalRead := fun _ => .ok 1
  commitStagedQueries := fun _ => ⟨0, .ok 0⟩

def aliceBegun : ServerApp Unit :=
  (ServerApp.new.beginTransaction readEnv "alice" ⟨"shop", "BEGIN"⟩ false).1

def selectQuery : DataQuery := ⟨"shop", "select"⟩

def afterRead (plan : SelectReadPlan) : ServerApp Unit :=
  (aliceBegun.executeTransactionalRead (readSettings plan) readEnv "alice" selectQuery).1

def shopTables : List String := ["orders", "items"]

theorem plainRead_tracked :
    (aliceBegun.txSnapshotBySession.lookup "alice").isSome = true ∧
    ∀ t, (SelectReadPlan.mk "orders" [] [] []).Reads shopTables (fun _ => none) t →
      Observed (afterRead (.mk "orders" [] [] [])) "alice" "shop" t := by
  have hsnapshot : (aliceBegun.txSnapshotBySession.lookup "alice").isSome = true := by decide +kernel
  have h := (read_tracked_iff (readSettings (.mk "orders" [] [] [])) aliceBegun readEnv "alice" selectQuery
    hsnapshot rfl rfl shopTables (fun _ => none)).1
  refine ⟨hsnapshot, h.mpr fun t hread => .inr ?_⟩
  cases hread with
  | table hname _ =>
    simp only [SelectReadPlan.relations, SelectReadPlan.tableId, SelectReadPlan.joins,
      List.mem_singleton] at hname
    exact ⟨hname, by decide, rfl⟩
  | view _ hview _ => cases hview
  | cte hcte _ => cases hcte
  | subquery hsub _ => cases hsub

/-- A join reads both of its tables and leaves no observation, so a late write to one of them goes
unnoticed at commit. -/
theorem joinRead_untracked :
    (SelectReadPlan.mk "items" [] ["orders"] []).Reads shopTables (fun _ => none) "orders" ∧
      ¬ Observed (afterRead (.mk "items" [] ["orders"] [])) "alice" "shop" "orders" ∧
      BecameVisible plainNames "shop:orders" shop (afterAppend (insertAt 200)) (recordAt 200) ∧
      (afterAppend (insertAt 200)).commitConflict plainNames (insertsInto "items")
        ((afterRead (.mk "items" [] ["orders"] [])).commitInput "alice" []) = none := by
  refine ⟨.table (by decide) (by decide), ?_, ?_, ?_⟩ <;> decide +kernel

end Node

end DistDb.Isolation
