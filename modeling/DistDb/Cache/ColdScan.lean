import DistDb.Cache.DirectScan
import DistDb.Execution.LimitedScan

/-! # Equality lookups in one pass over a stream's file

The records of a group wait until its commit marker comes; an abort marker drops what waits and takes back the rows
that were applied. So records are not always applied in the order of the stream. -/

namespace DistDb.Cache
open Lib Wal Execution Mutation CachedTable

structure ColdScan where
  groups : TerminalGroups
  pending : UInt64 → List TransactionRecord
  applied : UInt64 → List UInt64
  rows : LiveRowState

namespace ColdScan

variable (env : CacheEnv) (filters : EqualityFilters)

def start : ColdScan := ⟨⟨∅, ∅⟩, fun _ => [], fun _ => [], Replay.empty⟩

def applyVisible (groupId : Option UInt64) (scan : ColdScan) (record : TransactionRecord) : ColdScan :=
  match record.kind with
  | .insert | .update =>
    match record.payload.bind (decodeMatchingRow env filters) with
    | none => scan
    | some row =>
      { scan with
        rows := scan.rows.put record.id.val row
        applied := match groupId with
          | some g => Function.update scan.applied g (scan.applied g ++ [record.id.val])
          | none => scan.applied }
  | .delete =>
    match record.refid with
    | some refid => { scan with rows := scan.rows.del refid.val }
    | none => scan
  | _ => scan

def commit (scan : ColdScan) (g : UInt64) : ColdScan :=
  let committed : ColdScan :=
    { scan with
      groups := { scan.groups with committed := insert g scan.groups.committed }
      pending := Function.update scan.pending g [] }
  if g ∈ scan.groups.aborted then committed
  else (scan.pending g).foldl (applyVisible env filters (some g)) committed

def abort (scan : ColdScan) (g : UInt64) : ColdScan where
  groups := { scan.groups with aborted := insert g scan.groups.aborted }
  pending := Function.update scan.pending g []
  applied := Function.update scan.applied g []
  rows := (scan.applied g).foldl Replay.del scan.rows

def stage (scan : ColdScan) (g : UInt64) (record : TransactionRecord) : ColdScan :=
  { scan with pending := Function.update scan.pending g (scan.pending g ++ [record]) }

def step (scan : ColdScan) (record : TransactionRecord) : ColdScan :=
  match record.kind, record.groupid with
  | .writeCommit, none => scan
  | .writeCommit, some g => scan.commit env filters g.val
  | .writeAbort, none => scan
  | .writeAbort, some g => scan.abort g.val
  | _, none => scan.applyVisible env filters none record
  | _, some g =>
    if g.val ∈ scan.groups.aborted then scan
    else if g.val ∈ scan.groups.committed then scan.applyVisible env filters (some g.val) record
    else scan.stage g.val record

end ColdScan

def coldScanRows (env : CacheEnv) (filters : EqualityFilters) (records : List TransactionRecord) : List LiveRow :=
  (records.foldl (ColdScan.step env filters) .start).rows.finish

/-! ## The order of application -/

def OfGroup (g : TransactionId) (record : TransactionRecord) : Prop :=
  record.groupid = some g ∧ ¬ EndsGroup record

instance (g : TransactionId) (record : TransactionRecord) : Decidable (OfGroup g record) :=
  inferInstanceAs (Decidable (_ ∧ _))

/-- The records that are applied when the scan has read `before` and comes to a record: the record itself if it is
of no group or of a committed one, and the group's records at its first commit. -/
def released (before : List TransactionRecord) (record : TransactionRecord) : List TransactionRecord :=
  match record.kind, record.groupid with
  | .writeCommit, none => []
  | .writeCommit, some g =>
    if g.val ∈ (terminalGroups before).aborted ∨ g.val ∈ (terminalGroups before).committed then []
    else before.filter (OfGroup g)
  | .writeAbort, _ => []
  | _, none => [record]
  | _, some g =>
    if g.val ∉ (terminalGroups before).aborted ∧ g.val ∈ (terminalGroups before).committed then [record] else []

def applicationOrderFrom (before : List TransactionRecord) : List TransactionRecord → List TransactionRecord
  | [] => []
  | record :: records => released before record ++ applicationOrderFrom (before ++ [record]) records

def applicationOrder (records : List TransactionRecord) : List TransactionRecord := applicationOrderFrom [] records

variable {env : CacheEnv} {filters : EqualityFilters} {records order : List TransactionRecord}
  {record r d : TransactionRecord} {scan : ColdScan} {aborted : Finset UInt64}

theorem applicationOrderFrom_concat (before : List TransactionRecord) :
    applicationOrderFrom before (records ++ [record]) =
      applicationOrderFrom before records ++ released (before ++ records) record := by
  induction records generalizing before with
  | nil => simp [applicationOrderFrom]
  | cons first records ih =>
    rw [List.cons_append, applicationOrderFrom, ih, applicationOrderFrom, List.append_assoc, List.append_assoc]
    rfl

theorem applicationOrder_concat : applicationOrder (records ++ [record]) =
    applicationOrder records ++ released records record :=
  applicationOrderFrom_concat []

theorem terminalGroups_concat : terminalGroups (records ++ [record]) = (terminalGroups records).note record := by
  rw [terminalGroups, List.foldl_concat]
  rfl

/-! ## What a record does once it is applied -/

def coldEvent (env : CacheEnv) (filters : EqualityFilters) (record : TransactionRecord) : LogEvent UInt64 RowMap :=
  match record.kind with
  | .insert | .update =>
    match record.payload.bind (decodeMatchingRow env filters) with
    | some row => .put record.id.val row
    | none => .skip
  | .delete =>
    match record.refid with
    | some refid => .del refid.val
    | none => .skip
  | _ => .skip

variable {row : RowMap}

theorem decodeMatchingRow_eq_some {payload : Bytes} : decodeMatchingRow env filters payload = some row ↔
      decodeRowPayload env.write.schema payload = .ok row ∧ rowMatchesEqualityFilters env filters row = true := by
  rw [decodeMatchingRow_eq]
  cases decodeRowPayload env.write.schema payload with
  | error e => simp
  | ok row' =>
    simp only [Option.ite_none_right_eq_some, Option.some.injEq, Except.ok.injEq]
    constructor
    · rintro ⟨hmatch, rfl⟩
      exact ⟨rfl, hmatch⟩
    · rintro ⟨rfl, hmatch⟩
      exact ⟨hmatch, rfl⟩

variable {id : UInt64}

theorem coldEvent_eq_put : coldEvent env filters record = .put id row ↔
    record.id.val = id ∧ HoldsRow env.write.schema record row ∧ rowMatchesEqualityFilters env filters row = true := by
  have hpayload : record.payload.bind (decodeMatchingRow env filters) = some row ↔
      (∃ payload, record.payload = some payload ∧ decodeRowPayload env.write.schema payload = .ok row) ∧
        rowMatchesEqualityFilters env filters row = true := by
    simp only [Option.bind_eq_some_iff, decodeMatchingRow_eq_some]
    constructor
    · rintro ⟨payload, hsome, hdecode, hmatch⟩
      exact ⟨⟨payload, hsome, hdecode⟩, hmatch⟩
    · rintro ⟨⟨payload, hsome, hdecode⟩, hmatch⟩
      exact ⟨payload, hsome, hdecode, hmatch⟩
  unfold coldEvent HoldsRow
  cases hkind : record.kind with
  | insert | update =>
    simp only [reduceCtorEq, or_false, or_true, true_and]
    rw [← hpayload]
    cases record.payload.bind (decodeMatchingRow env filters) <;> simp
  | delete =>
    simp only [reduceCtorEq, or_self, false_and, and_false, iff_false]
    cases record.refid <;> simp
  | _ => simp

theorem coldEvent_eq_del :
    coldEvent env filters record = .del id ↔ record.kind = .delete ∧ record.refid = some ⟨id⟩ := by
  unfold coldEvent
  cases hkind : record.kind with
  | insert | update =>
    simp only [reduceCtorEq, false_and, iff_false]
    cases record.payload.bind (decodeMatchingRow env filters) <;> simp
  | delete =>
    cases record.refid with
    | none => simp
    | some refid =>
      simp only [LogEvent.del.injEq, Option.some.injEq, true_and]
      exact ⟨fun h => by rw [← h], fun h => by rw [h]⟩
  | _ => simp

theorem id_eq_of_coldEvent (h : coldEvent env filters record = .put id row) : record.id = ⟨id⟩ :=
  congrArg TransactionId.mk (coldEvent_eq_put.mp h).1

namespace ColdScan

@[simp] theorem applyVisible_groups (groupId : Option UInt64) :
    (scan.applyVisible env filters groupId record).groups = scan.groups := by
  unfold applyVisible
  split <;> first | rfl | (split <;> rfl)

@[simp] theorem applyVisible_pending (groupId : Option UInt64) :
    (scan.applyVisible env filters groupId record).pending = scan.pending := by
  unfold applyVisible
  split <;> first | rfl | (split <;> rfl)

theorem applyVisible_rows (groupId : Option UInt64) :
    (scan.applyVisible env filters groupId record).rows = scan.rows.apply (coldEvent env filters record) := by
  unfold applyVisible coldEvent
  cases record.kind with
  | insert | update =>
    dsimp only
    cases record.payload.bind (decodeMatchingRow env filters) <;> rfl
  | delete =>
    dsimp only
    cases record.refid <;> rfl
  | _ => rfl

theorem mem_applyVisible_applied {groupId : Option UInt64} {g id : UInt64} :
    id ∈ (scan.applyVisible env filters groupId record).applied g ↔
      id ∈ scan.applied g ∨ groupId = some g ∧ ∃ row, coldEvent env filters record = .put id row := by
  unfold applyVisible coldEvent
  cases record.kind with
  | insert | update =>
    dsimp only
    cases record.payload.bind (decodeMatchingRow env filters) with
    | none => simp
    | some row =>
      cases groupId with
      | none => simp
      | some g' =>
        by_cases hg : g = g'
        · subst hg
          simp [eq_comm]
        · simp [Function.update_of_ne hg, Ne.symm hg]
  | delete =>
    dsimp only
    cases record.refid <;> simp
  | _ => simp

end ColdScan

/-! ## The rows that are held -/

/-- The record of a row was applied, its group is not aborted, and no delete of it was applied after it. -/
def Kept (env : CacheEnv) (filters : EqualityFilters) (order : List TransactionRecord) (aborted : Finset UInt64)
    (id : UInt64) (row : RowMap) : Prop :=
  ∃ pre r post, order = pre ++ r :: post ∧ coldEvent env filters r = .put id row ∧
    (∀ g ∈ r.groupid, g.val ∉ aborted) ∧ ∀ d ∈ post, coldEvent env filters d ≠ .del id

theorem kept_concat_iff : Kept env filters (order ++ [record]) aborted id row ↔
    (coldEvent env filters record = .put id row ∧ ∀ g ∈ record.groupid, g.val ∉ aborted) ∨
      Kept env filters order aborted id row ∧ coldEvent env filters record ≠ .del id := by
  constructor
  · rintro ⟨pre, r, post, heq, hput, hgroup, hdel⟩
    rcases concat_eq_append_cons_iff.mp heq with ⟨-, -, rfl⟩ | ⟨rest, rfl, horder⟩
    · exact .inl ⟨hput, hgroup⟩
    · exact .inr ⟨⟨pre, r, rest, horder, hput, hgroup, fun d hd => hdel d (List.mem_append_left _ hd)⟩,
        hdel record (by simp)⟩
  · rintro (⟨hput, hgroup⟩ | ⟨⟨pre, r, post, rfl, hput, hgroup, hdel⟩, hlast⟩)
    · exact ⟨order, record, [], rfl, hput, hgroup, fun _ hd => absurd hd List.not_mem_nil⟩
    · refine ⟨pre, r, post ++ [record], by simp, hput, hgroup, fun d hd => ?_⟩
      rcases List.mem_append.mp hd with hd | hd
      · exact hdel d hd
      · rw [List.mem_singleton.mp hd]
        exact hlast

theorem Kept.mem_order (h : Kept env filters order aborted id row) :
    ∃ r ∈ order, coldEvent env filters r = .put id row := by
  obtain ⟨pre, r, post, rfl, hput, -⟩ := h
  exact ⟨r, by simp, hput⟩

structure ColdScan.Holds (env : CacheEnv) (filters : EqualityFilters) (order : List TransactionRecord)
    (aborted : Finset UInt64) (scan : ColdScan) : Prop where
  nodup : (order.map (·.id)).Nodup
  replays : ∃ log : List (LogEvent UInt64 RowMap), scan.rows = log.foldl Replay.apply Replay.empty
  rows : ∀ id row, scan.rows.rows.lookup id = some row ↔ Kept env filters order aborted id row
  applied : ∀ g id, id ∈ scan.applied g ↔
    g ∉ aborted ∧ ∃ r ∈ order, r.groupid = some ⟨g⟩ ∧ ∃ row, coldEvent env filters r = .put id row

namespace ColdScan.Holds

theorem applyVisible (h : scan.Holds env filters order aborted) (hnew : record.id ∉ order.map (·.id))
    (hgroup : ∀ g ∈ record.groupid, g.val ∉ aborted) :
    (scan.applyVisible env filters (record.groupid.map (·.val)) record).Holds env filters (order ++ [record])
      aborted := by
  refine ⟨?_, ?_, fun id row => ?_, fun g id => ?_⟩
  · rw [List.map_append, List.map_singleton]
    exact List.nodup_append.mpr ⟨h.nodup, List.nodup_singleton _, fun a ha b hb => by
      rw [List.mem_singleton.mp hb]
      rintro rfl
      exact hnew ha⟩
  · obtain ⟨log, hlog⟩ := h.replays
    refine ⟨log ++ [coldEvent env filters record], ?_⟩
    rw [applyVisible_rows, hlog, List.foldl_concat]
  · rw [applyVisible_rows, kept_concat_iff]
    cases hevent : coldEvent env filters record with
    | skip => simpa [Replay.apply] using h.rows id row
    | del key =>
      by_cases hkey : id = key
      · subst hkey
        simp [Replay.apply, Replay.del, Finmap.lookup_erase]
      · rw [Replay.apply, Replay.del, Finmap.lookup_erase_ne hkey, h.rows id row]
        simp [Ne.symm hkey]
    | put key row' =>
      by_cases hkey : id = key
      · subst hkey
        have hnot : ¬ Kept env filters order aborted id row := by
          intro hkept
          obtain ⟨r, hr, hput⟩ := hkept.mem_order
          refine hnew (List.mem_map.mpr ⟨r, hr, ?_⟩)
          rw [id_eq_of_coldEvent hput, id_eq_of_coldEvent hevent]
        simp only [Replay.apply, Replay.put, Finmap.lookup_insert, Option.some.injEq, LogEvent.put.injEq, true_and,
          hnot, false_and, or_false]
        exact (and_iff_left hgroup).symm
      · rw [Replay.apply, Replay.put, Finmap.lookup_insert_of_ne _ hkey, h.rows id row]
        simp [Ne.symm hkey]
  · rw [mem_applyVisible_applied, h.applied g id]
    simp only [List.mem_append, List.mem_singleton]
    constructor
    · rintro (⟨hg, r, hr, hput⟩ | ⟨hg, row, hput⟩)
      · exact ⟨hg, r, .inl hr, hput⟩
      · obtain ⟨g', hg', rfl⟩ := Option.map_eq_some_iff.mp hg
        exact ⟨hgroup g' hg', record, .inr rfl, hg', row, hput⟩
    · rintro ⟨hg, r, hr | rfl, hgroupid, row, hput⟩
      · exact .inl ⟨hg, r, hr, hgroupid, row, hput⟩
      · exact .inr ⟨by rw [hgroupid]; rfl, row, hput⟩

theorem foldl_applyVisible {staged : List TransactionRecord} {g : TransactionId}
    (h : scan.Holds env filters order aborted) (hids : ((order ++ staged).map (·.id)).Nodup)
    (hgroup : ∀ r ∈ staged, r.groupid = some g) (hnot : g.val ∉ aborted) :
    (staged.foldl (ColdScan.applyVisible env filters (some g.val)) scan).Holds env filters (order ++ staged)
      aborted := by
  induction staged generalizing scan order with
  | nil => simpa using h
  | cons record staged ih =>
    have hrecord : record.groupid = some g := hgroup record List.mem_cons_self
    have hnew : record.id ∉ order.map (·.id) := by
      rw [List.map_append, List.map_cons] at hids
      intro hmem
      exact (List.nodup_append.mp hids).2.2 _ hmem _ List.mem_cons_self rfl
    have hnext := h.applyVisible hnew fun g' hg' => by
      rw [Option.some.inj (hrecord.symm.trans hg')] at hnot
      exact hnot
    rw [hrecord, Option.map_some] at hnext
    rw [List.append_cons] at hids ⊢
    exact ih hnext hids fun r hr => hgroup r (List.mem_cons_of_mem _ hr)

theorem lookup_foldl_del (ids : List UInt64) (rows : LiveRowState) (id : UInt64) :
    (ids.foldl Replay.del rows).rows.lookup id = if id ∈ ids then none else rows.rows.lookup id := by
  induction ids generalizing rows with
  | nil => simp
  | cons first ids ih =>
    rw [List.foldl_cons, ih]
    by_cases hmem : id ∈ ids
    · simp [hmem]
    · by_cases hfirst : id = first
      · subst hfirst
        simp [Replay.del, Finmap.lookup_erase, hmem]
      · simp [Replay.del, Finmap.lookup_erase_ne hfirst, hmem, hfirst]

theorem abort (h : scan.Holds env filters order aborted) (g : UInt64) :
    (scan.abort g).Holds env filters order (insert g aborted) := by
  refine ⟨h.nodup, ?_, fun id row => ?_, fun g' id => ?_⟩
  · obtain ⟨log, hlog⟩ := h.replays
    refine ⟨log ++ (scan.applied g).map .del, ?_⟩
    rw [List.foldl_append, ← hlog, List.foldl_map]
    rfl
  · change ((scan.applied g).foldl Replay.del scan.rows).rows.lookup id = some row ↔ _
    rw [lookup_foldl_del]
    constructor
    · intro hlookup
      split at hlookup
      · cases hlookup
      · rename_i hmem
        obtain ⟨pre, r, post, rfl, hput, hgroup, hdel⟩ := (h.rows id row).mp hlookup
        refine ⟨pre, r, post, rfl, hput, fun g' hg' hin => ?_, hdel⟩
        rcases Finset.mem_insert.mp hin with rfl | hin
        · exact hmem ((h.applied g'.val id).mpr ⟨hgroup g' hg', r, by simp, hg', row, hput⟩)
        · exact hgroup g' hg' hin
    · rintro ⟨pre, r, post, horder, hput, hgroup, hdel⟩
      rw [if_neg]
      · exact (h.rows id row).mpr ⟨pre, r, post, horder, hput,
          fun g' hg' hin => hgroup g' hg' (Finset.mem_insert_of_mem hin), hdel⟩
      · intro hmem
        obtain ⟨-, r', hr', hgroupid, row', hput'⟩ := (h.applied g id).mp hmem
        have hr : r ∈ order := by rw [horder]; simp
        have hsame : r' = r := List.inj_on_of_nodup_map h.nodup hr' hr
          ((id_eq_of_coldEvent hput').trans (id_eq_of_coldEvent hput).symm)
        exact hgroup _ (hsame ▸ hgroupid) (Finset.mem_insert_self g aborted)
  · change id ∈ Function.update scan.applied g [] g' ↔ _
    by_cases hg : g' = g
    · subst hg
      simp
    · rw [Function.update_of_ne hg, h.applied g' id, Finset.mem_insert, not_or, and_iff_right hg]

end ColdScan.Holds

/-! ## The scan follows the order of application -/

inductive Role (record : TransactionRecord) : Prop where
  | idle (ends : EndsGroup record) (groupid : record.groupid = none)
  | commit (g : TransactionId) (kind : record.kind = .writeCommit) (groupid : record.groupid = some g)
  | abort (g : TransactionId) (kind : record.kind = .writeAbort) (groupid : record.groupid = some g)
  | free (data : ¬ EndsGroup record) (groupid : record.groupid = none)
  | grouped (g : TransactionId) (data : ¬ EndsGroup record) (groupid : record.groupid = some g)

theorem role (record : TransactionRecord) : Role record := by
  by_cases hends : EndsGroup record
  · cases hgroup : record.groupid with
    | none => exact .idle hends hgroup
    | some g =>
      rcases hends with hkind | hkind
      · exact .commit g hkind hgroup
      · exact .abort g hkind hgroup
  · cases hgroup : record.groupid with
    | none => exact .free hends hgroup
    | some g => exact .grouped g hends hgroup

section Roles

variable {g : TransactionId}

theorem not_kind_of_data (hdata : ¬ EndsGroup record) : record.kind ≠ .writeCommit ∧ record.kind ≠ .writeAbort :=
  not_or.mp hdata

theorem released_idle (hends : EndsGroup record) (hgroup : record.groupid = none) : released records record = [] := by
  rcases hends with hkind | hkind <;> simp [released, hkind, hgroup]

theorem released_commit (hkind : record.kind = .writeCommit) (hgroup : record.groupid = some g) :
    released records record =
      if g.val ∈ (terminalGroups records).aborted ∨ g.val ∈ (terminalGroups records).committed then []
      else records.filter (OfGroup g) := by
  simp [released, hkind, hgroup]

theorem released_abort (hkind : record.kind = .writeAbort) : released records record = [] := by
  simp [released, hkind]

theorem released_free (hdata : ¬ EndsGroup record) (hgroup : record.groupid = none) :
    released records record = [record] := by
  obtain ⟨hcommit, habort⟩ := not_kind_of_data hdata
  unfold released
  cases hkind : record.kind <;> simp_all

theorem released_grouped (hdata : ¬ EndsGroup record) (hgroup : record.groupid = some g) : released records record =
      if g.val ∉ (terminalGroups records).aborted ∧ g.val ∈ (terminalGroups records).committed then [record]
      else [] := by
  obtain ⟨hcommit, habort⟩ := not_kind_of_data hdata
  unfold released
  cases hkind : record.kind <;> simp_all

theorem step_idle (hends : EndsGroup record) (hgroup : record.groupid = none) :
    scan.step env filters record = scan := by
  rcases hends with hkind | hkind <;> simp [ColdScan.step, hkind, hgroup]

theorem step_commit (hkind : record.kind = .writeCommit) (hgroup : record.groupid = some g) :
    scan.step env filters record = scan.commit env filters g.val := by
  simp [ColdScan.step, hkind, hgroup]

theorem step_abort (hkind : record.kind = .writeAbort) (hgroup : record.groupid = some g) :
    scan.step env filters record = scan.abort g.val := by
  simp [ColdScan.step, hkind, hgroup]

theorem step_free (hdata : ¬ EndsGroup record) (hgroup : record.groupid = none) :
    scan.step env filters record = scan.applyVisible env filters none record := by
  obtain ⟨hcommit, habort⟩ := not_kind_of_data hdata
  unfold ColdScan.step
  cases hkind : record.kind <;> simp_all

theorem step_grouped (hdata : ¬ EndsGroup record) (hgroup : record.groupid = some g) : scan.step env filters record =
      if g.val ∈ scan.groups.aborted then scan
      else if g.val ∈ scan.groups.committed then scan.applyVisible env filters (some g.val) record
      else scan.stage g.val record := by
  obtain ⟨hcommit, habort⟩ := not_kind_of_data hdata
  unfold ColdScan.step
  cases hkind : record.kind <;> simp_all

variable {groups : TerminalGroups}

theorem note_none (hgroup : record.groupid = none) : groups.note record = groups := by
  unfold TerminalGroups.note
  rw [hgroup]
  split <;> simp_all

theorem note_commit (hkind : record.kind = .writeCommit) (hgroup : record.groupid = some g) :
    groups.note record = { groups with committed := insert g.val groups.committed } := by
  simp [TerminalGroups.note, hkind, hgroup]

theorem note_abort (hkind : record.kind = .writeAbort) (hgroup : record.groupid = some g) :
    groups.note record = { groups with aborted := insert g.val groups.aborted } := by
  simp [TerminalGroups.note, hkind, hgroup]

end Roles

theorem eq_of_val_eq {g g' : TransactionId} (h : g.val = g'.val) : g = g' := by
  cases g
  cases g'
  exact congrArg TransactionId.mk h

theorem mem_applicationOrder (h : r ∈ applicationOrder records) :
    r ∈ records ∧ ¬ EndsGroup r ∧ ∀ g ∈ r.groupid, g.val ∈ (terminalGroups records).committed := by
  induction records using List.reverseRecOn with
  | nil => cases h
  | append_singleton records record ih =>
    have hgrow : ∀ g : UInt64, g ∈ (terminalGroups records).committed →
        g ∈ (terminalGroups (records ++ [record])).committed := by
      intro g hg
      obtain ⟨c, hc, hmarker⟩ := mem_committed.mp hg
      exact mem_committed.mpr ⟨c, List.mem_append_left _ hc, hmarker⟩
    rw [applicationOrder_concat] at h
    rcases List.mem_append.mp h with h | h
    · obtain ⟨hmem, hdata, hgroup⟩ := ih h
      exact ⟨List.mem_append_left _ hmem, hdata, fun g hg => hgrow _ (hgroup g hg)⟩
    · cases role record with
      | idle hends hnone =>
        rw [released_idle hends hnone] at h
        cases h
      | abort g hkind hsome =>
        rw [released_abort hkind] at h
        cases h
      | free hdata hnone =>
        rw [released_free hdata hnone] at h
        obtain rfl := List.mem_singleton.mp h
        exact ⟨by simp, hdata, fun g hg => by simp [hnone] at hg⟩
      | grouped g hdata hsome =>
        rw [released_grouped hdata hsome] at h
        split at h
        · rename_i hopen
          obtain rfl := List.mem_singleton.mp h
          refine ⟨by simp, hdata, fun g' hg' => hgrow _ ?_⟩
          rw [← Option.some.inj (hsome.symm.trans hg')]
          exact hopen.2
        · cases h
      | commit g hkind hsome =>
        rw [released_commit hkind hsome] at h
        split at h
        · cases h
        · obtain ⟨hmem, hof⟩ := List.mem_filter.mp h
          obtain ⟨hgroup, hdata⟩ := of_decide_eq_true hof
          refine ⟨List.mem_append_left _ hmem, hdata, fun g' hg' => ?_⟩
          rw [← Option.some.inj (hgroup.symm.trans hg'), terminalGroups_concat, note_commit hkind hsome]
          exact Finset.mem_insert_self _ _

theorem mem_applicationOrder_of_visible (hmem : r ∈ records) (hdata : ¬ EndsGroup r)
    (hgroup : ∀ g ∈ r.groupid, g.val ∈ (terminalGroups records).committed ∧
      g.val ∉ (terminalGroups records).aborted) : r ∈ applicationOrder records := by
  induction records using List.reverseRecOn with
  | nil => cases hmem
  | append_singleton records record ih =>
    rw [applicationOrder_concat, List.mem_append]
    have habort : ∀ g ∈ r.groupid, g.val ∉ (terminalGroups records).aborted := by
      intro g hg hin
      obtain ⟨a, ha, hmarker⟩ := mem_aborted.mp hin
      exact (hgroup g hg).2 (mem_aborted.mpr ⟨a, List.mem_append_left _ ha, hmarker⟩)
    rw [terminalGroups_concat] at hgroup
    rcases List.mem_append.mp hmem with hmem | hmem
    · by_cases hearlier : ∀ g ∈ r.groupid, g.val ∈ (terminalGroups records).committed
      · exact .inl (ih hmem fun g hg => ⟨hearlier g hg, habort g hg⟩)
      · -- the group is committed by the last record
        obtain ⟨g, hg, hopen⟩ : ∃ g, g ∈ r.groupid ∧ g.val ∉ (terminalGroups records).committed := by
          simpa using hearlier
        have hcommitted := (hgroup g hg).1
        cases role record with
        | idle hends hnone =>
          rw [note_none hnone] at hcommitted
          exact absurd hcommitted hopen
        | free hdata' hnone =>
          rw [note_none hnone] at hcommitted
          exact absurd hcommitted hopen
        | abort g' hkind hsome =>
          rw [note_abort hkind hsome] at hcommitted
          exact absurd hcommitted hopen
        | grouped g' hdata' hsome =>
          rw [note_of_not_endsGroup hdata'] at hcommitted
          exact absurd hcommitted hopen
        | commit g' hkind hsome =>
          rw [note_commit hkind hsome] at hcommitted
          have hval : g.val = g'.val := (Finset.mem_insert.mp hcommitted).resolve_right hopen
          obtain rfl := eq_of_val_eq hval
          refine .inr ?_
          rw [released_commit hkind hsome, if_neg (not_or.mpr ⟨habort g hg, hopen⟩)]
          exact List.mem_filter.mpr ⟨hmem, decide_eq_true ⟨hg, hdata⟩⟩
    · obtain rfl := List.mem_singleton.mp hmem
      refine .inr ?_
      cases hnone : r.groupid with
      | none =>
        rw [released_free hdata hnone]
        exact List.mem_singleton_self _
      | some g =>
        have hcommitted := (hgroup g hnone).1
        rw [note_of_not_endsGroup hdata] at hcommitted
        rw [released_grouped hdata hnone, if_pos ⟨habort g hnone, hcommitted⟩]
        exact List.mem_singleton_self _

structure ColdScan.Follows (env : CacheEnv) (filters : EqualityFilters) (records : List TransactionRecord)
    (scan : ColdScan) : Prop where
  groups : scan.groups = terminalGroups records
  pending : ∀ g : TransactionId, scan.pending g.val =
    if g.val ∈ (terminalGroups records).aborted ∨ g.val ∈ (terminalGroups records).committed then []
    else records.filter (OfGroup g)
  holds : scan.Holds env filters (applicationOrder records) (terminalGroups records).aborted

theorem filter_ofGroup_concat (g : TransactionId) (h : ¬ OfGroup g record) :
    (records ++ [record]).filter (OfGroup g) = records.filter (OfGroup g) := by
  rw [List.filter_append, List.filter_cons_of_neg (by simpa using h), List.filter_nil, List.append_nil]

theorem filter_ofGroup_concat_self (g : TransactionId) (h : OfGroup g record) :
    (records ++ [record]).filter (OfGroup g) = records.filter (OfGroup g) ++ [record] := by
  simp [List.filter_append, h]

namespace ColdScan.Follows

theorem commit (h : scan.Follows env filters records) (hids : ((records ++ [record]).map (·.id)).Nodup)
    {g : TransactionId} (hkind : record.kind = .writeCommit) (hsome : record.groupid = some g) :
    (scan.commit env filters g.val).Follows env filters (records ++ [record]) := by
  have hgroups : terminalGroups (records ++ [record]) =
      { terminalGroups records with committed := insert g.val (terminalGroups records).committed } := by
    rw [terminalGroups_concat, note_commit hkind hsome]
  have hends : ∀ g', ¬ OfGroup g' record := fun g' hof => hof.2 (.inl hkind)
  have hpending : ∀ g' : TransactionId, Function.update scan.pending g.val [] g'.val =
      if g'.val ∈ (terminalGroups (records ++ [record])).aborted ∨
        g'.val ∈ (terminalGroups (records ++ [record])).committed then []
      else (records ++ [record]).filter (OfGroup g') := by
    intro g'
    rw [hgroups, filter_ofGroup_concat g' (hends g')]
    by_cases hg : g'.val = g.val
    · rw [hg, Function.update_self, if_pos (.inr (Finset.mem_insert_self _ _))]
    · rw [Function.update_of_ne hg, h.pending g']
      simp [hg]
  have hstaged : ∀ (staged : List TransactionRecord) (s : ColdScan),
      (staged.foldl (applyVisible env filters (some g.val)) s).groups = s.groups ∧
        (staged.foldl (applyVisible env filters (some g.val)) s).pending = s.pending := by
    intro staged
    induction staged with
    | nil => exact fun _ => ⟨rfl, rfl⟩
    | cons first staged ih =>
      intro s
      obtain ⟨hg, hp⟩ := ih (s.applyVisible env filters (some g.val) first)
      exact ⟨hg.trans (applyVisible_groups _), hp.trans (applyVisible_pending _)⟩
  unfold ColdScan.commit
  dsimp only
  rw [h.groups]
  split
  · rename_i hin
    refine ⟨hgroups.symm, hpending, ?_⟩
    rw [applicationOrder_concat, released_commit hkind hsome, if_pos (.inl hin), List.append_nil, hgroups]
    exact ⟨h.holds.nodup, h.holds.replays, h.holds.rows, h.holds.applied⟩
  · rename_i hin
    obtain ⟨hg, hp⟩ := hstaged (scan.pending g.val) { scan with
        groups := { terminalGroups records with committed := insert g.val (terminalGroups records).committed }
        pending := Function.update scan.pending g.val [] }
    refine ⟨hg.trans hgroups.symm, fun g' => (congrFun hp g'.val).trans (hpending g'), ?_⟩
    rw [applicationOrder_concat, released_commit hkind hsome, ← h.pending g, hgroups]
    refine Holds.foldl_applyVisible ⟨h.holds.nodup, h.holds.replays, h.holds.rows, h.holds.applied⟩ ?_ ?_ hin
    · rw [h.pending g]
      split
      · simpa using h.holds.nodup
      · rename_i hopen
        rw [List.map_append]
        have hids' : (records.map (·.id)).Nodup := by
          rw [List.map_append] at hids
          exact hids.of_append_left
        refine List.nodup_append.mpr ⟨h.holds.nodup, (List.filter_sublist.map _).nodup hids', ?_⟩
        intro a ha b hb hab
        obtain ⟨x, hx, rfl⟩ := List.mem_map.mp ha
        obtain ⟨y, hy, hxy⟩ := List.mem_map.mp hb
        obtain ⟨hx, -, hcommitted⟩ := mem_applicationOrder hx
        obtain ⟨hy, hof⟩ := List.mem_filter.mp hy
        have hsame : x = y := List.inj_on_of_nodup_map hids' hx hy (hab.trans hxy.symm)
        subst hsame
        exact hopen (.inr (hcommitted g (of_decide_eq_true hof).1))
    · intro r hr
      rw [h.pending g] at hr
      split at hr
      · cases hr
      · exact (of_decide_eq_true (List.mem_filter.mp hr).2).1

theorem abort (h : scan.Follows env filters records) {g : TransactionId} (hkind : record.kind = .writeAbort)
    (hsome : record.groupid = some g) : (scan.abort g.val).Follows env filters (records ++ [record]) := by
  have hgroups : terminalGroups (records ++ [record]) =
      { terminalGroups records with aborted := insert g.val (terminalGroups records).aborted } := by
    rw [terminalGroups_concat, note_abort hkind hsome]
  refine ⟨?_, fun g' => ?_, ?_⟩
  · rw [hgroups, ← h.groups]
    rfl
  · change Function.update scan.pending g.val [] g'.val = _
    rw [hgroups, filter_ofGroup_concat g' fun hof => hof.2 (.inr hkind)]
    by_cases hg : g'.val = g.val
    · rw [hg, Function.update_self, if_pos (.inl (Finset.mem_insert_self _ _))]
    · rw [Function.update_of_ne hg, h.pending g']
      simp [hg]
  · rw [applicationOrder_concat, released_abort hkind, List.append_nil, hgroups]
    exact h.holds.abort g.val

theorem step (h : scan.Follows env filters records) (hids : ((records ++ [record]).map (·.id)).Nodup) :
    (scan.step env filters record).Follows env filters (records ++ [record]) := by
  have hnew : record.id ∉ (applicationOrder records).map (·.id) := by
    rw [List.map_append, List.map_singleton] at hids
    rintro hmem
    obtain ⟨x, hx, hid⟩ := List.mem_map.mp hmem
    exact (List.nodup_append.mp hids).2.2 _ (List.mem_map_of_mem (mem_applicationOrder hx).1) _
      (List.mem_singleton_self _) hid
  cases role record with
  | commit g hkind hsome => exact step_commit hkind hsome ▸ h.commit hids hkind hsome
  | abort g hkind hsome => exact step_abort hkind hsome ▸ h.abort hkind hsome
  | idle hends hnone =>
    rw [step_idle hends hnone]
    refine ⟨?_, fun g => ?_, ?_⟩
    · rw [terminalGroups_concat, note_none hnone, h.groups]
    · rw [terminalGroups_concat, note_none hnone, filter_ofGroup_concat g fun hof => hof.2 hends, h.pending g]
    · rw [applicationOrder_concat, released_idle hends hnone, List.append_nil, terminalGroups_concat, note_none hnone]
      exact h.holds
  | free hdata hnone =>
    rw [step_free hdata hnone]
    have hholds := h.holds.applyVisible hnew fun g hg => by simp [hnone] at hg
    rw [hnone, Option.map_none] at hholds
    refine ⟨?_, fun g => ?_, ?_⟩
    · rw [terminalGroups_concat, note_none hnone, applyVisible_groups, h.groups]
    · rw [terminalGroups_concat, note_none hnone, filter_ofGroup_concat g fun hof => by simp [OfGroup, hnone] at hof,
        applyVisible_pending, h.pending g]
    · rw [applicationOrder_concat, released_free hdata hnone, terminalGroups_concat, note_none hnone]
      exact hholds
  | grouped g hdata hsome =>
    have hgroups : terminalGroups (records ++ [record]) = terminalGroups records := by
      rw [terminalGroups_concat, note_of_not_endsGroup hdata]
    -- the records that wait for another group, or for one that has ended, do not change
    have hpending : ∀ g' : TransactionId, (g' = g → g.val ∈ (terminalGroups records).aborted ∨
        g.val ∈ (terminalGroups records).committed) → scan.pending g'.val =
          if g'.val ∈ (terminalGroups records).aborted ∨ g'.val ∈ (terminalGroups records).committed then []
          else (records ++ [record]).filter (OfGroup g') := by
      intro g' hended
      rw [h.pending g']
      by_cases hg : g' = g
      · subst hg
        rw [if_pos (hended rfl), if_pos (hended rfl)]
      · rw [filter_ofGroup_concat g' fun hof => hg (Option.some.inj (hof.1.symm.trans hsome))]
    rw [step_grouped hdata hsome, h.groups]
    split
    · rename_i haborted
      refine ⟨h.groups.trans hgroups.symm, fun g' => ?_, ?_⟩
      · rw [hgroups]
        exact hpending g' fun _ => .inl haborted
      · rw [applicationOrder_concat, released_grouped hdata hsome, if_neg fun hopen => hopen.1 haborted,
          List.append_nil, hgroups]
        exact h.holds
    · rename_i haborted
      split
      · rename_i hcommitted
        have hholds := h.holds.applyVisible hnew fun g' hg' => by
          rw [← Option.some.inj (hsome.symm.trans hg')]
          exact haborted
        rw [hsome, Option.map_some] at hholds
        refine ⟨?_, fun g' => ?_, ?_⟩
        · rw [applyVisible_groups, hgroups, h.groups]
        · rw [applyVisible_pending, hgroups]
          exact hpending g' fun _ => .inr hcommitted
        · rw [applicationOrder_concat, released_grouped hdata hsome, if_pos ⟨haborted, hcommitted⟩, hgroups]
          exact hholds
      · rename_i hcommitted
        refine ⟨h.groups.trans hgroups.symm, fun g' => ?_, ?_⟩
        · change Function.update scan.pending g.val (scan.pending g.val ++ [record]) g'.val = _
          rw [hgroups]
          by_cases hg : g' = g
          · subst hg
            rw [Function.update_self, h.pending g', if_neg (not_or.mpr ⟨haborted, hcommitted⟩),
              if_neg (not_or.mpr ⟨haborted, hcommitted⟩), filter_ofGroup_concat_self g' ⟨hsome, hdata⟩]
          · rw [Function.update_of_ne fun hval => hg (eq_of_val_eq hval)]
            exact hpending g' fun heq => absurd heq hg
        · rw [applicationOrder_concat, released_grouped hdata hsome, if_neg fun hopen => hcommitted hopen.2,
            List.append_nil, hgroups]
          exact ⟨h.holds.nodup, h.holds.replays, h.holds.rows, h.holds.applied⟩

end ColdScan.Follows

theorem coldScan_follows (hids : (records.map (·.id)).Nodup) :
    (records.foldl (ColdScan.step env filters) .start).Follows env filters records := by
  induction records using List.reverseRecOn with
  | nil =>
    refine ⟨rfl, fun g => by simp [ColdScan.start], List.nodup_nil, ⟨[], rfl⟩, fun id row => ?_, fun g id => ?_⟩
    · simp [ColdScan.start, Replay.empty, Kept, applicationOrder, applicationOrderFrom]
    · simp [ColdScan.start, applicationOrder, applicationOrderFrom]
  | append_singleton records record ih =>
    rw [List.foldl_concat]
    refine (ih ?_).step hids
    rw [List.map_append] at hids
    exact hids.of_append_left

theorem mem_coldScanRows (hids : (records.map (·.id)).Nodup) : (id, row) ∈ coldScanRows env filters records ↔
      Kept env filters (applicationOrder records) (terminalGroups records).aborted id row := by
  have hholds : ColdScan.Holds env filters _ _ (records.foldl (ColdScan.step env filters) .start) :=
    (coldScan_follows hids).holds
  obtain ⟨log, hlog⟩ := hholds.replays
  rw [← hholds.rows id row, coldScanRows, hlog, Replay.mem_finish_iff, Replay.lookup_foldl_apply]

/-! ## When the scan returns the rows of the replay -/

/-- `d` is applied after `r`. -/
def AppliedBehind (records : List TransactionRecord) (r d : TransactionRecord) : Prop :=
  ∃ pre post, applicationOrder records = pre ++ r :: post ∧ d ∈ post

/-- For every visible record whose row matches: a delete of the row is applied behind it exactly if a visible
delete of the row stands behind it. -/
def DeletesAppliedInOrder (env : CacheEnv) (filters : EqualityFilters) (records : List TransactionRecord) : Prop :=
  ∀ r ∈ records, Visible records r →
    (∃ row, HoldsRow env.write.schema r row ∧ rowMatchesEqualityFilters env filters row = true) →
    ((∃ d, AppliedBehind records r d ∧ d.kind = .delete ∧ d.refid = some r.id) ↔
      ∃ d ∈ records, Execution.Deletes d r ∧ Visible records d)

theorem visible_iff_groups : Visible records r ↔
    ∀ g ∈ r.groupid, g.val ∈ (terminalGroups records).committed ∧ g.val ∉ (terminalGroups records).aborted := by
  simp only [Visible, mem_committed, mem_aborted]

theorem not_endsGroup_of_holdsRow (h : HoldsRow env.write.schema r row) : ¬ EndsGroup r := by
  obtain ⟨hkind, -⟩ := h
  rintro (hends | hends) <;> simp [hends] at hkind

theorem split_unique {pre post pre' post' : List TransactionRecord}
    (hids : ((pre ++ r :: post).map (·.id)).Nodup) (h : pre ++ r :: post = pre' ++ r :: post') : post = post' := by
  have hnodup := hids.of_map
  induction pre generalizing pre' with
  | nil =>
    cases pre' with
    | nil => exact (List.cons.inj h).2
    | cons first pre' =>
      obtain ⟨rfl, rfl⟩ := List.cons.inj h
      exact absurd (by simp) (List.nodup_cons.mp hnodup).1
  | cons first pre ih =>
    cases pre' with
    | nil =>
      obtain ⟨rfl, -⟩ := List.cons.inj h
      exact absurd (by simp) (List.nodup_cons.mp hnodup).1
    | cons first' pre' =>
      exact ih (List.nodup_cons.mp (by simpa using hids)).2 (List.cons.inj h).2 (List.nodup_cons.mp hnodup).2

theorem mem_coldScanRows_iff (hids : (records.map (·.id)).Nodup) (hmem : r ∈ records) (hvisible : Visible records r)
    (hrow : HoldsRow env.write.schema r row) (hmatch : rowMatchesEqualityFilters env filters row = true) :
    (r.id.val, row) ∈ coldScanRows env filters records ↔
      ¬ ∃ d, AppliedBehind records r d ∧ d.kind = .delete ∧ d.refid = some r.id := by
  have hput : coldEvent env filters r = .put r.id.val row := coldEvent_eq_put.mpr ⟨rfl, hrow, hmatch⟩
  have hgroups := visible_iff_groups.mp hvisible
  have hfollows : ColdScan.Follows env filters records _ := coldScan_follows hids
  have horder := hfollows.holds.nodup
  rw [mem_coldScanRows hids]
  constructor
  · rintro ⟨pre, r', post, heq, hput', hgroup, hdel⟩ ⟨d, ⟨pre', post', heq', hd⟩, hkind, href⟩
    have hr' : r' ∈ records := (mem_applicationOrder (heq ▸ by simp)).1
    have hsame : r' = r := List.inj_on_of_nodup_map hids hr' hmem
      ((id_eq_of_coldEvent hput').trans (id_eq_of_coldEvent hput).symm)
    subst hsame
    rw [heq] at horder heq'
    rw [← split_unique horder heq'] at hd
    exact hdel d hd (coldEvent_eq_del.mpr ⟨hkind, href⟩)
  · intro hnone
    obtain ⟨pre, post, heq⟩ := List.append_of_mem
      (mem_applicationOrder_of_visible hmem (not_endsGroup_of_holdsRow hrow) hgroups)
    refine ⟨pre, r, post, heq, hput, fun g hg => (hgroups g hg).2, fun d hd hdel => ?_⟩
    obtain ⟨hkind, href⟩ := coldEvent_eq_del.mp hdel
    exact hnone ⟨d, ⟨pre, post, heq, hd⟩, hkind, href⟩

theorem record_of_mem_coldScanRows (hids : (records.map (·.id)).Nodup)
    (h : (id, row) ∈ coldScanRows env filters records) : ∃ r ∈ records, r.id.val = id ∧ Visible records r ∧
      HoldsRow env.write.schema r row ∧ rowMatchesEqualityFilters env filters row = true := by
  obtain ⟨pre, r, post, heq, hput, hgroup, -⟩ := (mem_coldScanRows hids).mp h
  have horder : r ∈ applicationOrder records := by
    rw [heq]
    simp
  obtain ⟨hmem, -, hcommitted⟩ := mem_applicationOrder horder
  obtain ⟨hid, hrow, hmatch⟩ := coldEvent_eq_put.mp hput
  exact ⟨r, hmem, hid, visible_iff_groups.mpr fun g hg => ⟨hcommitted g hg, hgroup g hg⟩, hrow, hmatch⟩

theorem mem_liveRows_iff (h : InOrder records) (hmem : r ∈ records) (hvisible : Visible records r)
    (hrow : HoldsRow env.write.schema r row) : (r.id.val, row) ∈ liveRows env.write records ↔
      ¬ ∃ d ∈ records, Execution.Deletes d r ∧ Visible records d := by
  rw [liveRows, mem_collectLiveRows h]
  constructor
  · rintro ⟨r', hr', hid, -, -, hkeep⟩ ⟨d, hd, hdel, hd'⟩
    have hsame : r' = r := List.inj_on_of_nodup_map h.nodup_ids hr' hmem (eq_of_val_eq hid)
    exact hkeep d hd (hsame ▸ hdel) hd'
  · intro hnone
    exact ⟨r, hmem, rfl, hrow, hvisible, fun d hd hdel hd' => hnone ⟨d, hd, hdel, hd'⟩⟩

theorem deletesAppliedInOrder_of_rows (h : InOrder records) (hrows : ∀ row, row ∈ coldScanRows env filters records ↔
      row ∈ (liveRows env.write records).filter fun row => rowMatchesEqualityFilters env filters row.2) :
    DeletesAppliedInOrder env filters records := by
  rintro r hmem hvisible ⟨row, hrow, hmatch⟩
  have hboth := hrows (r.id.val, row)
  rw [mem_coldScanRows_iff h.nodup_ids hmem hvisible hrow hmatch, List.mem_filter, and_iff_left hmatch,
    mem_liveRows_iff h hmem hvisible hrow] at hboth
  exact not_iff_not.mp hboth

theorem DeletesAppliedInOrder.mem_coldScanRows (horder : DeletesAppliedInOrder env filters records)
    (h : InOrder records) (row : LiveRow) : row ∈ coldScanRows env filters records ↔
      row ∈ (liveRows env.write records).filter fun row => rowMatchesEqualityFilters env filters row.2 := by
  obtain ⟨id, row⟩ := row
  have hrecord : ∀ r ∈ records, r.id.val = id → Visible records r → HoldsRow env.write.schema r row →
      rowMatchesEqualityFilters env filters row = true →
      ((id, row) ∈ coldScanRows env filters records ↔ (id, row) ∈ liveRows env.write records) := by
    rintro r hmem rfl hvisible hrow hmatch
    rw [mem_coldScanRows_iff h.nodup_ids hmem hvisible hrow hmatch, mem_liveRows_iff h hmem hvisible hrow,
      horder r hmem hvisible ⟨row, hrow, hmatch⟩]
  rw [List.mem_filter]
  constructor
  · intro hscan
    obtain ⟨r, hmem, hid, hvisible, hrow, hmatch⟩ := record_of_mem_coldScanRows h.nodup_ids hscan
    exact ⟨(hrecord r hmem hid hvisible hrow hmatch).mp hscan, hmatch⟩
  · rintro ⟨hrow', hmatch⟩
    obtain ⟨r, hmem, hid, hrow, hvisible, -⟩ := (mem_collectLiveRows h).mp hrow'
    exact (hrecord r hmem hid hvisible hrow hmatch).mpr hrow'

/-- In a stream with distinct ids, the scan finds the matching rows of the replay exactly if deletes are applied
in order. -/
theorem cold_scan_rows_iff (env : CacheEnv) (filters : EqualityFilters) (h : InOrder records) :
    (∀ row, row ∈ coldScanRows env filters records ↔
      row ∈ (liveRows env.write records).filter fun row => rowMatchesEqualityFilters env filters row.2) ↔
      DeletesAppliedInOrder env filters records :=
  ⟨deletesAppliedInOrder_of_rows h, fun horder row => horder.mem_coldScanRows h row⟩

def deletedAfterCommit : List TransactionRecord :=
  [rowRecord 1 .insert (some ⟨9⟩) none [some [97], some [1]], markerRecord 2 .writeCommit ⟨9⟩,
    rowRecord 3 .delete none (some ⟨1⟩) []]

theorem deletedAfterCommit_in_order : DeletesAppliedInOrder keyedCacheEnv [("k", [97])] deletedAfterCommit := by
  have hsorted : InOrder deletedAfterCommit := by unfold InOrder; decide
  refine (cold_scan_rows_iff keyedCacheEnv [("k", [97])] hsorted).mp fun row => ?_
  have hscan : coldScanRows keyedCacheEnv [("k", [97])] deletedAfterCommit = [] := by decide +kernel
  have hlive : liveRows keyedEnv deletedAfterCommit = [] := by decide +kernel
  rw [hscan, show liveRows keyedCacheEnv.write deletedAfterCommit = [] from hlive, List.filter_nil]

def deletedBeforeCommit : List TransactionRecord :=
  [rowRecord 1 .insert (some ⟨9⟩) none [some [97], some [1]], rowRecord 2 .delete none (some ⟨1⟩) [],
    markerRecord 3 .writeCommit ⟨9⟩]

/-- The delete comes too early for the row, which is applied with its group. -/
theorem deleted_row_found :
    InOrder deletedBeforeCommit ∧
      coldScanRows keyedCacheEnv [("k", [97])] deletedBeforeCommit = [(1, keyedRow [97] [1])] ∧
      (liveRows keyedEnv deletedBeforeCommit).filter (fun row =>
        rowMatchesEqualityFilters keyedCacheEnv [("k", [97])] row.2) = [] := by
  unfold InOrder
  decide +kernel

end DistDb.Cache
