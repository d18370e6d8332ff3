import DistDb.Cache.Agreement
import DistDb.Cache.Positions

/-! # Results of equality probes

A result is taken for valid as long as the head has the id it was stored with, and without any check while the stream
is not loaded. The limit of its rows is not stored. -/

namespace DistDb.Cache
open Lib Wal Execution Mutation CachedTable

variable {env : CacheEnv} {stream : CachedStream} {filters : EqualityFilters}

/-! ## Where the rows of a result come from -/

structure LiveRowCheckpoint where
  latestTxId : UInt64
  rows : List LiveRow

inductive ProbeAccess where
  | runtimeIndexLookup
  | equalityProbe

/-- A scan of the records, the rows an accessor restores, the references an index has for the key, and the rows of a
checkpoint. Only the last two are read up to a limit. -/
inductive ProbeSource where
  | directScan
  | accessorMiss (snapshot checkpoint : Option LiveRowCheckpoint)
  | rowRefs (access : ProbeAccess) (postings : List UInt64) (checkpoint : Option LiveRowCheckpoint)
      (rowLimit : Option ℕ)
  | checkpoint (access : ProbeAccess) (checkpoint : LiveRowCheckpoint) (rowLimit : Option ℕ)

def rowRefsForKey (postings : List UInt64) : Option ℕ → List UInt64
  | some limit => postings.take limit
  | none => postings

namespace CachedStream

def matchingRows (env : CacheEnv) (filters : EqualityFilters) (log : List TransactionRecord) : List LiveRow :=
  (liveRows env.write log).filter fun row => rowMatchesEqualityFilters env filters row.2

/-- The check of a row behind a reference: an index lookup compares only a key of one field. -/
def retains (env : CacheEnv) (filters : EqualityFilters) (access : ProbeAccess) (row : RowMap) : Bool :=
  match access with
  | .equalityProbe => rowMatchesEqualityFilters env filters row
  | .runtimeIndexLookup => if filters.length = 1 then rowMatchesEqualityFilters env filters row else true

def streamRecords (stream : CachedStream) : StreamRecords :=
  if stream.durable = true ∧ stream.loaded = false then .onDisk stream.log else .loaded stream.log

/-- The files that `load_live_rows_for_accessor_miss` may use instead of the stream. -/
def restoredRows (stream : CachedStream) (snapshot checkpoint : Option LiveRowCheckpoint) : Option (List LiveRow) :=
  match snapshot, checkpoint with
  | some snapshot, _ => some snapshot.rows
  | none, some checkpoint =>
    let latest := stream.latestTransactionIdIfLoaded
    if latest.any (checkpoint.latestTxId < ·) ∨ checkpoint.rows = [] ∧ 0 < latest.getD 0 then none
    else some checkpoint.rows
  | none, none => none

def shouldAttemptRowRefDirectLookup (stream : CachedStream) : Bool :=
  !stream.durable || stream.latestTransactionIdIfLoaded.isSome

def resolveLiveRowsForRowRefs (env : CacheEnv) (stream : CachedStream) (rowRefs : List UInt64)
    (checkpoint : Option LiveRowCheckpoint) : List LiveRow :=
  if stream.shouldAttemptRowRefDirectLookup then stream.cached.loadLiveRowsByRuntimeIndexRowRefs env rowRefs
  else
    match checkpoint with
    | some checkpoint => (checkpoint.rows.filter (·.1 ∈ rowRefs)).mergeSort fun row row' => row.1 ≤ row'.1
    | none => stream.cached.loadLiveRowsByRuntimeIndexRowRefs env rowRefs

def collect (env : CacheEnv) (stream : CachedStream) (filters : EqualityFilters) : ProbeSource → List LiveRow
  | .directScan => stream.streamRecords.directWalScan env filters
  | .accessorMiss snapshot checkpoint =>
    let rows := (stream.restoredRows snapshot checkpoint).getD (liveRows env.write stream.log)
    ((⟨0, rows, 0, fun _ => none⟩ : EqualityTableCacheEntry).ensurePostings
      (filters.map Prod.fst)).rowsForFieldValues filters
  | .rowRefs access postings checkpoint rowLimit =>
    applyRowLimitIfAny ((stream.resolveLiveRowsForRowRefs env (rowRefsForKey postings rowLimit) checkpoint).filter
      fun row => retains env filters access row.2) rowLimit
  | .checkpoint _ checkpoint rowLimit =>
    if filters = [] then []
    else applyRowLimitIfAny (checkpoint.rows.filter fun row => rowMatchesEqualityFilters env filters row.2) rowLimit

/-- Whether the stream is loaded on the way. A scan leaves a file that is not loaded as it is. -/
def loads (stream : CachedStream) : ProbeSource → Bool
  | .directScan => !stream.durable
  | .accessorMiss snapshot checkpoint => (stream.restoredRows snapshot checkpoint).isNone
  | .rowRefs _ _ checkpoint _ => stream.shouldAttemptRowRefDirectLookup || checkpoint.isNone
  | .checkpoint _ _ _ => false

def sourceTxId (stream : CachedStream) : ProbeSource → Option UInt64
  | .directScan => stream.cached.head
  | .checkpoint .equalityProbe checkpoint _ => some checkpoint.latestTxId
  | source => if stream.loaded || stream.loads source then stream.cached.head else none

/-! ## The cache -/

def cachedEqualityProbeRows (stream : CachedStream) (io : ProbeIo) (filters : EqualityFilters) :
    CachedStream × Option (List LiveRow) :=
  match stream.cached.probe filters with
  | none => (stream, none)
  | some probe =>
    if probe.rows ≠ [] ∧ stream.latestTransactionIdIfLoaded.all (· = probe.latestTxId) = true ∧
        io.expired = false then
      (stream, some probe.rows)
    else ({ stream with cached := stream.cached.dropProbe filters }, none)

def cacheEqualityProbeRows (stream : CachedStream) (io : ProbeIo) (filters : EqualityFilters) (rows : List LiveRow)
    (latestTxId : Option UInt64) : CachedStream :=
  match latestTxId with
  | none => stream
  | some latestTxId =>
    if rows = [] ∨ io.stores = false then stream
    else
      { stream with
        cached.probes := (stream.cached.probes.filter fun probe => probe.rows ≠ [] ∧ probe.latestTxId = latestTxId ∧
          io.keeps probe = true ∧ probe.filters ≠ (filters : Multiset (String × Bytes))) ++
            [⟨filters, latestTxId, rows⟩] }

end CachedStream

inductive ProbeOp where
  | change (op : TableStreamOp)
  | clear
  | invalidate
  | read
  | lookup (io : ProbeIo) (filters : EqualityFilters)
  | store (io : ProbeIo) (filters : EqualityFilters) (source : ProbeSource)

namespace CachedStream

def applyProbeOp (env : CacheEnv) (stream : CachedStream) : ProbeOp → CachedStream
  | .change op => { stream with loaded := true, cached := stream.cached.applyStreamOp env op }
  | .clear => { stream with cached := stream.cached.clearCachedTableState env.write.table.tableId stream.streamId }
  | .invalidate => stream.invalidateStreamCache
  | .read => { stream with loaded := true }
  | .lookup io filters => (stream.cachedEqualityProbeRows io filters).1
  | .store io filters source =>
    { stream with loaded := stream.loaded || stream.loads source }.cacheEqualityProbeRows io filters
      (stream.collect env filters source) (stream.sourceTxId source)

/-- Every result that is found has all rows of full replay with the values of its filters. -/
def Fresh (env : CacheEnv) (stream : CachedStream) : Prop :=
  ∀ io filters rows, (stream.cachedEqualityProbeRows io filters).2 = some rows →
    rows.Perm (matchingRows env filters stream.log)

/-- The contents of the stream change only with a larger id of the head, or with the results dropped. -/
def Grows (env : CacheEnv) (stream : CachedStream) (op : TableStreamOp) : Prop :=
  (stream.cached.applyStreamOp env op).log = stream.log ∨
    lastKey stream.log < lastKey (stream.cached.applyStreamOp env op).log ∨
    (stream.cached.applyStreamOp env op).probes = []

/-- Own writes need ids that are left; imports, truncations and realignments must let the head grow. A stream is
dropped from memory only if it has a file and no older results. A checkpoint that is used is as new as the stream. -/
def Steady (env : CacheEnv) (stream : CachedStream) : ProbeOp → Prop
  | .change op => IdsLeft stream.cached op ∧
      match op with
      | .append _ | .appendBatch _ _ _ _ | .appendPayload _ _ _ _ _ => True
      | _ => Grows env stream op
  | .invalidate => stream.cached.probes = [] ∨
      stream.durable = true ∧ ∀ probe ∈ stream.cached.probes, probe.latestTxId.toNat = lastKey stream.log
  | .store _ _ source => (∀ latestTxId ∈ stream.sourceTxId source, stream.cached.head = some latestTxId) ∧
      match source with
      | .accessorMiss snapshot checkpoint =>
        ∀ rows ∈ stream.restoredRows snapshot checkpoint, rows.Perm (liveRows env.write stream.log)
      | .checkpoint _ checkpoint _ => checkpoint.rows.Perm (liveRows env.write stream.log)
      | _ => True
  | _ => True

/-- A source either has none of the rows, and then nothing is stored, or all of them: a scan of the file applies
deletes in order, rows that compare equal have the bytes that are looked for, the references that are read lead to
every row once and to no other, the limit of a checkpoint's rows is not below their number. -/
def Covers (env : CacheEnv) (stream : CachedStream) (filters : EqualityFilters) : ProbeSource → Prop
  | .directScan => stream.durable = true ∧ stream.loaded = false → filters = [] ∨
      (∀ r ∈ stream.log, Visible stream.log r →
        (∃ row, HoldsRow env.write.schema r row ∧ rowMatchesEqualityFilters env filters row = true) →
        ∃ d, AppliedBehind stream.log r d ∧ d.kind = .delete ∧ d.refid = some r.id) ∨
      DeletesAppliedInOrder env filters stream.log
  | .accessorMiss _ _ => filters = [] ∨ (∀ row ∈ liveRows env.write stream.log, ¬ HasValues filters row.2) ∨
      ∀ row ∈ matchingRows env filters stream.log, HasValues filters row.2
  | .rowRefs access postings _ rowLimit =>
    let leadsTo := fun rowRef row => stream.cached.rowAtWalOffset env rowRef = some row ∧
      retains env filters access row.2
    (∀ rowRef ∈ rowRefsForKey postings rowLimit, ∀ row, ¬ leadsTo rowRef row) ∨
      (∀ rowRef ∈ rowRefsForKey postings rowLimit, ∀ row, leadsTo rowRef row →
        row ∈ matchingRows env filters stream.log) ∧
      ∀ row ∈ matchingRows env filters stream.log, (rowRefsForKey postings rowLimit).countP
        (fun rowRef => stream.cached.rowAtWalOffset env rowRef = some row) = 1
  | .checkpoint _ _ rowLimit => filters = [] ∨
      ∀ limit ∈ rowLimit, limit = 0 ∨ (matchingRows env filters stream.log).length ≤ limit

/-- A probe that stores rows covers all that match its filters. -/
def StoresAll (env : CacheEnv) (stream : CachedStream) : ProbeOp → Prop
  | .store io filters source =>
    (stream.sourceTxId source).isSome = true → io.stores = true → Covers env stream filters source
  | _ => True

/-! ## What is collected -/

theorem nodup_matchingRows (env : CacheEnv) (filters : EqualityFilters) (log : List TransactionRecord) :
    (matchingRows env filters log).Nodup :=
  (nodup_ids_liveRows env.write log).of_map.filter _

theorem perm_iff_count_eq_one {α : Type*} [BEq α] [LawfulBEq α] {l l' : List α} (h : l'.Nodup) :
    l.Perm l' ↔ (∀ x ∈ l, x ∈ l') ∧ ∀ x ∈ l', l.count x = 1 := by
  rw [List.perm_iff_count]
  constructor
  · intro hcount
    refine ⟨fun x hx => ?_, fun x hx => (hcount x).trans (List.count_eq_one_of_mem h hx)⟩
    exact List.count_pos_iff.mp (hcount x ▸ List.count_pos_iff.mpr hx)
  · rintro ⟨hsubset, hone⟩ x
    by_cases hx : x ∈ l'
    · rw [hone x hx, List.count_eq_one_of_mem h hx]
    · rw [List.count_eq_zero_of_not_mem hx, List.count_eq_zero_of_not_mem fun hl => hx (hsubset x hl)]

theorem nonempty_imp_perm_iff {α : Type*} {l l' m : List α} (h : l.Perm l') :
    (l ≠ [] → l.Perm m) ↔ l' = [] ∨ l'.Perm m := by
  have hnil : l = [] ↔ l' = [] := by
    rw [← List.length_eq_zero_iff, h.length_eq, List.length_eq_zero_iff]
  rw [h.congr_left, ne_eq, hnil, or_iff_not_imp_left]

theorem scanLoaded_eq_matchingRows (horder : InOrder stream.log) (hne : filters ≠ []) :
    (StreamRecords.loaded stream.log).directWalScan env filters = matchingRows env filters stream.log := by
  classical
  have hcurrent : ∀ id, ¬ MatchOutdated env filters stream.log id := by
    rintro id ⟨pre, record, post, heq, hid, -, -, ⟨later, hlater, hid', -⟩, -⟩
    have hlt := (List.pairwise_append.mp (heq ▸ horder)).2.1
    have hkey := (List.pairwise_cons.mp hlt).1 later hlater
    rw [TransactionRecord.key, TransactionRecord.key, hid, hid'] at hkey
    exact Nat.lt_irrefl _ hkey
  rw [matchingRows, filter_liveRows_eq (horder.imp Nat.le_of_lt) env filters,
    List.filter_eq_self.mpr fun row _ => decide_eq_true (hcurrent row.1)]
  exact scanLoadedRecords_eq hne scanChunking_pos

theorem coldScanRows_eq_nil_iff (horder : InOrder stream.log) : coldScanRows env filters stream.log = [] ↔
    ∀ r ∈ stream.log, Visible stream.log r →
      (∃ row, HoldsRow env.write.schema r row ∧ rowMatchesEqualityFilters env filters row = true) →
      ∃ d, AppliedBehind stream.log r d ∧ d.kind = .delete ∧ d.refid = some r.id := by
  rw [List.eq_nil_iff_forall_not_mem]
  constructor
  · rintro hnone r hr hvisible ⟨row, hrow, hmatch⟩
    exact not_not.mp fun hkept =>
      hnone _ ((mem_coldScanRows_iff horder.nodup_ids hr hvisible hrow hmatch).mpr hkept)
  · rintro hall ⟨id, row⟩ hscan
    obtain ⟨r, hr, rfl, hvisible, hrow, hmatch⟩ := record_of_mem_coldScanRows horder.nodup_ids hscan
    exact (mem_coldScanRows_iff horder.nodup_ids hr hvisible hrow hmatch).mp hscan
      (hall r hr hvisible ⟨row, hrow, hmatch⟩)

theorem nodup_coldScanRows (horder : InOrder stream.log) : (coldScanRows env filters stream.log).Nodup := by
  have hfollows : ColdScan.Follows env filters stream.log _ := coldScan_follows horder.nodup_ids
  obtain ⟨log, hlog⟩ := hfollows.holds.replays
  rw [coldScanRows, hlog]
  exact (Replay.nodup_map_fst_finish log).of_map

theorem directScan_covers_iff (horder : InOrder stream.log) :
    (stream.collect env filters .directScan ≠ [] →
      (stream.collect env filters .directScan).Perm (matchingRows env filters stream.log)) ↔
      Covers env stream filters .directScan := by
  rw [collect, streamRecords, Covers]
  by_cases hne : filters = []
  · subst hne
    have hnone : ∀ records : StreamRecords, records.directWalScan env [] = [] := fun records => by
      cases records <;> rfl
    simp [hnone]
  · by_cases hcold : stream.durable = true ∧ stream.loaded = false
    · rw [if_pos hcold, imp_iff_right hcold, or_iff_right hne, StreamRecords.directWalScan, if_neg hne,
        ← coldScanRows_eq_nil_iff horder, ← or_iff_not_imp_left,
        List.perm_ext_iff_of_nodup (nodup_coldScanRows horder) (nodup_matchingRows _ _ _)]
      exact or_congr_right ⟨deletesAppliedInOrder_of_rows horder, fun h row => h.mem_coldScanRows horder row⟩
    · rw [if_neg hcold, scanLoaded_eq_matchingRows horder hne]
      exact iff_of_true (fun _ => List.Perm.refl _) fun h => absurd h hcold

theorem accessorMiss_covers_iff {snapshot checkpoint : Option LiveRowCheckpoint}
    (hrestored : ∀ rows ∈ stream.restoredRows snapshot checkpoint, rows.Perm (liveRows env.write stream.log)) :
    (stream.collect env filters (.accessorMiss snapshot checkpoint) ≠ [] →
      (stream.collect env filters (.accessorMiss snapshot checkpoint)).Perm (matchingRows env filters stream.log)) ↔
      Covers env stream filters (.accessorMiss snapshot checkpoint) := by
  by_cases hne : filters = []
  · subst hne
    exact iff_of_true (fun h => absurd rfl h) (.inl rfl)
  · have hrows : ((stream.restoredRows snapshot checkpoint).getD (liveRows env.write stream.log)).Perm
        (liveRows env.write stream.log) := by
      cases h : stream.restoredRows snapshot checkpoint with
      | none => exact List.Perm.refl _
      | some rows => exact hrestored rows h
    have hnodup := (hrows.map Prod.fst).nodup_iff.mpr (nodup_ids_liveRows env.write stream.log)
    obtain ⟨hmirrors, hfields⟩ := (mirrors_rows 0
      ((stream.restoredRows snapshot checkpoint).getD (liveRows env.write stream.log)) 0).ensurePostings
        (filters.map Prod.fst)
    have hcollect : (stream.collect env filters (.accessorMiss snapshot checkpoint)).Perm
        ((liveRows env.write stream.log).filter fun row =>
          filters.all fun filter => row.2.lookup filter.1 = some filter.2) := by
      rw [collect, hmirrors.rowsForFieldValues_eq hnodup hne fun filter hfilter =>
        hfields filter.1 (.inr (List.mem_map_of_mem hfilter))]
      exact hrows.filter _
    have hvalues : ∀ row : LiveRow, (filters.all fun filter => row.2.lookup filter.1 = some filter.2) = true ↔
        HasValues filters row.2 := fun row => by simp [HasValues]
    rw [Covers, or_iff_right hne, nonempty_imp_perm_iff hcollect]
    refine or_congr ?_ ⟨fun hperm row hrow => ?_, fun hall => List.Perm.of_eq (List.filter_congr fun row hrow => ?_)⟩
    · rw [List.filter_eq_nil_iff]
      exact forall₂_congr fun row _ => not_congr (hvalues row)
    · exact (hvalues row).mp (List.mem_filter.mp (hperm.mem_iff.mpr hrow)).2
    · rw [Bool.eq_iff_iff, hvalues]
      exact ⟨fun h => h.rowMatches, fun hmatch => hall row (List.mem_filter.mpr ⟨hrow, hmatch⟩)⟩

theorem checkpoint_covers_iff {access : ProbeAccess} {checkpoint : LiveRowCheckpoint} {rowLimit : Option ℕ}
    (hrows : checkpoint.rows.Perm (liveRows env.write stream.log)) :
    (stream.collect env filters (.checkpoint access checkpoint rowLimit) ≠ [] →
      (stream.collect env filters (.checkpoint access checkpoint rowLimit)).Perm
        (matchingRows env filters stream.log)) ↔
      Covers env stream filters (.checkpoint access checkpoint rowLimit) := by
  rw [collect, Covers]
  by_cases hne : filters = []
  · rw [if_pos hne]
    exact iff_of_true (fun h => absurd rfl h) (.inl hne)
  · rw [if_neg hne, or_iff_right hne]
    have hfound : (checkpoint.rows.filter fun row => rowMatchesEqualityFilters env filters row.2).Perm
        (matchingRows env filters stream.log) := hrows.filter _
    cases rowLimit with
    | none => exact iff_of_true (fun _ => hfound) fun _ h => by cases h
    | some limit =>
      rw [applyRowLimitIfAny, ← hfound.length_eq]
      generalize (checkpoint.rows.filter fun row => rowMatchesEqualityFilters env filters row.2) = found at hfound ⊢
      constructor
      · intro hall other hother
        obtain rfl := Option.some.inj hother
        by_contra hcut
        obtain ⟨hzero, hlt⟩ := not_or.mp hcut
        have hlength : (found.take limit).length = limit := List.length_take_of_le (Nat.le_of_not_le hlt)
        have hperm := hall (List.ne_nil_of_length_pos (by omega))
        exact hlt ((hlength ▸ (hperm.trans hfound.symm).length_eq).ge)
      · intro hlimit hne'
        rcases hlimit limit rfl with rfl | hle
        · exact absurd List.take_zero hne'
        · rw [List.take_of_length_le hle]
          exact hfound

/-- The references that are read are no more than the limit. -/
theorem collect_rowRefs {access : ProbeAccess} {postings : List UInt64} {checkpoint : Option LiveRowCheckpoint}
    {rowLimit : Option ℕ} (hstored : (stream.sourceTxId (.rowRefs access postings checkpoint rowLimit)).isSome = true) :
    stream.collect env filters (.rowRefs access postings checkpoint rowLimit) =
      ((rowRefsForKey postings rowLimit).filterMap (stream.cached.rowAtWalOffset env)).filter
        fun row => retains env filters access row.2 := by
  have hresolved : ∀ rowRefs, stream.resolveLiveRowsForRowRefs env rowRefs checkpoint =
      rowRefs.filterMap (stream.cached.rowAtWalOffset env) := by
    intro rowRefs
    unfold resolveLiveRowsForRowRefs
    split_ifs with hdirect
    · rfl
    · cases checkpoint with
      | none => rfl
      | some checkpoint =>
        -- a result without the stream has no id to be stored under
        simp only [sourceTxId, loads, hdirect, Option.isNone_some, Bool.or_self, Bool.or_false] at hstored
        split_ifs at hstored with hloaded
        · simp [shouldAttemptRowRefDirectLookup, latestTransactionIdIfLoaded, hloaded, hstored] at hdirect
        · cases hstored
  rw [collect, hresolved]
  cases rowLimit with
  | none => rfl
  | some limit =>
    refine List.take_of_length_le ?_
    calc _ ≤ ((postings.take limit).filterMap (stream.cached.rowAtWalOffset env)).length := List.length_filter_le ..
      _ ≤ (postings.take limit).length := List.length_filterMap_le ..
      _ ≤ limit := by simp

theorem rowRefs_covers_iff {access : ProbeAccess} {postings : List UInt64} {checkpoint : Option LiveRowCheckpoint}
    {rowLimit : Option ℕ} (hstored : (stream.sourceTxId (.rowRefs access postings checkpoint rowLimit)).isSome = true) :
    (stream.collect env filters (.rowRefs access postings checkpoint rowLimit) ≠ [] →
      (stream.collect env filters (.rowRefs access postings checkpoint rowLimit)).Perm
        (matchingRows env filters stream.log)) ↔
      Covers env stream filters (.rowRefs access postings checkpoint rowLimit) := by
  rw [collect_rowRefs hstored, Covers, ← or_iff_not_imp_left]
  refine or_congr ?_ ((perm_iff_count_eq_one (nodup_matchingRows _ _ _)).trans (and_congr ?_ ?_))
  · rw [List.eq_nil_iff_forall_not_mem]
    simp only [List.mem_filter, List.mem_filterMap]
    grind
  · simp only [List.mem_filter, List.mem_filterMap]
    grind
  · refine forall₂_congr fun row hrow => ?_
    have hretained : retains env filters access row.2 = true := by
      have hmatch := (List.mem_filter.mp hrow).2
      cases access with
      | equalityProbe => exact hmatch
      | runtimeIndexLookup => simp [retains, hmatch]
    rw [List.count_filter (p := fun row : LiveRow => retains env filters access row.2) hretained, List.count_filterMap]
    exact Eq.congr_left (List.countP_congr fun rowRef _ => by simp)

theorem collect_covers_iff (horder : InOrder stream.log) {io : ProbeIo} {source : ProbeSource}
    (hsteady : Steady env stream (.store io filters source)) (hstored : (stream.sourceTxId source).isSome = true) :
    (stream.collect env filters source ≠ [] →
      (stream.collect env filters source).Perm (matchingRows env filters stream.log)) ↔
      Covers env stream filters source := by
  cases source with
  | directScan => exact directScan_covers_iff horder
  | accessorMiss snapshot checkpoint => exact accessorMiss_covers_iff hsteady.2
  | rowRefs access postings checkpoint rowLimit => exact rowRefs_covers_iff hstored
  | checkpoint access checkpoint rowLimit => exact checkpoint_covers_iff hsteady.2

/-! ## Steps -/

structure ProbeFits (env : CacheEnv) (stream : CachedStream) (probe : EqualityProbeCacheEntry) : Prop where
  nonempty : stream.log ≠ []
  latest_le : probe.latestTxId.toNat ≤ lastKey stream.log
  latest_eq : stream.loaded = false → probe.latestTxId.toNat = lastKey stream.log
  rows : probe.latestTxId.toNat = lastKey stream.log → ∀ filters : EqualityFilters, probe.filters = filters →
    probe.rows.Perm (matchingRows env filters stream.log)

structure ProbesFit (env : CacheEnv) (stream : CachedStream) : Prop where
  inOrder : InOrder stream.log
  fits : ∀ probe ∈ stream.cached.probes, ProbeFits env stream probe

theorem head_of_ne_nil (cached : CachedTable) (h : cached.log ≠ []) :
    ∃ head, cached.head = some head ∧ head.toNat = lastKey cached.log := by
  obtain ⟨init, last, hlog⟩ := (List.eq_nil_or_concat' cached.log).resolve_left h
  exact ⟨last.id.val, by simp [CachedTable.head, latestTransactionId, hlog], by simp [hlog, TransactionRecord.key]⟩

theorem matchingRows_perm {filters' : EqualityFilters} (h : filters.Perm filters') (log : List TransactionRecord) :
    matchingRows env filters log = matchingRows env filters' log := by
  refine List.filter_congr fun row _ => ?_
  exact h.all_eq

theorem ProbesFit.fresh (h : ProbesFit env stream) : Fresh env stream := by
  intro io filters rows hrows
  unfold cachedEqualityProbeRows at hrows
  split at hrows
  · cases hrows
  · rename_i probe hprobe
    split at hrows
    · rename_i husable
      obtain rfl := Option.some.inj hrows
      have hfits := h.fits probe (List.mem_of_find?_eq_some hprobe)
      have hfilters : decide (probe.filters = (filters : Multiset (String × Bytes))) = true :=
        List.find?_some (p := fun probe : EqualityProbeCacheEntry => decide (probe.filters = _)) hprobe
      refine hfits.rows ?_ filters (of_decide_eq_true hfilters)
      cases hloaded : stream.loaded with
      | false => exact hfits.latest_eq hloaded
      | true =>
        obtain ⟨head, hhead, hkey⟩ := head_of_ne_nil stream.cached hfits.nonempty
        have hsame := husable.2.1
        rw [latestTransactionIdIfLoaded, if_pos hloaded, hhead] at hsame
        rw [← of_decide_eq_true hsame, hkey]
        rfl
    · cases hrows

theorem ProbesFit.of_subset {other : CachedStream} (h : ProbesFit env stream) (hlog : other.log = stream.log)
    (hloaded : other.loaded = false → stream.loaded = false)
    (hsubset : ∀ probe ∈ other.cached.probes, probe ∈ stream.cached.probes) : ProbesFit env other := by
  refine ⟨hlog ▸ h.inOrder, fun probe hprobe => ?_⟩
  obtain ⟨hne, hle, heq, hrows⟩ := h.fits probe (hsubset probe hprobe)
  exact ⟨hlog ▸ hne, hlog ▸ hle, fun hother => hlog ▸ heq (hloaded hother), hlog ▸ hrows⟩

theorem warmEqualityCache_probes (cached : CachedTable) (warmFields : List String) :
    (cached.warmEqualityCache env warmFields).probes = cached.probes := by
  unfold warmEqualityCache
  split
  · rfl
  · dsimp only
    split <;> rfl

theorem bootstrapFromCatalogs_probes (cached : CachedTable) (warmFields : List String) :
    (cached.bootstrapFromCatalogs env warmFields).probes = cached.probes := by
  unfold bootstrapFromCatalogs
  split
  · rfl
  · exact warmEqualityCache_probes _ _

theorem applyStreamOp_probes (env : CacheEnv) (cached : CachedTable) (op : TableStreamOp) :
    (cached.applyStreamOp env op).probes = cached.probes ∨ (cached.applyStreamOp env op).probes = [] := by
  cases op with
  | append write =>
    rcases appendRow_cases env cached write with hsame | ⟨row, -, hcached⟩
    · exact .inl (congrArg CachedTable.probes hsame)
    · refine .inl ?_
      rw [applyStreamOp, hcached]
  | appendBatch payloads preparedRows timestampEpochMs groupId =>
    rcases appendBatch_cases env cached payloads preparedRows timestampEpochMs groupId with
      hsame | ⟨-, given, -, hcached⟩
    · exact .inl (congrArg CachedTable.probes hsame)
    · refine .inl ?_
      rw [applyStreamOp, hcached]
  | appendPayload kind payload timestampEpochMs groupId stored => cases stored <;> exact .inl rfl
  | importWalRecords records replays warmFields =>
    refine .inl ?_
    change (CachedTable.importWalRecords env cached records replays warmFields).probes = _
    unfold CachedTable.importWalRecords
    dsimp only
    split
    · exact bootstrapFromCatalogs_probes _ _
    · rfl
  | truncate streamId actor timestampEpochMs rewritten => cases rewritten with
      | true => exact .inr rfl
      | false => exact .inl rfl
  | realign rewritten warmFields =>
    refine .inl ((bootstrapFromCatalogs_probes _ _).trans ?_)
    split <;> rfl

theorem grows_of_steady (horder : InOrder stream.log) {op : TableStreamOp} (h : Steady env stream (.change op)) :
    Grows env stream op := by
  obtain ⟨hroom, hgrows⟩ := h
  cases op with
  | append write =>
    have hid := toNat_nextTransactionId hroom
    rcases appendRow_cases env stream.cached write with hsame | ⟨row, -, hcached⟩
    · exact .inl (congrArg CachedTable.log hsame)
    · refine .inr (.inl ?_)
      rw [applyStreamOp, hcached]
      change _ < lastKey (stream.log ++ [_])
      rw [lastKey_concat]
      exact Nat.lt_of_lt_of_eq (Nat.lt_succ_self _) hid.symm
  | appendBatch payloads preparedRows timestampEpochMs groupId =>
    rcases appendBatch_cases env stream.cached payloads preparedRows timestampEpochMs groupId with
      hsame | ⟨hne, given, -, hcached⟩
    · exact .inl (congrArg CachedTable.log hsame)
    · refine .inr (.inl ?_)
      rw [applyStreamOp, hcached]
      refine Nat.lt_of_lt_of_eq ?_ (inOrder_batch timestampEpochMs groupId horder hroom hne).2.symm
      exact Nat.lt_add_of_pos_right (List.length_pos_of_ne_nil hne)
  | appendPayload kind payload timestampEpochMs groupId stored =>
    have hid := toNat_nextTransactionId hroom
    cases stored with
    | true =>
      refine .inr (.inl ?_)
      change _ < lastKey (stream.log ++ [_])
      rw [lastKey_concat]
      exact Nat.lt_of_lt_of_eq (Nat.lt_succ_self _) hid.symm
    | false => exact .inl rfl
  | importWalRecords records replays warmFields => exact hgrows
  | truncate streamId actor timestampEpochMs rewritten => exact hgrows
  | realign rewritten warmFields => exact hgrows

theorem ProbesFit.change (h : ProbesFit env stream) {op : TableStreamOp} (hsteady : Steady env stream (.change op)) :
    ProbesFit env (stream.applyProbeOp env (.change op)) := by
  have horder : InOrder (stream.cached.applyStreamOp env op).log := inOrder_applyStreamOp h.inOrder hsteady.1
  rcases applyStreamOp_probes env stream.cached op with hprobes | hprobes
  · rcases grows_of_steady h.inOrder hsteady with hlog | hlt | hnone
    · exact h.of_subset hlog (fun hloaded => absurd hloaded Bool.noConfusion) fun probe hprobe => hprobes ▸ hprobe
    · refine ⟨horder, fun probe hprobe => ?_⟩
      have hle := (h.fits probe (hprobes ▸ hprobe)).latest_le
      have hnonempty : (stream.cached.applyStreamOp env op).log ≠ [] := by
        intro hnil
        rw [hnil] at hlt
        exact absurd hlt (Nat.not_lt_zero _)
      exact ⟨hnonempty, Nat.le_of_lt (Nat.lt_of_le_of_lt hle hlt), fun hloaded => absurd hloaded Bool.noConfusion,
        fun heq => absurd heq (Nat.ne_of_lt (Nat.lt_of_le_of_lt hle hlt))⟩
    · exact ⟨horder, fun probe hprobe => absurd (hnone ▸ hprobe) List.not_mem_nil⟩
  · exact ⟨horder, fun probe hprobe => absurd (hprobes ▸ hprobe) List.not_mem_nil⟩

theorem ProbesFit.invalidate (h : ProbesFit env stream) (hsteady : Steady env stream .invalidate) :
    ProbesFit env stream.invalidateStreamCache := by
  rcases hsteady with hnone | ⟨hdurable, hlatest⟩
  · have horder : InOrder stream.invalidateStreamCache.log := by
      change InOrder (if stream.durable then stream.log else [])
      split
      · exact h.inOrder
      · exact List.Pairwise.nil
    exact ⟨horder, fun probe hprobe => absurd (hnone ▸ hprobe) List.not_mem_nil⟩
  · have hlog : stream.invalidateStreamCache.log = stream.log := if_pos hdurable
    refine ⟨hlog ▸ h.inOrder, fun probe hprobe => ?_⟩
    obtain ⟨hne, hle, -, hrows⟩ := h.fits probe hprobe
    exact ⟨hlog ▸ hne, hlog ▸ hle, fun _ => hlog ▸ hlatest probe hprobe, hlog ▸ hrows⟩

theorem ProbesFit.lookup (h : ProbesFit env stream) (io : ProbeIo) (filters : EqualityFilters) :
    ProbesFit env (stream.cachedEqualityProbeRows io filters).1 := by
  unfold cachedEqualityProbeRows
  split
  · exact h
  · split
    · exact h
    · exact h.of_subset rfl id fun probe hprobe => (List.mem_filter.mp hprobe).1

theorem matches_head {latestTxId : UInt64} (h : stream.cached.head = some latestTxId) :
    stream.latestTransactionIdIfLoaded.all (· = latestTxId) = true := by
  unfold latestTransactionIdIfLoaded
  split <;> simp [h]

theorem ProbesFit.cacheRows (h : ProbesFit env stream) (io : ProbeIo) (rows : List LiveRow) {latestTxId : Option UInt64}
    (hlatest : ∀ id ∈ latestTxId, stream.cached.head = some id) :
    ((latestTxId.isSome = true → rows ≠ [] → io.stores = true → rows.Perm (matchingRows env filters stream.log)) →
      ProbesFit env (stream.cacheEqualityProbeRows io filters rows latestTxId)) ∧
    (Fresh env (stream.cacheEqualityProbeRows io filters rows latestTxId) →
      latestTxId.isSome = true → rows ≠ [] → io.stores = true → rows.Perm (matchingRows env filters stream.log)) := by
  unfold cacheEqualityProbeRows
  cases latestTxId with
  | none => exact ⟨fun _ => h, fun _ hsome => by cases hsome⟩
  | some id =>
    have hhead := hlatest id rfl
    have hne : stream.log ≠ [] := by
      intro hnil
      have hlog : stream.cached.log = [] := hnil
      simp [CachedTable.head, latestTransactionId, hlog] at hhead
    have hkey : id.toNat = lastKey stream.log := by
      obtain ⟨head, hsome, hkey⟩ := head_of_ne_nil stream.cached hne
      rw [Option.some.inj (hhead.symm.trans hsome), hkey]
      rfl
    dsimp only
    by_cases hskip : rows = [] ∨ io.stores = false
    · rw [if_pos hskip]
      refine ⟨fun _ => h, fun _ _ hrows hstores => ?_⟩
      rcases hskip with hnil | hnot
      · exact absurd hnil hrows
      · rw [hnot] at hstores
        cases hstores
    · obtain ⟨hrows, hstores⟩ := not_or.mp hskip
      rw [if_neg hskip]
      constructor
      · intro hall
        have hperm := hall rfl hrows (Bool.eq_true_of_not_eq_false hstores)
        refine ⟨h.inOrder, fun probe hprobe => ?_⟩
        rcases List.mem_append.mp hprobe with hold | hnew
        · obtain ⟨hne, hle, heq, hright⟩ := h.fits probe (List.mem_filter.mp hold).1
          exact ⟨hne, hle, heq, hright⟩
        · obtain rfl := List.mem_singleton.mp hnew
          refine ⟨hne, hkey.le, fun _ => hkey, fun _ filters' hfilters => ?_⟩
          exact matchingRows_perm (Multiset.coe_eq_coe.mp hfilters) stream.log ▸ hperm
      · intro hfresh _ _ _
        -- the new result is the one that is found under its filters
        refine hfresh ⟨false, false, fun _ => false⟩ filters rows ?_
        unfold cachedEqualityProbeRows CachedTable.probe
        rw [List.find?_append, List.find?_eq_none.mpr (by simp), List.find?_singleton,
          if_pos (decide_eq_true rfl), Option.none_or]
        exact congrArg Prod.snd (if_pos ⟨hrows, matches_head hhead, rfl⟩)

theorem applyProbeOp_step (h : ProbesFit env stream) {op : ProbeOp} (hsteady : Steady env stream op) :
    (StoresAll env stream op → ProbesFit env (stream.applyProbeOp env op)) ∧
      (Fresh env (stream.applyProbeOp env op) → StoresAll env stream op) := by
  cases op with
  | change op => exact ⟨fun _ => h.change hsteady, fun _ => trivial⟩
  | clear => exact ⟨fun _ => h.of_subset rfl id fun _ hprobe => absurd hprobe List.not_mem_nil, fun _ => trivial⟩
  | invalidate => exact ⟨fun _ => h.invalidate hsteady, fun _ => trivial⟩
  | read =>
    have hloaded : ProbesFit env { stream with loaded := true } :=
      h.of_subset rfl (fun hloaded => absurd hloaded Bool.noConfusion) fun _ hprobe => hprobe
    exact ⟨fun _ => hloaded, fun _ => trivial⟩
  | lookup io filters => exact ⟨fun _ => h.lookup io filters, fun _ => trivial⟩
  | store io filters source =>
    have hloaded : ProbesFit env { stream with loaded := stream.loaded || stream.loads source } :=
      h.of_subset rfl (fun hloaded => (Bool.or_eq_false_iff.mp hloaded).1) fun _ hprobe => hprobe
    obtain ⟨hfits, hfresh⟩ := hloaded.cacheRows io (stream.collect env filters source) hsteady.1
    constructor
    · exact fun hall => hfits fun hstored hne hstores =>
        (collect_covers_iff h.inOrder hsteady hstored).mpr (hall hstored hstores) hne
    · exact fun hright hstored hstores =>
        (collect_covers_iff h.inOrder hsteady hstored).mp fun hne => hfresh hright hstored hne hstores

/-! ## Runs -/

/-- In a run whose steps are steady, all results that are found are right if and only if none was cut off when it was
stored. -/
theorem probes_fresh_iff (env : CacheEnv) (streamId : String) (durable loaded : Bool) (log : List TransactionRecord)
    (horder : InOrder log) (ops : List ProbeOp)
    (hsteady : Along (applyProbeOp env) (Steady env) (uncached env streamId durable loaded log) ops) :
    (∀ n, Fresh env (runFrom (applyProbeOp env) (uncached env streamId durable loaded log) (ops.take n))) ↔
      Along (applyProbeOp env) (StoresAll env) (uncached env streamId durable loaded log) ops :=
  Along.forall_take_iff (C := Steady env) (I := ProbesFit env) (fun _ _ hop h => applyProbeOp_step h hop)
    (fun _ h => h.fresh) hsteady ⟨horder, fun _ hprobe => absurd hprobe List.not_mem_nil⟩

def keepsProbes : ProbeIo := ⟨false, true, fun _ => true⟩

def probedSteps : List ProbeOp :=
  [.change (.append (insertRow [97] [1] none)), .store keepsProbes [("v", [1])] .directScan,
    .store keepsProbes [("k", [97])] (.rowRefs .equalityProbe [1] none (some 1))]

def probedStream : CachedStream :=
  runFrom (applyProbeOp keyedCacheEnv) (uncached keyedCacheEnv "d:t" true true [firstRecord]) (probedSteps.take 2)

theorem probed_rows_fresh : InOrder [firstRecord] ∧
    ∀ n, Fresh keyedCacheEnv (runFrom (applyProbeOp keyedCacheEnv) (uncached keyedCacheEnv "d:t" true true
      [firstRecord]) (probedSteps.take n)) := by
  have hat : probedStream.cached.rowAtWalOffset keyedCacheEnv 1 = some (1, keyedRow [97] [1]) := by decide +kernel
  have hrows : matchingRows keyedCacheEnv [("k", [97])] probedStream.log = [(1, keyedRow [97] [1])] := by decide +kernel
  refine ⟨aligned_firstRecord.inOrder, (probes_fresh_iff keyedCacheEnv "d:t" true true [firstRecord]
    aligned_firstRecord.inOrder probedSteps ⟨⟨?_, trivial⟩, ⟨fun _ hlatest => hlatest, trivial⟩,
      ⟨fun _ hlatest => hlatest, trivial⟩, trivial⟩).mpr
      ⟨trivial, fun _ _ hcold => ?_, fun _ _ => .inr ⟨?_, ?_⟩, trivial⟩⟩
  · change HasRoom _ 1
    decide +kernel
  · exact absurd hcold.2 (by decide +kernel)
  · intro rowRef hrowRef row hleads
    have hrow : probedStream.cached.rowAtWalOffset keyedCacheEnv rowRef = some row := hleads.1
    rw [List.mem_singleton.mp hrowRef, hat] at hrow
    change row ∈ matchingRows keyedCacheEnv _ probedStream.log
    rw [hrows, ← Option.some.inj hrow]
    exact List.mem_singleton_self _
  · change ∀ row ∈ matchingRows keyedCacheEnv [("k", [97])] probedStream.log, List.countP
      (fun rowRef => probedStream.cached.rowAtWalOffset keyedCacheEnv rowRef = some row) [1] = 1
    intro row hrow
    rw [hrows] at hrow
    rw [List.mem_singleton.mp hrow, List.countP_singleton, hat]
    simp

/-- A result that was cut off at one row is found by a probe without a limit. A result from before an import below the
head is found without the imported row. -/
theorem cut_off_probe_found :
    (let stream := runFrom (applyProbeOp keyedCacheEnv) (uncached keyedCacheEnv "d:t" true true [firstRecord])
        [.change (.append (insertRow [97] [1] none)), .change (.append (insertRow [98] [1] none)),
          .store keepsProbes [("v", [1])] (.rowRefs .runtimeIndexLookup [1, 2] none (some 1))]
     (stream.cachedEqualityProbeRows keepsProbes [("v", [1])]).2 = some [(1, keyedRow [97] [1])] ∧
       matchingRows keyedCacheEnv [("v", [1])] stream.log = [(1, keyedRow [97] [1]), (2, keyedRow [98] [1])]) ∧
    (let stream := runFrom (applyProbeOp keyedCacheEnv) (uncached keyedCacheEnv "d:t" true true [laterRecord])
        [.change (.append (insertRow [98] [1] none)), .store keepsProbes [("v", [1])] .directScan,
          .change (.importWalRecords [(importedRow, true)] true [])]
     (stream.cachedEqualityProbeRows keepsProbes [("v", [1])]).2 = some [(6, keyedRow [98] [1])] ∧
       matchingRows keyedCacheEnv [("v", [1])] stream.log = [(2, keyedRow [97] [1]), (6, keyedRow [98] [1])]) := by
  refine ⟨⟨?_, ?_⟩, ?_, ?_⟩ <;> decide +kernel

end CachedStream

end DistDb.Cache
