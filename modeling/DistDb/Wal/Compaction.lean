import DistDb.Wal.Worker

/-! # Compaction

A truncated stream keeps its latest schema and metadata records. They are renumbered by position, but
their references keep the old ids. -/

namespace DistDb.Wal
open Lib

variable {entries : List TransactionRecord} {actor : UserId} {timestampEpochMs : UInt64}

/-! ## Renumbering -/

theorem getElem?_renumberFrom (n i : Nat) (records : List TransactionRecord) :
    (renumberFrom n records)[i]? = records[i]?.map fun record => { record with id := ⟨UInt64.ofNat (n + i)⟩ } := by
  induction records generalizing n i with
  | nil => simp [renumberFrom]
  | cons record records ih =>
    cases i with
    | zero => simp [renumberFrom]
    | succ i =>
      rw [renumberFrom, List.getElem?_cons_succ, List.getElem?_cons_succ, ih, Nat.add_assoc, Nat.add_comm 1 i]

theorem map_key_renumberFrom (n : ℕ) (records : List TransactionRecord) (h : n + records.length ≤ 2 ^ 64) :
    (renumberFrom n records).map (·.key) = List.range' n records.length := by
  induction records generalizing n with
  | nil => rfl
  | cons record records ih =>
    rw [List.length_cons] at h
    rw [renumberFrom, List.map_cons, List.length_cons, List.range'_succ, ih (n + 1) (by omega)]
    have hkey : (UInt64.ofNat n).toNat = n := UInt64.toNat_ofNat_of_lt' (by
      show n < 2 ^ 64
      omega)
    rw [TransactionRecord.key, hkey]

theorem pairwise_key_renumberFrom_iff (records : List TransactionRecord) :
    ((renumberFrom 0 records).map (·.key)).Pairwise (· < ·) ↔ records.length ≤ 2 ^ 64 := by
  refine ⟨fun h => ?_, fun h => ?_⟩
  · by_contra hlong
    have hkey : ∀ i < records.length, ((renumberFrom 0 records).map (·.key))[i]? = some (UInt64.ofNat i).toNat := by
      intro i hi
      rw [List.getElem?_map, getElem?_renumberFrom, List.getElem?_eq_getElem hi, Nat.zero_add]
      rfl
    obtain ⟨hzero, hfirst⟩ := List.getElem?_eq_some_iff.mp (hkey 0 (by omega))
    obtain ⟨hlast, hwrapped⟩ := List.getElem?_eq_some_iff.mp (hkey (2 ^ 64) (by omega))
    have hlt := List.pairwise_iff_getElem.mp h 0 (2 ^ 64) hzero hlast (by decide)
    rw [hfirst, hwrapped] at hlt
    exact absurd hlt (by decide)
  · rw [map_key_renumberFrom 0 records (by omega)]
    exact List.pairwise_lt_range'

/-! ## Survivors -/

def latestSchema (entries : List TransactionRecord) : Option TransactionRecord :=
  latestOf (· == .schemaChange) entries

def latestMetadata (entries : List TransactionRecord) : Option TransactionRecord :=
  latestOf (fun kind => kind == .metadataChange || kind == .securityChange) entries

def retainedIds (entries : List TransactionRecord) : List TransactionId :=
  ((latestSchema entries).toList ++ (latestMetadata entries).toList).map (·.id)

def survivors (entries : List TransactionRecord) : List TransactionRecord :=
  entries.filter fun record => decide (record.id ∈ retainedIds entries) && record.kind != .ignore

def keepRetainedRef (retained : List TransactionId) (record : TransactionRecord) : TransactionRecord :=
  { record with refid := record.refid.filter (· ∈ retained) }

theorem compactEntries_eq : compactEntriesToLatestSchemaAndMetadata entries actor timestampEpochMs =
      renumberFrom 0 ((survivors entries).map (keepRetainedRef (retainedIds entries)) ++
        [⟨⟨0⟩, none, none, timestampEpochMs, actor, .truncate, none⟩]) := by
  have hkept : ∀ entries : List TransactionRecord, ∀ retained : List TransactionId,
      (entries.map fun record => if record.id ∈ retained then record
        else { record with kind := .ignore, refid := none, payload := none }).filter (·.kind != .ignore) =
      entries.filter fun record => decide (record.id ∈ retained) && record.kind != .ignore := by
    intro entries retained
    induction entries with
    | nil => rfl
    | cons record entries ih =>
      rw [List.map_cons, List.filter_cons, List.filter_cons, ih]
      by_cases hretained : record.id ∈ retained
      · simp [hretained]
      · simp [hretained]
  rw [compactEntriesToLatestSchemaAndMetadata, hkept]
  refine congrArg (fun kept => renumberFrom 0 (kept ++ _)) (List.map_congr_left fun record _ => ?_)
  obtain ⟨id, groupid, refid, timestampEpochMs, actor, kind, payload⟩ := record
  cases refid with
  | none => rfl
  | some refid =>
    by_cases hretained : refid ∈ retainedIds entries
    · exact (if_pos hretained).trans (by simp [keepRetainedRef, Option.filter, hretained])
    · exact (if_neg hretained).trans (by simp [keepRetainedRef, Option.filter, hretained])

theorem mem_of_latestOf {p : TransactionKind → Bool} {latest : TransactionRecord}
    (h : latestOf p entries = some latest) : latest ∈ entries ∧ p latest.kind = true :=
  ⟨List.mem_reverse.mp (List.mem_of_find?_eq_some h),
    List.find?_some (p := fun record : TransactionRecord => p record.kind) h⟩

theorem mem_survivors_of_latest {latest : TransactionRecord}
    (h : latestSchema entries = some latest ∨ latestMetadata entries = some latest) :
    latest ∈ survivors entries := by
  have hid : latest.id ∈ retainedIds entries := by
    refine List.mem_map_of_mem (List.mem_append.mpr ?_)
    rcases h with h | h
    · exact Or.inl (by rw [h]; exact List.mem_singleton_self _)
    · exact Or.inr (by rw [h]; exact List.mem_singleton_self _)
  have hkind : latest ∈ entries ∧ latest.kind ≠ .ignore := by
    rcases h with h | h
    · obtain ⟨hmem, hkind⟩ := mem_of_latestOf h
      exact ⟨hmem, fun hignore => by rw [hignore] at hkind; cases hkind⟩
    · obtain ⟨hmem, hkind⟩ := mem_of_latestOf h
      exact ⟨hmem, fun hignore => by rw [hignore] at hkind; cases hkind⟩
  exact List.mem_filter.mpr ⟨hkind.1, by simp [hid, hkind.2]⟩

/-! ## What compaction keeps -/

theorem getElem?_compactEntries {i : Nat} {record : TransactionRecord} (h : (survivors entries)[i]? = some record) :
    (compactEntriesToLatestSchemaAndMetadata entries actor timestampEpochMs)[i]? =
      some { keepRetainedRef (retainedIds entries) record with id := ⟨UInt64.ofNat i⟩ } := by
  obtain ⟨hi, -⟩ := List.getElem?_eq_some_iff.mp h
  rw [compactEntries_eq, getElem?_renumberFrom, List.getElem?_append_left (by simpa using hi),
    List.getElem?_map, h, Nat.zero_add]
  rfl

/-- A compacted stream: ids increase, the latest record of each kept kind is there with everything but
its id and reference, and the reference of a survivor is dropped or names the same record as before. -/
structure CompactionKeeps (entries compacted : List TransactionRecord) : Prop where
  increasing : (compacted.map (·.key)).Pairwise (· < ·)
  latest : ∀ latest, latestSchema entries = some latest ∨ latestMetadata entries = some latest →
    ∃ moved ∈ compacted, { moved with id := latest.id, refid := latest.refid } = latest
  references : ∀ (i : Nat) (record : TransactionRecord), (survivors entries)[i]? = some record →
    ∃ moved : TransactionRecord, compacted[i]? = some moved ∧
      (moved.refid = none ∨
        ∃ (j : Nat) (target movedTarget : TransactionRecord), (survivors entries)[j]? = some target ∧
        record.refid = some target.id ∧
          compacted[j]? = some movedTarget ∧ moved.refid = some movedTarget.id)

/-- Every reference between survivors names a record whose id already is its position among them. -/
def ReferencesInPlace (entries : List TransactionRecord) : Prop :=
  ∀ record ∈ survivors entries, ∀ refid ∈ record.refid, refid ∈ retainedIds entries →
    (survivors entries)[refid.val.toNat]?.map (·.id) = some refid

instance (entries : List TransactionRecord) : Decidable (ReferencesInPlace entries) :=
  inferInstanceAs (Decidable (∀ record ∈ survivors entries, ∀ refid ∈ record.refid, _ → _))

theorem refid_keepRetainedRef {record : TransactionRecord} {refid : TransactionId} (h : record.refid = some refid) :
    (keepRetainedRef (retainedIds entries) record).refid =
      if refid ∈ retainedIds entries then some refid else none := by
  simp [keepRetainedRef, h, Option.filter]

theorem increasing_compactEntries_iff :
    ((compactEntriesToLatestSchemaAndMetadata entries actor timestampEpochMs).map (·.key)).Pairwise
      (· < ·) ↔ (survivors entries).length < 2 ^ 64 := by
  rw [compactEntries_eq, pairwise_key_renumberFrom_iff, List.length_append, List.length_map,
    List.length_singleton, Nat.succ_le_iff]

theorem CompactionKeeps.referencesInPlace
    (h : CompactionKeeps entries (compactEntriesToLatestSchemaAndMetadata entries actor timestampEpochMs)) :
    ReferencesInPlace entries := by
  intro record hrecord refid hrefid hretained
  obtain ⟨i, hi⟩ := List.mem_iff_getElem?.mp hrecord
  obtain ⟨moved, hmoved, hrefs⟩ := h.references i record hi
  obtain rfl := Option.some.inj ((getElem?_compactEntries hi).symm.trans hmoved)
  have hkept : (keepRetainedRef (retainedIds entries) record).refid = some refid := by
    rw [refid_keepRetainedRef hrefid, if_pos hretained]
  rcases hrefs with hnone | ⟨j, target, movedTarget, hj, htarget, hmovedTarget, hnew⟩
  · exact absurd (hkept.symm.trans hnone) (by simp)
  · obtain rfl := Option.some.inj ((getElem?_compactEntries hj).symm.trans hmovedTarget)
    have hid : refid = ⟨UInt64.ofNat j⟩ := Option.some.inj (hkept.symm.trans hnew)
    have hjlt := (List.getElem?_eq_some_iff.mp hj).1
    have hposition : refid.val.toNat = j := by
      rw [hid]
      exact UInt64.toNat_ofNat_of_lt' (hjlt.trans (increasing_compactEntries_iff.mp h.increasing))
    rw [hposition, hj, Option.map_some, ← htarget]
    exact hrefid

/-- Compaction keeps references meaningful exactly if they were in place before. -/
theorem compaction_keeps_iff (entries : List TransactionRecord) (actor : UserId)
    (timestampEpochMs : UInt64) :
    CompactionKeeps entries (compactEntriesToLatestSchemaAndMetadata entries actor timestampEpochMs) ↔
      (survivors entries).length < 2 ^ 64 ∧ ReferencesInPlace entries := by
  refine ⟨fun h => ⟨increasing_compactEntries_iff.mp h.increasing, h.referencesInPlace⟩,
    fun ⟨hcount, hplace⟩ => ⟨increasing_compactEntries_iff.mpr hcount, fun latest hlatest => ?_,
      fun i record hrecord => ?_⟩⟩
  · obtain ⟨i, hi⟩ := List.mem_iff_getElem?.mp (mem_survivors_of_latest hlatest)
    exact ⟨_, List.mem_of_getElem? (getElem?_compactEntries hi), rfl⟩
  · refine ⟨_, getElem?_compactEntries hrecord, ?_⟩
    cases hrefid : record.refid with
    | none => exact Or.inl (by simp [keepRetainedRef, hrefid])
    | some refid =>
      dsimp only
      rw [refid_keepRetainedRef hrefid]
      split_ifs with hretained
      · refine Or.inr ?_
        have hat := hplace record (List.mem_of_getElem? hrecord) refid hrefid hretained
        obtain ⟨target, htarget, hid⟩ := Option.map_eq_some_iff.mp hat
        refine ⟨refid.val.toNat, target, _, htarget, by rw [hid], getElem?_compactEntries htarget, ?_⟩
        simp
      · exact Or.inl rfl

def referringMetadata : List TransactionRecord :=
  [⟨⟨0⟩, none, none, 0, ⟨"user"⟩, .insert, some [1]⟩,
    ⟨⟨1⟩, none, none, 0, ⟨"user"⟩, .schemaChange, some [2]⟩,
    ⟨⟨2⟩, none, some ⟨1⟩, 0, ⟨"user"⟩, .metadataChange, some [3]⟩]

/-- The schema record becomes record 0 and the metadata record becomes record 1, which still refers to
record 1: itself. -/
theorem metadata_refers_to_itself :
    ¬ CompactionKeeps referringMetadata
        (compactEntriesToLatestSchemaAndMetadata referringMetadata ⟨"user"⟩ 5) ∧
      (compactEntriesToLatestSchemaAndMetadata referringMetadata ⟨"user"⟩ 5).map
          (fun record => (record.kind, record.id, record.refid)) =
        [(.schemaChange, ⟨0⟩, none), (.metadataChange, ⟨1⟩, some ⟨1⟩), (.truncate, ⟨2⟩, none)] := by
  refine ⟨fun h => absurd h.referencesInPlace ?_, ?_⟩
  · decide +kernel
  · decide +kernel

/-! ## What compaction leaves as it is -/

/-- The ids count from 0. -/
def Numbered (records : List TransactionRecord) : Prop :=
  ∀ (i : Nat) (record : TransactionRecord), records[i]? = some record → record.id = ⟨UInt64.ofNat i⟩

/-- The stream is what this very compaction makes of it: the latest schema and metadata records, numbered by position,
which refer to each other only, and behind them the marker of the same actor and time. -/
def AlreadyCompacted (actor : UserId) (timestampEpochMs : UInt64) (entries : List TransactionRecord) : Prop :=
  ∃ kept : List TransactionRecord,
    entries = kept ++ [⟨⟨UInt64.ofNat kept.length⟩, none, none, timestampEpochMs, actor, .truncate, none⟩] ∧
    Numbered kept ∧
    (∀ record ∈ kept, latestSchema kept = some record ∨ latestMetadata kept = some record) ∧
    ∀ record ∈ kept, ∀ refid ∈ record.refid, refid ∈ retainedIds kept

theorem numbered_renumberFrom (records : List TransactionRecord) : Numbered (renumberFrom 0 records) := by
  intro i record h
  rw [getElem?_renumberFrom] at h
  obtain ⟨_, -, rfl⟩ := Option.map_eq_some_iff.mp h
  rw [Nat.zero_add]

theorem Numbered.position_eq {kept : List TransactionRecord} (h : Numbered kept) (hlength : kept.length < 2 ^ 64)
    {i n : Nat} {record : TransactionRecord} (hi : kept[i]? = some record) (hn : n < 2 ^ 64)
    (hid : record.id = ⟨UInt64.ofNat n⟩) : i = n := by
  have hlt := (List.getElem?_eq_some_iff.mp hi).1
  have hvals : (UInt64.ofNat i).toNat = (UInt64.ofNat n).toNat :=
    congrArg (fun id : TransactionId => id.val.toNat) ((h i record hi).symm.trans hid)
  rwa [UInt64.toNat_ofNat_of_lt' (hlt.trans hlength), UInt64.toNat_ofNat_of_lt' hn] at hvals

theorem Numbered.id_ne_length {kept : List TransactionRecord} (h : Numbered kept) (hlength : kept.length < 2 ^ 64) :
    ∀ record ∈ kept, record.id ≠ ⟨UInt64.ofNat kept.length⟩ := by
  intro record hmem hid
  obtain ⟨i, hi⟩ := List.mem_iff_getElem?.mp hmem
  exact (List.getElem?_eq_some_iff.mp hi).1.ne (h.position_eq hlength hi hlength hid)

theorem Numbered.eq_of_id_eq {kept : List TransactionRecord} (h : Numbered kept) (hlength : kept.length < 2 ^ 64)
    {a b : TransactionRecord} (ha : a ∈ kept) (hb : b ∈ kept) (hid : a.id = b.id) : a = b := by
  obtain ⟨i, hi⟩ := List.mem_iff_getElem?.mp ha
  obtain ⟨j, hj⟩ := List.mem_iff_getElem?.mp hb
  have hpos := h.position_eq hlength hi ((List.getElem?_eq_some_iff.mp hj).1.trans hlength) (hid.trans (h j b hj))
  exact Option.some.inj (hi.symm.trans (hpos ▸ hj))

theorem renumberFrom_append (n : Nat) (records records' : List TransactionRecord) :
    renumberFrom n (records ++ records') = renumberFrom n records ++ renumberFrom (n + records.length) records' := by
  induction records generalizing n with
  | nil => simp [renumberFrom]
  | cons record records ih =>
    rw [List.cons_append, renumberFrom, ih, renumberFrom, List.cons_append, List.length_cons, Nat.add_right_comm,
      Nat.add_assoc]

theorem length_renumberFrom (n : Nat) (records : List TransactionRecord) :
    (renumberFrom n records).length = records.length := by
  induction records generalizing n with
  | nil => rfl
  | cons record records ih => rw [renumberFrom, List.length_cons, ih, List.length_cons]

section Marker

variable {kept : List TransactionRecord} {marker : TransactionRecord}

theorem retainedIds_append_truncate (h : marker.kind = .truncate) :
    retainedIds (kept ++ [marker]) = retainedIds kept := by
  simp [retainedIds, latestSchema, latestMetadata, latestOf, h]

theorem exists_of_mem_retainedIds {id : TransactionId} (h : id ∈ retainedIds entries) :
    ∃ record ∈ entries, (latestSchema entries = some record ∨ latestMetadata entries = some record) ∧
    record.id = id := by
  obtain ⟨record, hrecord, rfl⟩ := List.mem_map.mp h
  rcases List.mem_append.mp hrecord with h | h
  · have hlatest := Option.mem_toList.mp h
    exact ⟨record, (mem_of_latestOf hlatest).1, .inl hlatest, rfl⟩
  · have hlatest := Option.mem_toList.mp h
    exact ⟨record, (mem_of_latestOf hlatest).1, .inr hlatest, rfl⟩

theorem survivors_append_truncate (hmarker : marker.kind = .truncate)
    (hids : ∀ record ∈ kept, record.id ≠ marker.id) : survivors (kept ++ [marker]) = survivors kept := by
  have hdropped : marker.id ∉ retainedIds kept := by
    intro hid
    obtain ⟨record, hmem, -, hid⟩ := exists_of_mem_retainedIds hid
    exact hids record hmem hid
  rw [survivors, retainedIds_append_truncate hmarker, List.filter_append, survivors]
  simp [hdropped]

end Marker

/-- A compaction changes nothing exactly if the stream is already compacted. -/
theorem compactEntries_eq_self_iff (hlength : entries.length < 2 ^ 64) :
    compactEntriesToLatestSchemaAndMetadata entries actor timestampEpochMs = entries ↔
      AlreadyCompacted actor timestampEpochMs entries := by
  rw [compactEntries_eq, renumberFrom_append, List.length_map, Nat.zero_add]
  constructor
  · intro h
    have hcount := length_renumberFrom 0 ((survivors entries).map (keepRetainedRef (retainedIds entries)))
    have hnumbered := numbered_renumberFrom ((survivors entries).map (keepRetainedRef (retainedIds entries)))
    rw [List.length_map] at hcount
    generalize hkept : renumberFrom 0 ((survivors entries).map (keepRetainedRef (retainedIds entries))) = kept
      at h hcount hnumbered
    have hentries : entries = kept ++ [⟨⟨UInt64.ofNat kept.length⟩, none, none, timestampEpochMs, actor, .truncate,
        none⟩] := by rw [← h, hcount]; rfl
    have hshort : kept.length < 2 ^ 64 := by
      rw [hentries, List.length_append] at hlength
      omega
    have hsurvivors : survivors entries = kept := by
      have hsame : survivors entries = survivors kept := by
        rw [hentries]
        exact survivors_append_truncate rfl (hnumbered.id_ne_length hshort)
      rw [hsame] at hcount ⊢
      exact List.filter_sublist.eq_of_length hcount.symm
    have hretained : retainedIds entries = retainedIds kept := by
      rw [hentries]
      exact retainedIds_append_truncate rfl
    rw [hsurvivors, hretained] at hkept
    refine ⟨kept, hentries, hnumbered, fun record hmem => ?_, fun record hmem refid hrefid => ?_⟩
    · have hid : record.id ∈ retainedIds kept := by
        rw [← hsurvivors, survivors, hretained] at hmem
        simpa using (Bool.and_eq_true_iff.mp (List.mem_filter.mp hmem).2).1
      obtain ⟨latest, hlatest, hwhich, hsame⟩ := exists_of_mem_retainedIds hid
      rwa [hnumbered.eq_of_id_eq hshort hlatest hmem hsame] at hwhich
    · obtain ⟨i, hi⟩ := List.mem_iff_getElem?.mp hmem
      have hat := congrArg (·[i]?) hkept
      simp only [getElem?_renumberFrom, List.getElem?_map, hi, Option.map_some, Option.some.injEq] at hat
      have href := congrArg TransactionRecord.refid hat
      rw [Option.mem_def, ← href] at hrefid
      simpa using (Option.filter_eq_some_iff.mp hrefid).2
  · rintro ⟨kept, rfl, hnumbered, hlatest, hrefs⟩
    have hshort : kept.length < 2 ^ 64 := by
      rw [List.length_append] at hlength
      omega
    rw [survivors_append_truncate rfl (hnumbered.id_ne_length hshort), retainedIds_append_truncate rfl]
    have hsurvivors : survivors kept = kept :=
      List.filter_eq_self.mpr fun record hmem => (List.mem_filter.mp (mem_survivors_of_latest (hlatest record hmem))).2
    rw [hsurvivors]
    refine congrArg₂ (· ++ ·) (List.ext_getElem? fun i => ?_) rfl
    rw [getElem?_renumberFrom, List.getElem?_map]
    cases hi : kept[i]? with
    | none => rfl
    | some record =>
      have hid := hnumbered i record hi
      have hkeep : record.refid.filter (· ∈ retainedIds kept) = record.refid := by
        cases hrefid : record.refid with
        | none => rfl
        | some refid => simpa [Option.filter] using hrefs record (List.mem_of_getElem? hi) refid hrefid
      simp only [Option.map_some, keepRetainedRef, hkeep, Nat.zero_add, ← hid]

end DistDb.Wal
