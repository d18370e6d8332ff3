import DistDb.Execution.Theorems
import DistDb.Lib.Increasing
import DistDb.Mutation.Log
import DistDb.Wal.Compaction
import DistDb.Wal.Manager

/-! # Realigned streams

Realignment renames references through one table of ids. Group ids are not ids of records: one that the table does not
have is dropped, and the record then counts as one without a group. -/

namespace DistDb.Execution
open Lib Wal Mutation

/-! ## Live rows of a sorted stream -/

section Sorted

variable {schema : TableSchema} {records : List TransactionRecord} {r d : TransactionRecord} {row : RowMap}

/-- An insert or update whose payload is this row. -/
def HoldsRow (schema : TableSchema) (record : TransactionRecord) (row : RowMap) : Prop :=
  (record.kind = .insert ∨ record.kind = .update) ∧
    ∃ payload, record.payload = some payload ∧ decodeRowPayload schema payload = .ok row

/-- `d` is a later delete of `r`. -/
def Deletes (d r : TransactionRecord) : Prop := r.key < d.key ∧ d.kind = .delete ∧ d.refid = some r.id

theorem mem_post_iff {pre post : List TransactionRecord} (h : InOrder (pre ++ r :: post)) :
    d ∈ post ↔ d ∈ pre ++ r :: post ∧ r.key < d.key := by
  obtain ⟨-, hrest, hpre⟩ := List.pairwise_append.mp h
  constructor
  · intro hd
    exact ⟨List.mem_append_right _ (List.mem_cons_of_mem _ hd), (List.pairwise_cons.mp hrest).1 d hd⟩
  · rintro ⟨hmem, hlt⟩
    rcases List.mem_append.mp hmem with hmem | hmem
    · have := hpre d hmem r List.mem_cons_self
      omega
    · rcases List.mem_cons.mp hmem with rfl | hmem
      · exact absurd hlt (lt_irrefl _)
      · exact hmem

theorem nodup_ids (h : InOrder records) : (records.map (·.id)).Nodup := by
  refine List.pairwise_map.mpr (h.imp fun hlt heq => ?_)
  rw [TransactionRecord.key, TransactionRecord.key, heq] at hlt
  exact lt_irrefl _ hlt

theorem collectLiveRows_eq_live (schema : TableSchema) (h : InOrder records) (applyWorkers : Nat) :
    collectLiveRowsFromRecords schema records applyWorkers = live (logEvents schema records) := by
  rw [collectLiveRowsFromRecords_eq_replay, replayEvents_logEvents (nodup_ids h)]

theorem mem_collectLiveRows (h : InOrder records) {applyWorkers : Nat} {id : UInt64} :
    (id, row) ∈ collectLiveRowsFromRecords schema records applyWorkers ↔
      ∃ r ∈ records, r.id.val = id ∧ HoldsRow schema r row ∧ Visible records r ∧
        ∀ d ∈ records, Deletes d r → ¬ Visible records d := by
  rw [collectLiveRows_eq_live schema h, mem_live_logEvents]
  constructor
  · rintro ⟨pre, r, post, rfl, hput, hpost⟩
    obtain ⟨hid, hrow⟩ := recordEvent_eq_put.mp hput
    obtain ⟨hvisible, hkind, hpayload⟩ := decodeLiveRow_eq_some.mp hrow
    have hvisible' : Visible (pre ++ r :: post) r := by
      refine (recordVisibleForLiveRowApply_iff ?_ ?_).mp hvisible <;> rcases hkind with hkind | hkind <;> simp [hkind]
    refine ⟨r, List.mem_append_right _ List.mem_cons_self, hid, ⟨hkind, hpayload⟩, hvisible', ?_⟩
    rintro d hd ⟨hlt, hdelete, href⟩ hd'
    refine hpost d ((mem_post_iff h).mpr ⟨hd, hlt⟩) (recordEvent_eq_del.mpr ⟨?_, hdelete, ?_⟩)
    · exact (recordVisibleForLiveRowApply_iff (by simp [hdelete]) (by simp [hdelete])).mpr hd'
    · rw [href, ← hid]
  · rintro ⟨r, hr, hid, ⟨hkind, hpayload⟩, hvisible, hnot⟩
    obtain ⟨pre, post, rfl⟩ := List.append_of_mem hr
    refine ⟨pre, r, post, rfl, recordEvent_eq_put.mpr ⟨hid, decodeLiveRow_eq_some.mpr ⟨?_, hkind, hpayload⟩⟩, ?_⟩
    · refine (recordVisibleForLiveRowApply_iff ?_ ?_).mpr hvisible <;> rcases hkind with hkind | hkind <;> simp [hkind]
    · intro d hd hdel
      obtain ⟨hd', hdelete, href⟩ := recordEvent_eq_del.mp hdel
      obtain ⟨hmem, hlt⟩ := (mem_post_iff h).mp hd
      refine hnot d hmem ⟨hlt, hdelete, by rw [href, ← hid]⟩ ?_
      exact (recordVisibleForLiveRowApply_iff (by simp [hdelete]) (by simp [hdelete])).mp hd'

theorem pairwise_collectLiveRows (h : InOrder records) (applyWorkers : Nat) :
    (collectLiveRowsFromRecords schema records applyWorkers).Pairwise (·.1.toNat < ·.1.toNat) := by
  rw [collectLiveRows_eq_live schema h]
  have hids : (records.map (·.id.val)).Pairwise (·.toNat < ·.toNat) := List.pairwise_map.mpr h
  have hsublist := (map_fst_live_sublist (logEvents schema records)).trans (putKeys_map_recordEvent_sublist records)
  have hkeys : ((live (logEvents schema records)).map Prod.fst).Pairwise (·.toNat < ·.toNat) := hids.sublist hsublist
  rwa [List.pairwise_map] at hkeys

theorem eq_iff_of_pairwise {rows rows' : List (UInt64 × RowMap)} (h : rows.Pairwise (·.1.toNat < ·.1.toNat))
    (h' : rows'.Pairwise (·.1.toNat < ·.1.toNat)) : rows = rows' ↔ ∀ entry, entry ∈ rows ↔ entry ∈ rows' := by
  refine ⟨fun heq entry => by rw [heq], fun hmem => ?_⟩
  have hnodup : ∀ {rows : List (UInt64 × RowMap)}, rows.Pairwise (·.1.toNat < ·.1.toNat) → rows.Nodup :=
    fun h => h.imp fun hlt heq => by rw [heq] at hlt; exact lt_irrefl _ hlt
  refine List.Perm.eq_of_pairwise ?_ h h' ((List.perm_ext_iff_of_nodup (hnodup h) (hnodup h')).mpr hmem)
  intro a b _ _ hlt hgt
  omega

end Sorted

/-! ## Moved records -/

section Moved

variable {entries : List TransactionRecord} {id : TransactionId} {r d : TransactionRecord}

def liveRecords (entries : List TransactionRecord) : List TransactionRecord := entries.filter (·.kind != .ignore)

def keptIds (entries : List TransactionRecord) : List TransactionId := (liveRecords entries).map (·.id)

def position (entries : List TransactionRecord) (id : TransactionId) : UInt64 :=
  UInt64.ofNat ((keptIds entries).idxOf id)

def newId (entries : List TransactionRecord) (id : TransactionId) : Option TransactionId :=
  if id ∈ keptIds entries then some ⟨position entries id⟩ else none

def moved (entries : List TransactionRecord) (record : TransactionRecord) : TransactionRecord :=
  { record with
    id := ⟨position entries record.id⟩
    refid := record.refid.bind (newId entries)
    groupid := record.groupid.bind (newId entries) }

theorem mem_liveRecords : r ∈ liveRecords entries ↔ r ∈ entries ∧ r.kind ≠ .ignore := by
  simp [liveRecords]

theorem inOrder_liveRecords (h : InOrder entries) : InOrder (liveRecords entries) := h.sublist List.filter_sublist

theorem nodup_keptIds (h : InOrder entries) : (keptIds entries).Nodup := nodup_ids (inOrder_liveRecords h)

theorem pairwise_keptIds (h : InOrder entries) : ((keptIds entries).map (·.val.toNat)).Pairwise (· < ·) := by
  rw [keptIds, List.map_map]
  exact List.pairwise_map.mpr (inOrder_liveRecords h)

theorem toNat_position (h : InOrder entries) (hid : id ∈ keptIds entries) :
    (position entries id).toNat = (keptIds entries).idxOf id := by
  have hget : ((keptIds entries).map (·.val.toNat))[(keptIds entries).idxOf id]? = some id.val.toNat := by
    rw [List.getElem?_map, List.getElem?_idxOf hid]
    rfl
  have hle := le_of_getElem? (pairwise_keptIds h) hget
  have hlt := id.val.toNat_lt
  rw [position, UInt64.toNat_ofNat_of_lt' (show _ < 2 ^ 64 by omega)]

theorem position_lt_iff (h : InOrder entries) {id' : TransactionId} (hid : id ∈ keptIds entries)
    (hid' : id' ∈ keptIds entries) :
    (position entries id).toNat < (position entries id').toNat ↔ id.val.toNat < id'.val.toNat := by
  have hget : ∀ id ∈ keptIds entries,
      ((keptIds entries).map (·.val.toNat))[(keptIds entries).idxOf id]? = some id.val.toNat := by
    intro id hid
    rw [List.getElem?_map, List.getElem?_idxOf hid]
    rfl
  rw [toNat_position h hid, toNat_position h hid']
  constructor
  · exact lt_of_getElem?_of_lt (pairwise_keptIds h) (hget id hid) (hget id' hid')
  · intro hlt
    by_contra hge
    rcases (not_lt.mp hge).lt_or_eq with hgt | heq
    · have := lt_of_getElem?_of_lt (pairwise_keptIds h) (hget id' hid') (hget id hid) hgt
      omega
    · have hsame := hget id' hid'
      rw [heq, hget id hid, Option.some.injEq] at hsame
      omega

theorem position_inj (h : InOrder entries) {id' : TransactionId} (hid : id ∈ keptIds entries)
    (hid' : id' ∈ keptIds entries) : position entries id = position entries id' ↔ id = id' := by
  refine ⟨fun heq => ?_, congrArg _⟩
  have hnat := congrArg UInt64.toNat heq
  rw [toNat_position h hid, toNat_position h hid'] at hnat
  exact (List.idxOf_inj hid).mp hnat

theorem newId_eq_some {new : TransactionId} :
    newId entries id = some new ↔ id ∈ keptIds entries ∧ new = ⟨position entries id⟩ := by
  unfold newId
  split
  · next hid => simp [hid, eq_comm]
  · next hid => simp [hid]

theorem idxOf?_of_getElem? {ids : List TransactionId} (hnodup : ids.Nodup) {i : Nat} (h : ids[i]? = some id) :
    ids.idxOf? id = some i := by
  obtain ⟨hlt, heq⟩ := List.getElem?_eq_some_iff.mp h
  rw [List.idxOf?, List.findIdx?_eq_some_iff_getElem]
  refine ⟨hlt, by simp [heq], fun j hj hsame => ?_⟩
  rw [beq_iff_eq, ← heq, hnodup.getElem_inj_iff] at hsame
  omega

theorem idRemap_eq_newId (h : InOrder entries) : Stream.idRemap (liveRecords entries) = newId entries := by
  funext id
  unfold Stream.idRemap newId
  split
  · next hid =>
      have hlt := List.idxOf_lt_length_of_mem hid
      have hlast : (keptIds entries).reverse[(keptIds entries).length - 1 - (keptIds entries).idxOf id]? = some id := by
        rw [List.getElem?_reverse (by omega), ← List.getElem?_idxOf hid]
        congr 1
        omega
      have hremap := idxOf?_of_getElem? (List.nodup_reverse.mpr (nodup_keptIds h)) hlast
      have hlength : (liveRecords entries).length = (keptIds entries).length := (List.length_map _).symm
      rw [← keptIds, hremap, Option.map_some, hlength, position]
      congr 3
      omega
  · next hid =>
      rw [← keptIds, List.idxOf?_eq_none_iff.mpr (by simpa using hid)]
      rfl

theorem realignedRecords_eq (h : InOrder entries) :
    Stream.realignedRecords entries = (liveRecords entries).map (moved entries) := by
  apply List.ext_getElem?
  intro i
  rw [Stream.realignedRecords, ← liveRecords, idRemap_eq_newId h, getElem?_renumberFrom, List.getElem?_map,
    List.getElem?_map]
  cases hr : (liveRecords entries)[i]? with
  | none => rfl
  | some record =>
    have hposition : (keptIds entries).idxOf record.id = i := by
      have hid : (keptIds entries)[i]? = some record.id := by rw [keptIds, List.getElem?_map, hr]; rfl
      obtain ⟨hlt, heq⟩ := List.getElem?_eq_some_iff.mp hid
      rw [← heq, (nodup_keptIds h).idxOf_getElem i hlt]
    simp [moved, Stream.realignRecord, position, hposition]

theorem inOrder_realignedRecords (h : InOrder entries) : InOrder (Stream.realignedRecords entries) := by
  rw [realignedRecords_eq h]
  refine List.pairwise_map.mpr ((inOrder_liveRecords h).imp_of_mem fun hr hd hlt => ?_)
  exact (position_lt_iff h (List.mem_map_of_mem hr) (List.mem_map_of_mem hd)).mpr hlt

/-! ## Visibility -/

/-- A record of a group that is not committed, or was aborted, and whose id is the id of no record that is kept. -/
def Appears (entries : List TransactionRecord) (record : TransactionRecord) : Prop :=
  ¬ Visible entries record ∧ ∃ g ∈ record.groupid, g ∉ keptIds entries

theorem bind_newId_eq_some {id? : Option TransactionId} {new : TransactionId} : id?.bind (newId entries) = some new ↔
      ∃ id ∈ id?, id ∈ keptIds entries ∧ new = ⟨position entries id⟩ := by
  rw [Option.bind_eq_some_iff]
  exact exists_congr fun id => and_congr_right fun _ => newId_eq_some

theorem bind_newId_eq_some_position (h : InOrder entries) {id? : Option TransactionId} (hid : id ∈ keptIds entries) :
    id?.bind (newId entries) = some ⟨position entries id⟩ ↔ id? = some id := by
  rw [bind_newId_eq_some]
  constructor
  · rintro ⟨id', hid', hkept, heq⟩
    rw [TransactionId.mk.injEq, position_inj h hid hkept] at heq
    rw [heq]
    exact hid'
  · rintro rfl
    exact ⟨id, rfl, hid, rfl⟩

theorem exists_moved_end_iff (h : InOrder entries) {kind : TransactionKind} (hkind : kind ≠ .ignore)
    (hid : id ∈ keptIds entries) :
    (∃ c ∈ (liveRecords entries).map (moved entries), c.kind = kind ∧ c.groupid = some ⟨position entries id⟩) ↔
      ∃ c ∈ entries, c.kind = kind ∧ c.groupid = some id := by
  constructor
  · rintro ⟨c', hc', hkind', hgroup⟩
    obtain ⟨c, hc, rfl⟩ := List.mem_map.mp hc'
    exact ⟨c, (mem_liveRecords.mp hc).1, hkind', (bind_newId_eq_some_position h hid).mp hgroup⟩
  · rintro ⟨c, hc, rfl, hgroup⟩
    exact ⟨moved entries c, List.mem_map_of_mem (mem_liveRecords.mpr ⟨hc, hkind⟩), rfl,
      (bind_newId_eq_some_position h hid).mpr hgroup⟩

theorem visible_moved_iff (h : InOrder entries) :
    Visible (Stream.realignedRecords entries) (moved entries r) ↔ Visible entries r ∨ Appears entries r := by
  rw [realignedRecords_eq h]
  by_cases hvisible : Visible entries r
  · refine iff_of_true (fun g hg => ?_) (.inl hvisible)
    obtain ⟨g, hgroup, hkept, rfl⟩ := bind_newId_eq_some.mp hg
    rw [exists_moved_end_iff h (by decide) hkept, exists_moved_end_iff h (by decide) hkept]
    exact hvisible g hgroup
  · rw [or_iff_right hvisible, Appears, and_iff_right hvisible]
    constructor
    · intro hmoved
      by_contra hkept
      refine hvisible fun g hg => ?_
      have hid : g ∈ keptIds entries := by
        by_contra hnot
        exact hkept ⟨g, hg, hnot⟩
      have hends := hmoved ⟨position entries g⟩ ((bind_newId_eq_some_position h hid).mpr hg)
      rwa [exists_moved_end_iff h (by decide) hid, exists_moved_end_iff h (by decide) hid] at hends
    · rintro ⟨g, hg, hnot⟩ g' hg'
      obtain ⟨g'', hgroup, hkept, -⟩ := bind_newId_eq_some.mp hg'
      cases hg.symm.trans hgroup
      exact absurd hkept hnot

theorem deletes_moved_iff (h : InOrder entries) (hr : r ∈ liveRecords entries) (hd : d ∈ liveRecords entries) :
    Deletes (moved entries d) (moved entries r) ↔ Deletes d r := by
  have hrid : r.id ∈ keptIds entries := List.mem_map_of_mem hr
  have hdid : d.id ∈ keptIds entries := List.mem_map_of_mem hd
  exact and_congr (position_lt_iff h hrid hdid) (and_congr_right fun _ => bind_newId_eq_some_position h hrid)

end Moved

/-! ## Rows before and after -/

section Rows

variable {schema : TableSchema} {entries : List TransactionRecord} {r : TransactionRecord} {row : RowMap}

def LiveUnder (entries : List TransactionRecord) (V : TransactionRecord → Prop) (r : TransactionRecord) : Prop :=
  V r ∧ ∀ d ∈ entries, Deletes d r → ¬ V d

theorem HoldsRow.mem_liveRecords (h : HoldsRow schema r row) (hr : r ∈ entries) : r ∈ liveRecords entries := by
  refine Execution.mem_liveRecords.mpr ⟨hr, ?_⟩
  rcases h.1 with hkind | hkind <;> simp [hkind]

theorem mem_realigned_iff (h : InOrder entries) {applyWorkers : Nat} {id : UInt64} :
    (id, row) ∈ collectLiveRowsFromRecords schema (Stream.realignedRecords entries) applyWorkers ↔
      ∃ r ∈ entries, position entries r.id = id ∧ HoldsRow schema r row ∧
        LiveUnder entries (fun r => Visible entries r ∨ Appears entries r) r := by
  rw [mem_collectLiveRows (inOrder_realignedRecords h)]
  have hrealigned := realignedRecords_eq h
  constructor
  · rintro ⟨r', hr', rfl, hrow, hvisible, hnot⟩
    rw [hrealigned] at hr'
    obtain ⟨r, hr, rfl⟩ := List.mem_map.mp hr'
    refine ⟨r, (mem_liveRecords.mp hr).1, rfl, hrow, (visible_moved_iff h).mp hvisible, fun d hd hdeletes hd' => ?_⟩
    have hlive : d ∈ liveRecords entries := mem_liveRecords.mpr ⟨hd, by simp [hdeletes.2.1]⟩
    refine hnot (moved entries d) ?_ ((deletes_moved_iff h hr hlive).mpr hdeletes) ((visible_moved_iff h).mpr hd')
    rw [hrealigned]
    exact List.mem_map_of_mem hlive
  · rintro ⟨r, hr, rfl, hrow, hvisible, hnot⟩
    have hlive := hrow.mem_liveRecords hr
    refine ⟨moved entries r, ?_, rfl, hrow, (visible_moved_iff h).mpr hvisible, fun d' hd' hdeletes hvisible' => ?_⟩
    · rw [hrealigned]
      exact List.mem_map_of_mem hlive
    · rw [hrealigned] at hd'
      obtain ⟨d, hd, rfl⟩ := List.mem_map.mp hd'
      exact hnot d (mem_liveRecords.mp hd).1 ((deletes_moved_iff h hlive hd).mp hdeletes)
        ((visible_moved_iff h).mp hvisible')

theorem realigned_rows_iff (h : InOrder entries) (applyWorkers : Nat) :
    collectLiveRowsFromRecords schema (Stream.realignedRecords entries) applyWorkers =
        (collectLiveRowsFromRecords schema entries applyWorkers).map
          (fun entry => (position entries ⟨entry.1⟩, entry.2)) ↔
      ∀ r ∈ entries, (∃ row, HoldsRow schema r row) →
        (LiveUnder entries (fun r => Visible entries r ∨ Appears entries r) r ↔
          LiveUnder entries (Visible entries) r) := by
  have hbefore : ∀ id row, (id, row) ∈ (collectLiveRowsFromRecords schema entries applyWorkers).map
      (fun entry => (position entries ⟨entry.1⟩, entry.2)) ↔
      ∃ r ∈ entries, position entries r.id = id ∧ HoldsRow schema r row ∧ LiveUnder entries (Visible entries) r := by
    intro id row
    rw [List.mem_map]
    constructor
    · rintro ⟨⟨id', row'⟩, hmem, heq⟩
      obtain ⟨r, hr, rfl, hrow, hlive⟩ := (mem_collectLiveRows h).mp hmem
      cases heq
      exact ⟨r, hr, rfl, hrow, hlive⟩
    · rintro ⟨r, hr, rfl, hrow, hlive⟩
      exact ⟨(r.id.val, row), (mem_collectLiveRows h).mpr ⟨r, hr, rfl, hrow, hlive⟩, rfl⟩
  have hsorted : ((collectLiveRowsFromRecords schema entries applyWorkers).map
      (fun entry => (position entries ⟨entry.1⟩, entry.2))).Pairwise (·.1.toNat < ·.1.toNat) := by
    refine List.pairwise_map.mpr ((pairwise_collectLiveRows h applyWorkers).imp_of_mem fun {a b} ha hb hlt => ?_)
    have hkept : ∀ entry ∈ collectLiveRowsFromRecords schema entries applyWorkers,
        (⟨entry.1⟩ : TransactionId) ∈ keptIds entries := by
      rintro ⟨id, row⟩ hentry
      obtain ⟨r, hr, rfl, hrow, -⟩ := (mem_collectLiveRows h).mp hentry
      exact List.mem_map_of_mem (hrow.mem_liveRecords hr)
    exact (position_lt_iff h (hkept a ha) (hkept b hb)).mpr hlt
  rw [eq_iff_of_pairwise (pairwise_collectLiveRows (inOrder_realignedRecords h) applyWorkers) hsorted]
  constructor
  · rintro hsame r hr ⟨row, hrow⟩
    have hkept : r.id ∈ keptIds entries := List.mem_map_of_mem (hrow.mem_liveRecords hr)
    have hunique : ∀ V : TransactionRecord → Prop, (∃ r' ∈ entries, position entries r'.id = position entries r.id ∧
        HoldsRow schema r' row ∧ LiveUnder entries V r') ↔ LiveUnder entries V r := by
      intro V
      constructor
      · rintro ⟨r', hr', heq, hrow', hlive⟩
        rw [position_inj h (List.mem_map_of_mem (hrow'.mem_liveRecords hr')) hkept] at heq
        rwa [← List.inj_on_of_nodup_map (nodup_ids h) hr' hr heq]
      · exact fun hlive => ⟨r, hr, rfl, hrow, hlive⟩
    rw [← hunique, ← hunique, ← mem_realigned_iff h, ← hbefore]
    exact hsame _
  · rintro hlive ⟨id, row⟩
    rw [mem_realigned_iff h, hbefore]
    refine exists_congr fun r => and_congr_right fun hr => and_congr_right fun _ => and_congr_right fun hrow => ?_
    exact hlive r hr ⟨row, hrow⟩

/-- Rows that lose a group that does not count are deleted all the same, and deletes that lose one delete only rows
that are deleted without them. -/
structure RealignsRows (schema : TableSchema) (entries : List TransactionRecord) : Prop where
  rows_deleted : ∀ r ∈ entries, (∃ row, HoldsRow schema r row) → Appears entries r →
    ∃ d ∈ entries, Deletes d r ∧ (Visible entries d ∨ Appears entries d)
  deletes_idle : ∀ d ∈ entries, Appears entries d → ∀ r ∈ entries, (∃ row, HoldsRow schema r row) → Deletes d r →
    Visible entries r → ∃ d' ∈ entries, Deletes d' r ∧ Visible entries d'

theorem realignsRows_iff : RealignsRows schema entries ↔ ∀ r ∈ entries, (∃ row, HoldsRow schema r row) →
    (LiveUnder entries (fun r => Visible entries r ∨ Appears entries r) r ↔ LiveUnder entries (Visible entries) r) := by
  constructor
  · intro h r hr hrow
    constructor
    · rintro ⟨hvisible | happears, hnot⟩
      · exact ⟨hvisible, fun d hd hdeletes hd' => hnot d hd hdeletes (.inl hd')⟩
      · obtain ⟨d, hd, hdeletes, hd'⟩ := h.rows_deleted r hr hrow happears
        exact absurd hd' (hnot d hd hdeletes)
    · rintro ⟨hvisible, hnot⟩
      refine ⟨.inl hvisible, fun d hd hdeletes hd' => ?_⟩
      rcases hd' with hd' | happears
      · exact hnot d hd hdeletes hd'
      · obtain ⟨d', hmem, hdeletes', hvisible'⟩ := h.deletes_idle d hd happears r hr hrow hdeletes hvisible
        exact hnot d' hmem hdeletes' hvisible'
  · intro h
    refine ⟨fun r hr hrow happears => ?_, fun d hd happears r hr hrow hdeletes hvisible => ?_⟩
    · by_contra hnot
      push Not at hnot
      have hlive := (h r hr hrow).mp ⟨.inr happears, fun d hd hdeletes hd' =>
        hd'.elim (hnot d hd hdeletes).1 (hnot d hd hdeletes).2⟩
      exact happears.1 hlive.1
    · by_contra hnot
      push Not at hnot
      have hlive := (h r hr hrow).mpr ⟨hvisible, fun d hd hdeletes => hnot d hd hdeletes⟩
      exact hlive.2 d hd hdeletes (.inr happears)

end Rows

/-! ## The operation -/

section Operation

theorem entries_of_realign {env : WalEnv} {io : StreamIo} {stream stream' : Stream} {entries : List TransactionRecord}
    (hentries : (stream.hydrateStreamIfNeeded env io).entries = some entries)
    (h : stream.realignStreamRecords env io = (stream', .ok ())) :
    stream'.entries = some (Stream.realignedRecords entries) := by
  unfold Stream.realignStreamRecords at h
  simp only [hentries] at h
  split at h
  · split at h
    · cases h
    · split at h
      · cases h
      · cases h
        rfl
  · cases h

/-- Realignment keeps the rows of a sorted stream, up to the ids, if and only if no record that loses its group
changes them. -/
theorem realigned_rows_preserved_iff (schema : TableSchema) (applyWorkers : Nat) (env : WalEnv) (io : StreamIo)
    (stream stream' : Stream) (entries : List TransactionRecord)
    (hentries : (stream.hydrateStreamIfNeeded env io).entries = some entries) (hsorted : InOrder entries)
    (hrealign : stream.realignStreamRecords env io = (stream', .ok ())) :
    (∃ realigned, stream'.entries = some realigned ∧
      collectLiveRowsFromRecords schema realigned applyWorkers =
        (collectLiveRowsFromRecords schema entries applyWorkers).map
          (fun entry => (position entries ⟨entry.1⟩, entry.2))) ↔
      RealignsRows schema entries := by
  rw [entries_of_realign hentries hrealign, realignsRows_iff, ← realigned_rows_iff hsorted applyWorkers]
  simp

def committedStream : List TransactionRecord :=
  [rowRecord 1 .insert (some ⟨9⟩) none [some [97]], markerRecord 4 .writeCommit ⟨9⟩]

theorem committed_rows_preserved :
    ∃ stream', (⟨some committedStream, some ⟨true, true⟩, some makeHeader⟩ : Stream).realignStreamRecords
        (.unset .plain) .success = (stream', .ok ()) ∧
      ∃ realigned, stream'.entries = some realigned ∧
        collectLiveRowsFromRecords nameSchema realigned 1 =
          (collectLiveRowsFromRecords nameSchema committedStream 1).map
            (fun entry => (position committedStream ⟨entry.1⟩, entry.2)) := by
  have hvisible : ∀ r ∈ committedStream, Visible committedStream r := by decide
  have hsorted : committedStream.Pairwise (·.key < ·.key) := by decide
  refine ⟨_, rfl, (realigned_rows_preserved_iff nameSchema 1 (.unset .plain) .success
    ⟨some committedStream, some ⟨true, true⟩, some makeHeader⟩ _ committedStream rfl hsorted rfl).mpr
    ⟨fun r hr _ happears => ?_, fun d hd happears => ?_⟩⟩
  · exact absurd (hvisible r hr) happears.1
  · exact absurd (hvisible d hd) happears.1

/-- A row of an open group and one of an aborted group appear, and a delete of an open group takes effect. -/
theorem groups_lost_by_realignment :
    collectLiveRowsFromRecords nameSchema [rowRecord 1 .insert (some ⟨9⟩) none [some [97]]] 1 = [] ∧
    collectLiveRowsFromRecords nameSchema
      (Stream.realignedRecords [rowRecord 1 .insert (some ⟨9⟩) none [some [97]]]) 1 = [(0, nameRow [97])] ∧
    collectLiveRowsFromRecords nameSchema
      [rowRecord 1 .insert (some ⟨9⟩) none [some [97]], markerRecord 4 .writeAbort ⟨9⟩] 1 = [] ∧
    collectLiveRowsFromRecords nameSchema (Stream.realignedRecords
      [rowRecord 1 .insert (some ⟨9⟩) none [some [97]], markerRecord 4 .writeAbort ⟨9⟩]) 1 = [(0, nameRow [97])] ∧
    collectLiveRowsFromRecords nameSchema
      [rowRecord 1 .insert none none [some [97]], rowRecord 2 .delete (some ⟨9⟩) (some ⟨1⟩) []] 1 =
        [(1, nameRow [97])] ∧
    collectLiveRowsFromRecords nameSchema (Stream.realignedRecords
      [rowRecord 1 .insert none none [some [97]], rowRecord 2 .delete (some ⟨9⟩) (some ⟨1⟩) []]) 1 = [] := by
  refine ⟨?_, ?_, ?_, ?_, ?_, ?_⟩ <;> decide +kernel

end Operation

/-! ## Realigning again -/

variable {entries : List TransactionRecord}

/-- Records with their positions as ids, none of which is to be dropped or refers to one that is not there. -/
structure Realigned (records : List TransactionRecord) : Prop where
  ids : ∀ (i : ℕ) (record : TransactionRecord), records[i]? = some record → record.id = ⟨UInt64.ofNat i⟩
  inOrder : InOrder records
  live : liveRecords records = records
  references : ∀ record ∈ records, ∀ id, id ∈ record.refid ∨ id ∈ record.groupid → id ∈ keptIds records

theorem Realigned.realignedRecords_eq (h : Realigned entries) : Stream.realignedRecords entries = entries := by
  have hposition : ∀ id ∈ keptIds entries, position entries id = id.val := by
    intro id hid
    have hget := List.getElem?_idxOf hid
    nth_rewrite 1 [keptIds] at hget
    rw [h.live, List.getElem?_map, Option.map_eq_some_iff] at hget
    obtain ⟨record, hrecord, rfl⟩ := hget
    exact (congrArg TransactionId.val (h.ids _ record hrecord)).symm
  have hnew : ∀ id? : Option TransactionId, (∀ id ∈ id?, id ∈ keptIds entries) → id?.bind (newId entries) = id? := by
    rintro (_ | id) hid
    · rfl
    · rw [Option.bind_some, newId, if_pos (hid id rfl), hposition id (hid id rfl)]
  rw [Execution.realignedRecords_eq h.inOrder, h.live]
  refine (List.map_congr_left fun record hrecord => ?_).trans (List.map_id _)
  have hid : record.id ∈ keptIds entries := List.mem_map_of_mem (h.live.symm ▸ hrecord)
  rw [moved, hposition _ hid, hnew _ fun id hid => h.references record hrecord id (.inl hid),
    hnew _ fun id hid => h.references record hrecord id (.inr hid)]
  rfl

theorem realigned_realignedRecords (hlength : entries.length ≤ 2 ^ 64) :
    Realigned (Stream.realignedRecords entries) := by
  have hget : ∀ i r, (Stream.realignedRecords entries)[i]? = some r → ∃ record ∈ liveRecords entries,
      r = { Stream.realignRecord (Stream.idRemap (liveRecords entries)) record with id := ⟨UInt64.ofNat i⟩ } := by
    intro i r h
    rw [Stream.realignedRecords, getElem?_renumberFrom, List.getElem?_map, Option.map_map, Nat.zero_add] at h
    obtain ⟨record, hrecord, rfl⟩ := Option.map_eq_some_iff.mp h
    exact ⟨record, List.mem_of_getElem? hrecord, rfl⟩
  have hlive : liveRecords (Stream.realignedRecords entries) = Stream.realignedRecords entries := by
    refine List.filter_eq_self.mpr fun r hr => ?_
    obtain ⟨i, hi⟩ := List.mem_iff_getElem?.mp hr
    obtain ⟨record, hrecord, rfl⟩ := hget i r hi
    simpa [Stream.realignRecord] using (mem_liveRecords.mp hrecord).2
  -- A reference is renamed to a position among the records that are kept, which is the id of one of them.
  have hremap : ∀ id new, Stream.idRemap (liveRecords entries) id = some new →
      new ∈ keptIds (Stream.realignedRecords entries) := by
    intro id new h
    obtain ⟨fromEnd, hfound, rfl⟩ := Option.map_eq_some_iff.mp h
    obtain ⟨hlt, -⟩ := List.findIdx?_eq_some_iff_getElem.mp hfound
    rw [List.length_reverse, List.length_map] at hlt
    have hj : (liveRecords entries).length - 1 - fromEnd < (liveRecords entries).length := by omega
    have hmoved : ∃ r, (Stream.realignedRecords entries)[(liveRecords entries).length - 1 - fromEnd]? = some r := by
      rw [Stream.realignedRecords, getElem?_renumberFrom, List.getElem?_map, ← liveRecords, List.getElem?_eq_getElem hj]
      exact ⟨_, rfl⟩
    obtain ⟨r, hr⟩ := hmoved
    obtain ⟨record, -, rfl⟩ := hget _ r hr
    rw [keptIds, hlive]
    exact List.mem_map_of_mem (List.mem_of_getElem? hr)
  refine ⟨fun i r hr => ?_, ?_, hlive, fun r hr id hid => ?_⟩
  · obtain ⟨record, -, rfl⟩ := hget i r hr
    rfl
  · refine List.pairwise_map.mp ((pairwise_key_renumberFrom_iff _).mpr ?_)
    rw [List.length_map]
    exact (List.length_filter_le ..).trans hlength
  · obtain ⟨i, hi⟩ := List.mem_iff_getElem?.mp hr
    obtain ⟨record, -, rfl⟩ := hget i r hi
    rcases hid with hid | hid
    · obtain ⟨old, -, hnew⟩ := Option.bind_eq_some_iff.mp hid
      exact hremap old id hnew
    · obtain ⟨old, -, hnew⟩ := Option.bind_eq_some_iff.mp hid
      exact hremap old id hnew

/-- Realignment leaves no reference to a record that is not there, and to realign once more changes nothing. -/
theorem realignment_settles (entries : List TransactionRecord) (hlength : entries.length ≤ 2 ^ 64) :
    (∀ record ∈ Stream.realignedRecords entries, ∀ id, id ∈ record.refid ∨ id ∈ record.groupid →
      ∃ other ∈ Stream.realignedRecords entries, other.id = id) ∧
    Stream.realignedRecords (Stream.realignedRecords entries) = Stream.realignedRecords entries := by
  have h := realigned_realignedRecords hlength
  refine ⟨fun record hrecord id hid => ?_, h.realignedRecords_eq⟩
  have hkept := h.references record hrecord id hid
  rw [keptIds, h.live] at hkept
  exact List.mem_map.mp hkept

theorem committed_stream_settles :
    Stream.realignedRecords (Stream.realignedRecords committedStream) = Stream.realignedRecords committedStream :=
  (realignment_settles committedStream (by decide)).2

end DistDb.Execution
