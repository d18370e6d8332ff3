import DistDb.Lib.Pages
import DistDb.Lib.Run
import DistDb.Table.RuntimeIndex

/-! # Posting pages

The references of a key of a non-unique index: none, one that is kept inline, or several in sorted pages. -/

namespace DistDb.Indexing
open Lib

abbrev NonZeroU64 := { n : UInt64 // n ≠ 0 }

namespace NonZeroU64

/-- `pack_row_ref`: the largest reference has no stored form. -/
def pack (rowRef : UInt64) : Option NonZeroU64 := if h : rowRef + 1 ≠ 0 then some ⟨rowRef + 1, h⟩ else none

/-- `unpack_row_ref`, where the subtraction never saturates. -/
def unpack (rowRef : NonZeroU64) : UInt64 := rowRef.val - 1

def rank (rowRef : NonZeroU64) : ℕ := rowRef.val.toNat

theorem rank_injective : Function.Injective rank := fun _ _ h => Subtype.ext (UInt64.toNat_inj.mp h)

theorem rank_pos (rowRef : NonZeroU64) : 0 < rank rowRef :=
  Nat.pos_of_ne_zero fun hzero => rowRef.2 (UInt64.toNat_inj.mp hzero)

theorem pack_eq_some {rowRef : UInt64} {packed : NonZeroU64} : pack rowRef = some packed ↔ rowRef = packed.unpack := by
  unfold pack unpack
  constructor
  · intro h
    split at h
    · obtain rfl := Option.some.inj h
      simp
    · cases h
  · rintro rfl
    simp [packed.2]

theorem pack_unpack (rowRef : NonZeroU64) : pack rowRef.unpack = some rowRef := pack_eq_some.mpr rfl

theorem unpack_injective : Function.Injective unpack := fun a b h => by
  rw [← Option.some_inj, ← pack_unpack a, h, pack_unpack]

theorem pack_eq_none {rowRef : UInt64} : pack rowRef = none ↔ rowRef = 0xFFFFFFFFFFFFFFFF := by
  simp only [pack, ne_eq, dite_not]
  constructor
  · intro h
    split at h
    · grind
    · cases h
  · rintro rfl
    rfl

theorem pack_injective : Function.Injective pack := fun a b h => by
  cases hb : pack b with
  | none => rw [pack_eq_none.mp (h.trans hb), pack_eq_none.mp hb]
  | some packed => rw [pack_eq_some.mp (h.trans hb), pack_eq_some.mp hb]

theorem unpack_ne_max (rowRef : NonZeroU64) : rowRef.unpack ≠ 0xFFFFFFFFFFFFFFFF := fun h => by
  simpa [pack_unpack] using pack_eq_none.mpr h

theorem unpack_lt {a b : NonZeroU64} (h : rank a < rank b) : a.unpack < b.unpack := by
  have hunpack : ∀ rowRef : NonZeroU64, rowRef.unpack.toNat = rank rowRef - 1 := by
    intro rowRef
    refine UInt64.toNat_sub_of_le _ _ (UInt64.le_iff_toNat_le.mpr ?_)
    exact rank_pos rowRef
  rw [UInt64.lt_iff_toNat_lt, hunpack, hunpack]
  have := rank_pos a
  omega

end NonZeroU64

open NonZeroU64

def runtimeIndexPostingPageSize : ℕ := 1024

structure PostingPages where
  inlineRowRef : Option NonZeroU64 := none
  pages : List (List NonZeroU64) := []
  len : ℕ := 0
  deriving DecidableEq

namespace PostingPages

variable (postings : PostingPages) (rowRef : NonZeroU64)

def nextLen (len : ℕ) : ℕ := min (len + 1) (2 ^ 64 - 1)

/-- A length of 1 comes with an inline reference, which the source takes out with `expect`. -/
def insertUniqueSorted : PostingPages :=
  if postings.len = 0 then { postings with inlineRowRef := some rowRef, len := 1 }
  else if postings.len = 1 then
    match postings.inlineRowRef with
    | none => postings
    | some existing =>
      if existing = rowRef then postings
      else
        let page := if rank existing < rank rowRef then [existing, rowRef] else [rowRef, existing]
        { inlineRowRef := none, pages := postings.pages ++ [page], len := 2 }
  else
    match insertPaged rank runtimeIndexPostingPageSize rowRef postings.pages with
    | none => postings
    | some pages => { postings with pages := pages, len := nextLen postings.len }

/-- The pages without a reference, and whether it was there. The last reference that is left moves inline. -/
def remove : PostingPages × Bool :=
  if postings.len = 1 then
    if postings.inlineRowRef = some rowRef then ({ postings with inlineRowRef := none, len := 0 }, true)
    else (postings, false)
  else
    match removePaged rank rowRef postings.pages with
    | none => (postings, false)
    | some pages =>
      if postings.len - 1 = 1 then (⟨pages.findSome? List.head?, [], 1⟩, true)
      else ({ postings with pages := pages, len := postings.len - 1 }, true)

def iter : List NonZeroU64 := postings.inlineRowRef.toList ++ postings.pages.flatten

def appendPages (limit : Option ℕ) : List NonZeroU64 → List UInt64 → List UInt64
  | [], rowRefs => rowRefs
  | rowRef :: rest, rowRefs =>
    if limit.any (· ≤ rowRefs.length) then rowRefs else appendPages limit rest (rowRefs ++ [rowRef.unpack])

def appendRowRefs (rowRefs : List UInt64) (limit : Option ℕ) : List UInt64 :=
  match postings.inlineRowRef with
  | some rowRef => rowRefs ++ [rowRef.unpack]
  | none => appendPages limit postings.pages.flatten rowRefs

def onlyRowRef : Option NonZeroU64 := if postings.len = 1 then postings.iter.head? else none

/-! ## Shapes -/

/-- None, one inline, or several on pages. -/
inductive Holds : PostingPages → List NonZeroU64 → Prop
  | empty : Holds {} []
  | single (rowRef : NonZeroU64) : Holds ⟨some rowRef, [], 1⟩ [rowRef]
  | many (pages : List (List NonZeroU64)) (paged : Paged rank runtimeIndexPostingPageSize pages)
      (length : 2 ≤ pages.flatten.length) : Holds ⟨none, pages, pages.flatten.length⟩ pages.flatten

namespace Holds

variable {postings rowRef} {rowRefs : List NonZeroU64}

theorem sorted (h : postings.Holds rowRefs) : rowRefs.Pairwise (rank · < rank ·) := by
  cases h with
  | empty => exact .nil
  | single rowRef => exact List.pairwise_singleton ..
  | many pages paged length => exact paged.sorted

theorem iter_eq (h : postings.Holds rowRefs) : postings.iter = rowRefs := by
  cases h <;> simp [iter]

theorem len_eq (h : postings.Holds rowRefs) : postings.len = rowRefs.length := by
  cases h <;> rfl

theorem nodup (h : postings.Holds rowRefs) : rowRefs.Nodup := h.sorted.imp fun hab heq => by simp [heq] at hab

theorem length_le (h : rowRefs.Pairwise (rank · < rank ·)) : rowRefs.length ≤ 2 ^ 64 - 1 := by
  have hnodup : (rowRefs.map rank).Nodup := List.pairwise_map.mpr (h.imp fun hab => hab.ne)
  have hsub : (rowRefs.map rank).toFinset ⊆ Finset.Icc 1 (2 ^ 64 - 1) := by
    intro n hn
    obtain ⟨rowRef, -, rfl⟩ := List.mem_map.mp (List.mem_toFinset.mp hn)
    have hpos := rank_pos rowRef
    have hlt : rank rowRef < 2 ^ 64 := rowRef.val.toNat_lt
    exact Finset.mem_Icc.mpr ⟨by omega, by omega⟩
  have hcard := Finset.card_le_card hsub
  rw [List.toFinset_card_of_nodup hnodup, List.length_map, Nat.card_Icc] at hcard
  omega

theorem insert (h : postings.Holds rowRefs) (rowRef : NonZeroU64) :
    ∃ rowRefs', (postings.insertUniqueSorted rowRef).Holds rowRefs' ∧
      rowRefs'.toFinset = Insert.insert rowRef rowRefs.toFinset := by
  cases h with
  | empty => exact ⟨_, single rowRef, rfl⟩
  | single existing =>
    by_cases heq : existing = rowRef
    · subst heq
      exact ⟨_, by simpa [insertUniqueSorted] using single existing, by simp⟩
    · have hpage : ∀ page : List NonZeroU64, page.Pairwise (rank · < rank ·) → page.length = 2 →
          Holds ⟨none, [page], 2⟩ page := by
        intro page hsorted hlength
        have hflatten : [page].flatten = page := by simp
        have hpaged : Paged rank runtimeIndexPostingPageSize [page] := by
          refine ⟨by rwa [hflatten], fun other hother => ?_⟩
          rw [List.mem_singleton.mp hother]
          exact ⟨List.ne_nil_of_length_pos (by omega), by rw [hlength]; decide⟩
        have hmany := many [page] hpaged (by rw [hflatten, hlength])
        rwa [hflatten, hlength] at hmany
      simp only [insertUniqueSorted, one_ne_zero, ↓reduceIte, heq, List.nil_append]
      split
      · rename_i hlt
        exact ⟨_, hpage [existing, rowRef] (by simp [hlt]) rfl, by simp [Finset.pair_comm]⟩
      · rename_i hlt
        have hne : rank rowRef ≠ rank existing := fun h => heq (rank_injective h.symm)
        exact ⟨_, hpage [rowRef, existing] (by simp; omega) rfl, by simp⟩
  | many pages paged length =>
    simp only [insertUniqueSorted]
    rw [if_neg (by omega), if_neg (by omega)]
    rcases paged.insert_cases (by decide : 0 < runtimeIndexPostingPageSize) (x := rowRef) with
      ⟨hnone, other, hmem, hrank⟩ | ⟨pages', hsome, hpaged, l, r, hflatten, hflatten', -, -⟩
    · rw [hnone]
      refine ⟨_, many pages paged length, ?_⟩
      rw [rank_injective hrank] at hmem
      exact (Finset.insert_eq_of_mem (List.mem_toFinset.mpr hmem)).symm
    · rw [hsome]
      have hgrown : pages'.flatten.length = pages.flatten.length + 1 := by
        rw [hflatten, hflatten', List.length_append, List.length_cons, List.length_append]
        omega
      have hlen : nextLen pages.flatten.length = pages'.flatten.length := by
        have := length_le hpaged.sorted
        unfold nextLen
        omega
      refine ⟨pages'.flatten, ?_, ?_⟩
      · simp only [hlen]
        exact many pages' hpaged (by omega)
      · ext other
        simp [hflatten, hflatten']

theorem insertAll (more : List NonZeroU64) : ∀ {postings : PostingPages} {rowRefs : List NonZeroU64},
    postings.Holds rowRefs → ∃ rowRefs', (more.foldl insertUniqueSorted postings).Holds rowRefs' ∧
      rowRefs'.toFinset = rowRefs.toFinset ∪ more.toFinset := by
  induction more with
  | nil => exact fun h => ⟨_, h, by simp⟩
  | cons rowRef more ih =>
    intro postings rowRefs h
    obtain ⟨grown, hgrown, hset⟩ := h.insert rowRef
    obtain ⟨rowRefs', holds, hset'⟩ := ih hgrown
    exact ⟨rowRefs', holds, by rw [hset', hset, List.toFinset_cons, Finset.insert_union, Finset.union_insert]⟩

theorem remove (h : postings.Holds rowRefs) (rowRef : NonZeroU64) :
    ((postings.remove rowRef).2 = true ↔ rowRef ∈ rowRefs) ∧
      ∃ rowRefs', (postings.remove rowRef).1.Holds rowRefs' ∧ rowRefs'.toFinset = rowRefs.toFinset.erase rowRef := by
  cases h with
  | empty => exact ⟨by simp [PostingPages.remove, removePaged], _,
      by simpa [PostingPages.remove, removePaged] using empty, by simp⟩
  | single existing =>
    by_cases heq : existing = rowRef
    · subst heq
      exact ⟨by simp [PostingPages.remove], _, by simpa [PostingPages.remove] using empty, by simp⟩
    · refine ⟨by simp [PostingPages.remove, heq, Ne.symm heq], _,
        by simpa [PostingPages.remove, heq] using single existing, ?_⟩
      rw [Finset.erase_eq_of_notMem (by simpa using Ne.symm heq)]
  | many pages paged length =>
    simp only [PostingPages.remove]
    rw [if_neg (by omega)]
    rcases paged.remove_cases (x := rowRef) with
      ⟨hnone, hnot⟩ | ⟨pages', l, found, r, hsome, hpaged, hrank, hflatten, hflatten'⟩
    · have hmem : rowRef ∉ pages.flatten := fun hmem => hnot rowRef hmem rfl
      rw [hnone]
      refine ⟨by simpa using hmem, _, many pages paged length, ?_⟩
      rw [Finset.erase_eq_of_notMem (by simpa using hmem)]
    · obtain rfl := rank_injective hrank
      have hnodup := (many pages paged length).nodup
      rw [hflatten] at hnodup
      have hset : pages'.flatten.toFinset = pages.flatten.toFinset.erase found := by
        rw [hflatten, hflatten']
        ext other
        have hnotMem := (List.nodup_middle.mp hnodup).notMem
        by_cases heq : other = found
        · subst heq
          simpa using hnotMem
        · simp [heq]
      have hlen : pages.flatten.length - 1 = pages'.flatten.length := by
        rw [hflatten, hflatten', List.length_append, List.length_cons, List.length_append]
        omega
      rw [hsome]
      simp only [hlen]
      have hmem : found ∈ pages.flatten := by simp [hflatten]
      split
      · rename_i hone
        -- the one reference that is left is the first of the first page
        obtain ⟨last, hlast⟩ := List.length_eq_one_iff.mp hone
        have hfirst : pages'.findSome? List.head? = some last := by
          cases pages' with
          | nil => simp at hlast
          | cons page pages' =>
            cases page with
            | nil => exact absurd rfl (hpaged.bounds [] (by simp)).1
            | cons first page =>
              simp only [List.flatten_cons, List.cons_append, List.cons.injEq] at hlast
              rw [List.findSome?_cons, List.head?_cons, hlast.1]
        rw [hfirst]
        exact ⟨by simpa using hmem, _, single last, by rw [← hset, hlast]⟩
      · rename_i hone
        exact ⟨by simpa using hmem, _, many pages' hpaged (by omega), hset⟩

theorem appendPages_none (rest : List NonZeroU64) (given : List UInt64) :
    appendPages none rest given = given ++ rest.map unpack := by
  induction rest generalizing given with
  | nil => simp [appendPages]
  | cons rowRef rest ih => simp [appendPages, ih]

theorem appendRowRefs_none (h : postings.Holds rowRefs) (given : List UInt64) :
    postings.appendRowRefs given none = given ++ rowRefs.map unpack := by
  cases h with
  | empty => simp [appendRowRefs, appendPages]
  | single rowRef => simp [appendRowRefs]
  | many pages paged length => exact appendPages_none _ _

theorem appendPages_some (limit : ℕ) (rest : List NonZeroU64) (given : List UInt64) (h : given.length ≤ limit) :
    appendPages (some limit) rest given = (given ++ rest.map unpack).take limit := by
  induction rest generalizing given with
  | nil => simp [appendPages, List.take_of_length_le h]
  | cons rowRef rest ih =>
    rw [appendPages]
    split
    · rename_i hfull
      have hlength : given.length = limit := le_antisymm h (by simpa using hfull)
      rw [← hlength, List.take_left']
      rfl
    · rename_i hroom
      have hlength : given.length < limit := by simpa using hroom
      rw [ih _ (by simpa using hlength), List.append_assoc]
      rfl

theorem appendRowRefs_nil (h : postings.Holds rowRefs) (limit : Option ℕ) : postings.appendRowRefs [] limit =
    if rowRefs.length = 1 then rowRefs.map unpack
    else limit.elim (rowRefs.map unpack) (rowRefs.map unpack).take := by
  cases h with
  | empty => cases limit <;> simp [appendRowRefs, appendPages]
  | single rowRef => rfl
  | many pages paged length =>
    rw [if_neg (by omega)]
    cases limit with
    | none => exact appendPages_none _ _
    | some limit => exact appendPages_some limit _ [] (Nat.zero_le _)

end Holds

/-! ## Runs -/

inductive Op where
  | insertUniqueSorted (rowRef : NonZeroU64)
  | remove (rowRef : NonZeroU64)
  | appendRowRefs (rowRefs : List UInt64) (limit : Option ℕ)

def apply : Op → PostingPages
  | .insertUniqueSorted rowRef => postings.insertUniqueSorted rowRef
  | .remove rowRef => (postings.remove rowRef).1
  | .appendRowRefs _ _ => postings

def Op.onSet (rowRefs : Finset NonZeroU64) : Op → Finset NonZeroU64
  | .insertUniqueSorted rowRef => Insert.insert rowRef rowRefs
  | .remove rowRef => rowRefs.erase rowRef
  | .appendRowRefs _ _ => rowRefs

def report : Op → Option Bool
  | .remove rowRef => some (postings.remove rowRef).2
  | .insertUniqueSorted _ | .appendRowRefs _ _ => none

/-- The references are those of a set, in order, on pages that are neither empty nor too large; a single one has no
page. -/
structure Represents (rowRefs : Finset NonZeroU64) : Prop where
  sorted : postings.iter.Pairwise (rank · < rank ·)
  toFinset_iter : postings.iter.toFinset = rowRefs
  flatten_pages : rowRefs.card ≠ 1 → postings.pages.flatten = postings.iter
  bounds : ∀ page ∈ postings.pages, page ≠ [] ∧ page.length ≤ runtimeIndexPostingPageSize
  increasing : postings.pages.IsChain fun page next => ∀ a ∈ page.getLast?, ∀ b ∈ next.head?, rank a < rank b
  len_eq : postings.len = rowRefs.card
  appended : ∀ given, postings.appendRowRefs given none = given ++ postings.iter.map unpack

theorem Holds.represents {rowRefs : List NonZeroU64} (h : postings.Holds rowRefs) :
    postings.Represents rowRefs.toFinset where
  sorted := by rw [h.iter_eq]; exact h.sorted
  toFinset_iter := by rw [h.iter_eq]
  flatten_pages hcard := by
    rw [h.iter_eq]
    cases h with
    | empty => rfl
    | single rowRef => simp at hcard
    | many pages paged length => rfl
  bounds := by
    cases h with
    | empty => simp
    | single rowRef => simp
    | many pages paged length => exact paged.bounds
  increasing := by
    cases h with
    | empty => exact .nil
    | single rowRef => exact .nil
    | many pages paged length =>
      have hcross := (List.pairwise_flatten.mp paged.sorted).2
      exact (hcross.imp fun hpair a ha b hb =>
        hpair a (List.mem_of_getLast? ha) b (List.mem_of_head? hb)).isChain
  len_eq := by rw [h.len_eq, List.toFinset_card_of_nodup h.nodup]
  appended given := by rw [h.iter_eq, h.appendRowRefs_none]

theorem Holds.apply {rowRefs : List NonZeroU64} (h : postings.Holds rowRefs) (op : Op) :
    ∃ rowRefs', (postings.apply op).Holds rowRefs' ∧ rowRefs'.toFinset = op.onSet rowRefs.toFinset := by
  cases op with
  | insertUniqueSorted rowRef => exact h.insert rowRef
  | remove rowRef => exact (h.remove rowRef).2
  | appendRowRefs _ _ => exact ⟨rowRefs, h, rfl⟩

theorem holds_run (ops : List Op) : ∃ rowRefs, (runFrom PostingPages.apply {} ops).Holds rowRefs ∧
    rowRefs.toFinset = runFrom Op.onSet ∅ ops := by
  refine (along_of_forall (P := fun _ _ => True) (fun _ _ => trivial) ops _).simulates
    (R := fun postings set => ∃ rowRefs, Holds postings rowRefs ∧ rowRefs.toFinset = set) ?_ ⟨[], .empty, rfl⟩
  rintro postings _ op - ⟨rowRefs, h, rfl⟩
  exact h.apply postings op

/-- After any calls the pages represent the set of what was inserted and not removed, and a removal reports whether
it changes the set. -/
theorem posting_pages_represent_set (ops : List Op) :
    (runFrom apply {} ops).Represents (runFrom Op.onSet ∅ ops) ∧
      ∀ rowRef, (runFrom apply {} ops).report (.remove rowRef) =
        some (decide ((Op.remove rowRef).onSet (runFrom Op.onSet ∅ ops) ≠ runFrom Op.onSet ∅ ops)) := by
  obtain ⟨rowRefs, h, hset⟩ := holds_run ops
  rw [← hset]
  refine ⟨h.represents, fun rowRef => congrArg some ?_⟩
  rw [Bool.eq_iff_iff, (h.remove rowRef).1, decide_eq_true_iff, Op.onSet, ne_eq, Finset.erase_eq_self, not_not,
    List.mem_toFinset]

/-- A single reference is on no page, and its insertion reports nothing. -/
theorem single_reference_inline :
    (PostingPages.insertUniqueSorted {} ⟨1, by decide⟩).pages.flatten = [] ∧
      (Op.insertUniqueSorted ⟨1, by decide⟩).onSet ∅ ≠ ∅ ∧
      PostingPages.report {} (.insertUniqueSorted ⟨1, by decide⟩) ≠ some true := by
  decide

end PostingPages

end DistDb.Indexing
