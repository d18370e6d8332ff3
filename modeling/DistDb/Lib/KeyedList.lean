import Mathlib

/-! # Lists with one entry a key

An entry that is put into such a list takes the place of the one that has its key, where that one does not rank
higher. What is left of a key after many entries is the last of the highest. -/

namespace DistDb.Lib

variable {α κ ρ : Type} [DecidableEq κ] [LinearOrder ρ] (key : α → κ) (rank : α → ρ)

def upsert (x : α) : List α → List α
  | [] => [x]
  | y :: ys => if key y = key x then (if rank y ≤ rank x then x else y) :: ys else y :: upsert x ys

def latest : Option α → Option α → Option α
  | none, y => y
  | some x, none => some x
  | some x, some y => if rank x ≤ rank y then some y else some x

def entryOf (k : κ) (xs : List α) : Option α := xs.find? fun x => key x = k

def latestFrom (k : κ) (seed : Option α) (xs : List α) : Option α :=
  xs.foldl (fun found x => if key x = k then latest rank found (some x) else found) seed

def latestOf (k : κ) (xs : List α) : Option α := latestFrom key rank k none xs

def upsertAll (base xs : List α) : List α := xs.foldl (fun ys x => upsert key rank x ys) base

def mergeAll (base : List α) (xss : List (List α)) : List α := xss.foldl (upsertAll key rank) base

/-! ## One entry -/

variable {key} {rank} {x y : α} {xs ys base : List α} {k : κ}

theorem map_upsert (x : α) (ys : List α) :
    (upsert key rank x ys).map key = if key x ∈ ys.map key then ys.map key else ys.map key ++ [key x] := by
  induction ys with
  | nil => rfl
  | cons y ys ih =>
    by_cases hkey : key y = key x
    · by_cases hrank : rank y ≤ rank x <;> simp [upsert, hkey, hrank]
    · have hne : key x ≠ key y := Ne.symm hkey
      simp only [upsert, hkey, if_false, List.map_cons, ih, List.mem_cons, hne, false_or]
      split <;> rfl

theorem nodup_map_upsert (x : α) (ys : List α) : ((upsert key rank x ys).map key).Nodup ↔ (ys.map key).Nodup := by
  rw [map_upsert]
  split
  · rfl
  · rename_i hnot
    rw [List.nodup_append_comm]
    simp only [List.singleton_append, List.nodup_cons, hnot, not_false_eq_true, true_and]

theorem entryOf_upsert (x : α) (ys : List α) (k : κ) : entryOf key k (upsert key rank x ys) =
      if key x = k then latest rank (entryOf key k ys) (some x) else entryOf key k ys := by
  induction ys with
  | nil => by_cases hk : key x = k <;> simp [upsert, entryOf, latest, hk]
  | cons y ys ih =>
    by_cases hkey : key y = key x
    · by_cases hk : key x = k
      · by_cases hrank : rank y ≤ rank x <;> simp [upsert, entryOf, latest, hkey, hrank, hk]
      · by_cases hrank : rank y ≤ rank x <;> simp [upsert, entryOf, hkey, hrank, hk]
    · by_cases hy : key y = k
      · have hx : key x ≠ k := fun hx => hkey (hy.trans hx.symm)
        simp [upsert, entryOf, hy, hx, hx.symm]
      · simp only [upsert, hkey, if_false, entryOf, List.find?_cons, hy, decide_false]
        exact ih

theorem mem_iff_entryOf (hnodup : (xs.map key).Nodup) : x ∈ xs ↔ entryOf key (key x) xs = some x := by
  constructor
  · intro hx
    rw [entryOf, List.find?_eq_some_iff_append]
    obtain ⟨before, after, rfl⟩ := List.append_of_mem hx
    refine ⟨by simp, before, after, rfl, fun y hy => ?_⟩
    rw [List.map_append, List.map_cons, List.nodup_append] at hnodup
    have hne := hnodup.2.2 (key y) (List.mem_map_of_mem hy) (key x) List.mem_cons_self
    simpa using hne
  · exact List.mem_of_find?_eq_some

theorem key_of_entryOf (h : entryOf key k xs = some x) : key x = k := by
  simpa using List.find?_some h

theorem perm_iff_entryOf (hxs : (xs.map key).Nodup) (hys : (ys.map key).Nodup) :
    xs.Perm ys ↔ ∀ k, entryOf key k xs = entryOf key k ys := by
  rw [List.perm_ext_iff_of_nodup (hxs.of_map) (hys.of_map)]
  constructor
  · intro h k
    refine Option.ext fun x => ?_
    constructor
    · intro hx
      have hk := key_of_entryOf hx
      subst hk
      exact (mem_iff_entryOf hys).mp ((h x).mp ((mem_iff_entryOf hxs).mpr hx))
    · intro hx
      have hk := key_of_entryOf hx
      subst hk
      exact (mem_iff_entryOf hxs).mp ((h x).mpr ((mem_iff_entryOf hys).mpr hx))
  · intro h x
    rw [mem_iff_entryOf hxs, mem_iff_entryOf hys, h]

/-! ## The later of two entries -/

@[simp] theorem latest_none (o : Option α) : latest rank o none = o := by cases o <;> rfl

@[simp] theorem none_latest (o : Option α) : latest rank none o = o := rfl

theorem latest_assoc (a b c : Option α) : latest rank (latest rank a b) c = latest rank a (latest rank b c) := by
  cases a with
  | none => rfl
  | some a =>
    cases b with
    | none => rfl
    | some b =>
      cases c with
      | none => simp
      | some c =>
        by_cases hab : rank a ≤ rank b
        · by_cases hbc : rank b ≤ rank c
          · simp [latest, hab, hbc, le_trans hab hbc]
          · simp [latest, hab, hbc]
        · by_cases hbc : rank b ≤ rank c
          · by_cases hac : rank a ≤ rank c <;> simp [latest, hab, hbc, hac]
          · have hac : ¬rank a ≤ rank c :=
              not_le.mpr (lt_trans (not_le.mp hbc) (not_le.mp hab))
            simp [latest, hab, hbc, hac]

theorem latest_eq_some_iff {o : Option α} : latest rank o (some y) = some x ↔
      x = y ∧ (∀ z, o = some z → rank z ≤ rank y) ∨ o = some x ∧ rank y < rank x := by
  cases o with
  | none => simp [eq_comm]
  | some z =>
    by_cases hrank : rank z ≤ rank y
    · simp only [latest, hrank, if_true, Option.some.injEq, forall_eq', and_true]
      constructor
      · exact fun h => .inl h.symm
      · rintro (h | ⟨rfl, hlt⟩)
        · exact h.symm
        · exact absurd hrank (not_le.mpr hlt)
    · simp only [latest, hrank, if_false, Option.some.injEq, forall_eq', and_false, false_or]
      constructor
      · rintro rfl
        exact ⟨rfl, not_le.mp hrank⟩
      · exact And.left

/-! ## What is left of a key -/

variable {seed : Option α}

theorem latestFrom_append_singleton (seed : Option α) (xs : List α) (y : α) : latestFrom key rank k seed (xs ++ [y]) =
      if key y = k then latest rank (latestFrom key rank k seed xs) (some y)
      else latestFrom key rank k seed xs := by
  rw [latestFrom, List.foldl_append]
  rfl

theorem latestFrom_eq_latest (seed : Option α) (xs : List α) :
    latestFrom key rank k seed xs = latest rank seed (latestOf key rank k xs) := by
  induction xs using List.reverseRecOn with
  | nil => exact (latest_none seed).symm
  | append_singleton xs y ih =>
    rw [latestOf, latestFrom_append_singleton, latestFrom_append_singleton, ih]
    split
    · exact latest_assoc seed _ _
    · rfl

theorem latestFrom_eq_none_iff : latestFrom key rank k seed xs = none ↔ seed = none ∧ ∀ y ∈ xs, key y ≠ k := by
  induction xs using List.reverseRecOn with
  | nil => simp [latestFrom]
  | append_singleton xs y ih =>
    rw [latestFrom_append_singleton]
    by_cases hy : key y = k
    · have hsome : latest rank (latestFrom key rank k seed xs) (some y) ≠ none := by
        cases latestFrom key rank k seed xs with
        | none => simp
        | some z => by_cases hrank : rank z ≤ rank y <;> simp [latest, hrank]
      simp [hy, hsome]
    · simp only [hy, if_false, ih, List.mem_append, List.mem_singleton]
      constructor
      · rintro ⟨hseed, hxs⟩
        refine ⟨hseed, fun z hz => ?_⟩
        rcases hz with hz | rfl
        · exact hxs z hz
        · exact hy
      · exact fun ⟨hseed, hxs⟩ => ⟨hseed, fun z hz => hxs z (.inl hz)⟩

theorem latestFrom_eq_some (h : latestFrom key rank k seed xs = some x) :
    (∀ z, seed = some z → rank z ≤ rank x) ∧ (∀ z ∈ xs, key z = k → rank z ≤ rank x) ∧
      (x ∈ xs ∧ key x = k ∨ seed = some x ∧ ∀ z ∈ xs, key z = k → rank z < rank x) := by
  induction xs using List.reverseRecOn generalizing x with
  | nil =>
    have hseed : seed = some x := h
    subst hseed
    simp
  | append_singleton xs y ih =>
    rw [latestFrom_append_singleton] at h
    by_cases hy : key y = k
    · rw [if_pos hy, latest_eq_some_iff] at h
      rcases h with ⟨rfl, hall⟩ | ⟨hfound, hlt⟩
      · -- the last entry takes the place of what was left before
        have hbound : ∀ z, (seed = some z ∨ z ∈ xs ∧ key z = k) → rank z ≤ rank x := by
          intro z hz
          cases hprevious : latestFrom key rank k seed xs with
          | none =>
            obtain ⟨hseed, hnone⟩ := latestFrom_eq_none_iff.mp hprevious
            rcases hz with hz | ⟨hmem, hkey⟩
            · simp [hseed] at hz
            · exact absurd hkey (hnone z hmem)
          | some previous =>
            obtain ⟨hfirst, hothers, -⟩ := ih hprevious
            rcases hz with hz | ⟨hmem, hkey⟩
            · exact (hfirst z hz).trans (hall previous hprevious)
            · exact (hothers z hmem hkey).trans (hall previous hprevious)
        refine ⟨fun z hz => hbound z (.inl hz), fun z hz hkey => ?_, .inl ⟨by simp, hy⟩⟩
        rcases List.mem_append.mp hz with hz | hz
        · exact hbound z (.inr ⟨hz, hkey⟩)
        · rw [List.mem_singleton.mp hz]
      · obtain ⟨hfirst, hothers, hfrom⟩ := ih hfound
        refine ⟨hfirst, fun z hz hkey => ?_, ?_⟩
        · rcases List.mem_append.mp hz with hz | hz
          · exact hothers z hz hkey
          · rw [List.mem_singleton.mp hz]
            exact hlt.le
        · rcases hfrom with ⟨hmem, hkey⟩ | ⟨hseed, hlower⟩
          · exact .inl ⟨List.mem_append_left _ hmem, hkey⟩
          · refine .inr ⟨hseed, fun z hz hkey => ?_⟩
            rcases List.mem_append.mp hz with hz | hz
            · exact hlower z hz hkey
            · rw [List.mem_singleton.mp hz]
              exact hlt
    · rw [if_neg hy] at h
      have hmem : ∀ z ∈ xs ++ [y], key z = k → z ∈ xs := by
        intro z hz hkey
        rcases List.mem_append.mp hz with hz | hz
        · exact hz
        · rw [List.mem_singleton.mp hz] at hkey
          exact absurd hkey hy
      obtain ⟨hfirst, hothers, hfrom⟩ := ih h
      refine ⟨hfirst, fun z hz hkey => hothers z (hmem z hz hkey) hkey, ?_⟩
      rcases hfrom with ⟨hx, hkey⟩ | ⟨hseed, hlower⟩
      · exact .inl ⟨List.mem_append_left _ hx, hkey⟩
      · exact .inr ⟨hseed, fun z hz hkey => hlower z (hmem z hz hkey) hkey⟩

theorem latestFrom_append_highest (hkey : key x = k) (hseed : ∀ z, seed = some z → rank z ≤ rank x)
    (hxs : ∀ z ∈ xs, key z = k → rank z ≤ rank x) : latestFrom key rank k seed (xs ++ [x]) = some x := by
  rw [latestFrom_append_singleton, if_pos hkey, latest_eq_some_iff]
  refine .inl ⟨rfl, fun z hz => ?_⟩
  rcases (latestFrom_eq_some hz).2.2 with ⟨hmem, hz⟩ | ⟨hz, -⟩
  · exact hxs z hmem hz
  · exact hseed z hz

theorem latestFrom_eq_of_mem_iff (hmem : ∀ z, z ∈ ys ↔ z ∈ xs)
    (hagree : ∀ x ∈ xs, ∀ y ∈ xs, key x = k → key y = k → rank x = rank y →
      (∀ z, seed = some z ∨ z ∈ xs ∧ key z = k → rank z ≤ rank x) → x = y) :
    latestFrom key rank k seed ys = latestFrom key rank k seed xs := by
  cases hx : latestFrom key rank k seed xs with
  | none =>
    obtain ⟨hseed, hnone⟩ := latestFrom_eq_none_iff.mp hx
    exact latestFrom_eq_none_iff.mpr ⟨hseed, fun z hz => hnone z ((hmem z).mp hz)⟩
  | some x =>
    cases hy : latestFrom key rank k seed ys with
    | none =>
      obtain ⟨hseed, hnone⟩ := latestFrom_eq_none_iff.mp hy
      have hx' : latestFrom key rank k seed xs = none :=
        latestFrom_eq_none_iff.mpr ⟨hseed, fun z hz => hnone z ((hmem z).mpr hz)⟩
      rw [hx'] at hx
      cases hx
    | some y =>
      obtain ⟨hxseed, hxs, hxfrom⟩ := latestFrom_eq_some hx
      obtain ⟨hyseed, hys, hyfrom⟩ := latestFrom_eq_some hy
      rcases hxfrom with ⟨hxmem, hxkey⟩ | ⟨hseed, hlower⟩
      · have hyx : rank x ≤ rank y := hys x ((hmem x).mpr hxmem) hxkey
        rcases hyfrom with ⟨hymem, hykey⟩ | ⟨hseed, hlower⟩
        · have hymem := (hmem y).mp hymem
          have hrank : rank x = rank y := le_antisymm hyx (hxs y hymem hykey)
          refine congrArg some (hagree x hxmem y hymem hxkey hykey hrank fun z hz => ?_).symm
          rcases hz with hz | ⟨hz, hkey⟩
          · exact hxseed z hz
          · exact hxs z hz hkey
        · exact absurd (hlower x ((hmem x).mpr hxmem) hxkey) (not_lt.mpr (hxseed y hseed))
      · rcases hyfrom with ⟨hymem, hykey⟩ | ⟨hseed', -⟩
        · exact absurd (hlower y ((hmem y).mp hymem) hykey) (not_lt.mpr (hyseed x hseed))
        · exact hseed'.symm.trans hseed

/-! ## Many lists -/

theorem entryOf_upsertAll (base xs : List α) (k : κ) :
    entryOf key k (upsertAll key rank base xs) = latestFrom key rank k (entryOf key k base) xs := by
  induction xs generalizing base with
  | nil => rfl
  | cons x xs ih =>
    rw [upsertAll, List.foldl_cons, ← upsertAll, ih, entryOf_upsert]
    rfl

theorem nodup_map_upsertAll (base xs : List α) :
    ((upsertAll key rank base xs).map key).Nodup ↔ (base.map key).Nodup := by
  induction xs generalizing base with
  | nil => rfl
  | cons x xs ih => rw [upsertAll, List.foldl_cons, ← upsertAll, ih, nodup_map_upsert]

theorem nodup_map_mergeAll (base : List α) (xss : List (List α)) :
    ((mergeAll key rank base xss).map key).Nodup ↔ (base.map key).Nodup := by
  induction xss generalizing base with
  | nil => rfl
  | cons xs xss ih => rw [mergeAll, List.foldl_cons, ← mergeAll, ih, nodup_map_upsertAll]

variable (key rank) in
theorem exists_map_upsertAll (base xs : List α) : ∃ new, (upsertAll key rank base xs).map key = base.map key ++ new ∧
      ∀ k ∈ new, k ∉ base.map key ∧ k ∈ xs.map key := by
  induction xs using List.reverseRecOn with
  | nil => exact ⟨[], (List.append_nil _).symm, fun _ hk => nomatch hk⟩
  | append_singleton xs x ih =>
    obtain ⟨new, heq, hnew⟩ := ih
    have hmore : ∀ k ∈ new, k ∉ base.map key ∧ k ∈ (xs ++ [x]).map key := fun k hk =>
      ⟨(hnew k hk).1, List.map_append ▸ List.mem_append_left _ (hnew k hk).2⟩
    rw [upsertAll, List.foldl_append, List.foldl_cons, List.foldl_nil, map_upsert, ← upsertAll, heq]
    split
    · exact ⟨new, rfl, hmore⟩
    · rename_i hx
      refine ⟨new ++ [key x], List.append_assoc .., fun k hk => ?_⟩
      rcases List.mem_append.mp hk with hk | hk
      · exact hmore k hk
      · rw [List.mem_singleton.mp hk]
        exact ⟨fun h => hx (List.mem_append_left _ h), by simp⟩

theorem mergeAll_eq_upsertAll (base : List α) (xss : List (List α)) :
    mergeAll key rank base xss = upsertAll key rank base xss.flatten :=
  List.foldl_flatten.symm

theorem key_of_latestOf (h : latestOf key rank k xs = some x) : x ∈ xs ∧ key x = k := by
  rcases (latestFrom_eq_some h).2.2 with h | ⟨h, -⟩
  · exact h
  · cases h

theorem entryOf_mergeAll (base : List α) (xss : List (List α)) (k : κ) : entryOf key k (mergeAll key rank base xss) =
      latestFrom key rank k (entryOf key k base) (xss.filterMap (latestOf key rank k)) := by
  induction xss generalizing base with
  | nil => rfl
  | cons xs xss ih =>
    rw [mergeAll, List.foldl_cons, ← mergeAll, ih, entryOf_upsertAll, latestFrom_eq_latest _ xs]
    cases hxs : latestOf key rank k xs with
    | none => rw [latest_none, List.filterMap_cons_none hxs]
    | some x =>
      rw [List.filterMap_cons_some hxs, latestFrom, latestFrom, List.foldl_cons, if_pos (key_of_latestOf hxs).2]

variable {xss : List (List α)}

theorem exists_latestOf (key : α → κ) (rank : α → ρ) (h : x ∈ xs) :
    ∃ y, latestOf key rank (key x) xs = some y ∧ rank x ≤ rank y := by
  cases hlatest : latestOf key rank (key x) xs with
  | none => exact absurd rfl ((latestFrom_eq_none_iff.mp hlatest).2 x h)
  | some y => exact ⟨y, rfl, (latestFrom_eq_some hlatest).2.1 x h rfl⟩

/-- An entry of the merged list is what one of the lists has for its key, or it is in the base and all that the
lists have for its key ranks lower. -/
theorem mem_mergeAll (hnodup : (base.map key).Nodup) (hx : x ∈ mergeAll key rank base xss) :
    (∀ z ∈ base ++ xss.flatten, key z = key x → rank z ≤ rank x) ∧
      ((∃ xs ∈ xss, latestOf key rank (key x) xs = some x) ∨
        x ∈ base ∧ ∀ xs ∈ xss, ∀ z ∈ xs, key z = key x → rank z < rank x) := by
  rw [mem_iff_entryOf ((nodup_map_mergeAll base xss).mpr hnodup), entryOf_mergeAll] at hx
  obtain ⟨hseed, hothers, hfrom⟩ := latestFrom_eq_some hx
  have hlists : ∀ xs ∈ xss, ∀ z ∈ xs, key z = key x →
      ∃ y ∈ xss.filterMap (latestOf key rank (key x)), key y = key x ∧ rank z ≤ rank y := by
    intro xs hxs z hz hkey
    obtain ⟨y, hy, hrank⟩ := exists_latestOf key rank hz
    rw [hkey] at hy
    exact ⟨y, List.mem_filterMap.mpr ⟨xs, hxs, hy⟩, (key_of_latestOf hy).2, hrank⟩
  refine ⟨fun z hz hkey => ?_, ?_⟩
  · rcases List.mem_append.mp hz with hz | hz
    · have hentry := (mem_iff_entryOf hnodup).mp hz
      rw [hkey] at hentry
      exact hseed z hentry
    · obtain ⟨xs, hxs, hz⟩ := List.mem_flatten.mp hz
      obtain ⟨y, hy, hykey, hrank⟩ := hlists xs hxs z hz hkey
      exact hrank.trans (hothers y hy hykey)
  · rcases hfrom with ⟨hmem, -⟩ | ⟨hentry, hlower⟩
    · obtain ⟨xs, hxs, hlatest⟩ := List.mem_filterMap.mp hmem
      exact .inl ⟨xs, hxs, hlatest⟩
    · refine .inr ⟨List.mem_of_find?_eq_some hentry, fun xs hxs z hz hkey => ?_⟩
      obtain ⟨y, hy, hykey, hrank⟩ := hlists xs hxs z hz hkey
      exact lt_of_le_of_lt hrank (hlower y hy hykey)

theorem exists_mem_mergeAll (hnodup : (base.map key).Nodup) (hx : x ∈ base ++ xss.flatten) :
    ∃ y ∈ mergeAll key rank base xss, key y = key x := by
  cases hentry : entryOf key (key x) (mergeAll key rank base xss) with
  | some y => exact ⟨y, List.mem_of_find?_eq_some hentry, key_of_entryOf hentry⟩
  | none =>
    rw [entryOf_mergeAll, latestFrom_eq_none_iff] at hentry
    rcases List.mem_append.mp hx with hx | hx
    · rw [(mem_iff_entryOf hnodup).mp hx] at hentry
      cases hentry.1
    · obtain ⟨xs, hxs, hx⟩ := List.mem_flatten.mp hx
      obtain ⟨y, hy, -⟩ := exists_latestOf key rank hx
      exact absurd (key_of_latestOf hy).2 (hentry.2 y (List.mem_filterMap.mpr ⟨xs, hxs, hy⟩))

theorem mem_mergeAll_append (hnodup : (base.map key).Nodup) (hx : latestOf key rank (key x) xs = some x)
    (hhighest : ∀ z ∈ base ++ xss.flatten, key z = key x → rank z ≤ rank x) :
    x ∈ mergeAll key rank base (xss ++ [xs]) := by
  rw [mem_iff_entryOf ((nodup_map_mergeAll base _).mpr hnodup), entryOf_mergeAll, List.filterMap_append]
  have hlast : [xs].filterMap (latestOf key rank (key x)) = [x] := by simp [hx]
  rw [hlast]
  refine latestFrom_append_highest rfl (fun z hz => ?_) fun z hz hkey => ?_
  · exact hhighest z (List.mem_append_left _ (List.mem_of_find?_eq_some hz)) (key_of_entryOf hz)
  · obtain ⟨zs, hzs, hz⟩ := List.mem_filterMap.mp hz
    exact hhighest z (List.mem_append_right _ (List.mem_flatten.mpr ⟨zs, hzs, (key_of_latestOf hz).1⟩)) hkey

def HighestAgree (key : α → κ) (rank : α → ρ) (base : List α) (xss : List (List α)) : Prop :=
  ∀ xs ∈ xss, ∀ ys ∈ xss, ∀ x y, latestOf key rank (key x) xs = some x → latestOf key rank (key x) ys = some y →
    rank x = rank y → (∀ z ∈ base ++ xss.flatten, key z = key x → rank z ≤ rank x) → x = y

theorem HighestAgree.of_perm (hnodup : (base.map key).Nodup)
    (h : ∀ xs ∈ xss, (mergeAll key rank base (xss ++ [xs])).Perm (mergeAll key rank base xss)) :
    HighestAgree key rank base xss := by
  intro xs hxs ys hys x y hx hy hrank hhighest
  have hkey : key y = key x := (key_of_latestOf hy).2
  have hxmem := (h xs hxs).mem_iff.mp (mem_mergeAll_append hnodup hx hhighest)
  have hymem := (h ys hys).mem_iff.mp
    (mem_mergeAll_append hnodup (by rwa [hkey]) fun z hz hz' => hrank ▸ hhighest z hz (hz'.trans hkey))
  have hentries : ((mergeAll key rank base xss).map key).Nodup := (nodup_map_mergeAll base xss).mpr hnodup
  have hxentry := (mem_iff_entryOf hentries).mp hxmem
  have hyentry := (mem_iff_entryOf hentries).mp hymem
  rw [hkey, hxentry] at hyentry
  exact Option.some.inj hyentry

/-- Lists whose highest entries agree can be merged in any order and any number of times. -/
theorem HighestAgree.perm {xss' : List (List α)} (h : HighestAgree key rank base xss)
    (hnodup : (base.map key).Nodup) (hmem : ∀ xs, xs ∈ xss' ↔ xs ∈ xss) :
    (mergeAll key rank base xss').Perm (mergeAll key rank base xss) := by
  rw [perm_iff_entryOf ((nodup_map_mergeAll base xss').mpr hnodup) ((nodup_map_mergeAll base xss).mpr hnodup)]
  intro k
  rw [entryOf_mergeAll, entryOf_mergeAll]
  refine latestFrom_eq_of_mem_iff (fun z => by simp only [List.mem_filterMap, hmem]) ?_
  intro x hx y hy hxk hyk hrank hhighest
  obtain ⟨xs, hxs, hx⟩ := List.mem_filterMap.mp hx
  obtain ⟨ys, hys, hy⟩ := List.mem_filterMap.mp hy
  subst hxk
  refine h xs hxs ys hys x y hx hy hrank fun z hz hkey => ?_
  rcases List.mem_append.mp hz with hz | hz
  · have hentry := (mem_iff_entryOf hnodup).mp hz
    rw [hkey] at hentry
    exact hhighest z (.inl hentry)
  · obtain ⟨zs, hzs, hz⟩ := List.mem_flatten.mp hz
    obtain ⟨w, hw, hrank⟩ := exists_latestOf key rank hz
    rw [hkey] at hw
    exact hrank.trans (hhighest w (.inr ⟨List.mem_filterMap.mpr ⟨zs, hzs, hw⟩, (key_of_latestOf hw).2⟩))

/-! ## One entry a key -/

/-- One entry of each key, with the highest rank. -/
structure OncePerKey (key : α → κ) (rank : α → ρ) (entries xs : List α) : Prop where
  nodup : (xs.map key).Nodup
  subset : ∀ x ∈ xs, x ∈ entries
  highest : ∀ x ∈ xs, ∀ y ∈ entries, key y = key x → rank y ≤ rank x
  covers : ∀ y ∈ entries, ∃ x ∈ xs, key x = key y

theorem oncePerKey_mergeAll_iff {σ : Type} [LinearOrder σ] {seen : α → σ} :
    OncePerKey key seen (base ++ xss.flatten) (mergeAll key rank base xss) ↔ (base.map key).Nodup ∧
        ∀ x ∈ mergeAll key rank base xss, ∀ y ∈ base ++ xss.flatten, key y = key x → seen y ≤ seen x := by
  constructor
  · exact fun h => ⟨(nodup_map_mergeAll base xss).mp h.nodup, h.highest⟩
  · rintro ⟨hnodup, hhighest⟩
    refine ⟨(nodup_map_mergeAll base xss).mpr hnodup, fun x hx => ?_, hhighest,
      fun y hy => exists_mem_mergeAll hnodup hy⟩
    rcases (mem_mergeAll hnodup hx).2 with ⟨xs, hxs, hlatest⟩ | ⟨hbase, -⟩
    · exact List.mem_append_right _ (List.mem_flatten.mpr ⟨xs, hxs, (key_of_latestOf hlatest).1⟩)
    · exact List.mem_append_left _ hbase

end DistDb.Lib
