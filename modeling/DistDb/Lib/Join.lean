import Mathlib

/-! # Joins

Joins of two lists of rows. Each left row is paired with the rows it matches; a left row that matches none,
and a right row that no left row matches, may be kept on their own. -/

namespace DistDb.Lib

variable {α β γ : Type}

def matchedOrAlone (keep : Bool) (matched : List β) (pair : β → γ) (alone : γ) : List γ :=
  if matched.isEmpty && keep then [alone] else matched.map pair

structure JoinRows (α β γ : Type) where
  pair : α → β → γ
  leftOnly : α → γ
  rightOnly : β → γ
  keepLeft : Bool
  keepRight : Bool

namespace JoinRows

variable (rows : JoinRows α β γ)

def joinBy [DecidableEq β] (matched : α → Option (List β)) (lefts : List α) (rights : List β) : List γ :=
  (lefts.flatMap fun l => (matched l).elim [] fun rs =>
    matchedOrAlone rows.keepLeft rs (rows.pair l) (rows.leftOnly l)) ++
  if rows.keepRight then
    (rights.filter fun r => lefts.all fun l => (matched l).all (r ∉ ·)).map rows.rightOnly
  else []

def nestedLoop (on : α → β → Bool) (lefts : List α) (rights : List β) : List γ :=
  (lefts.flatMap fun l =>
    matchedOrAlone rows.keepLeft (rights.filter (on l)) (rows.pair l) (rows.leftOnly l)) ++
  if rows.keepRight then (rights.filter fun r => lefts.all fun l => !on l r).map rows.rightOnly else []

variable {rows} {lefts lefts' : List α} {rights rights' : List β} {on : α → β → Bool}

theorem nestedLoop_eq_joinBy [DecidableEq β] :
    rows.nestedLoop on lefts rights = rows.joinBy (fun l => some (rights.filter (on l))) lefts rights := by
  have hunmatched : (rights.filter fun r => lefts.all fun l => !on l r) =
      rights.filter fun r => lefts.all fun l => (some (rights.filter (on l))).all (r ∉ ·) := by
    refine List.filter_congr fun r hr => ?_
    simp [hr]
  rw [nestedLoop, joinBy, hunmatched]
  rfl

theorem matchedOrAlone_perm {keep : Bool} {matched matched' : List β} {pair : β → γ} {alone : γ}
    (h : matched.Perm matched') :
    (matchedOrAlone keep matched pair alone).Perm (matchedOrAlone keep matched' pair alone) := by
  unfold matchedOrAlone
  have hempty : matched.isEmpty = matched'.isEmpty := by
    rw [Bool.eq_iff_iff, List.isEmpty_iff, List.isEmpty_iff]
    exact ⟨fun hnil => (hnil ▸ h).nil_eq.symm, fun hnil => (hnil ▸ h).eq_nil⟩
  rw [hempty]
  split
  · exact .refl _
  · exact h.map _

theorem nestedLoop_perm (hlefts : lefts.Perm lefts') (hrights : rights.Perm rights') :
    (rows.nestedLoop on lefts rights).Perm (rows.nestedLoop on lefts' rights') := by
  unfold nestedLoop
  refine .append (.flatMap hlefts fun l _ => matchedOrAlone_perm (hrights.filter _)) ?_
  split
  · have hall : (fun r => lefts.all fun l => !on l r) = fun r => lefts'.all fun l => !on l r := by
      funext r
      rw [Bool.eq_iff_iff, List.all_eq_true, List.all_eq_true]
      exact forall_congr' fun l => by rw [hlefts.mem_iff]
    rw [hall]
    exact (hrights.filter _).map _
  · exact .refl _

theorem nestedLoop_perm_of_filter (h : ∀ l ∈ lefts, (rights.filter (on l)).Perm (rights'.filter (on l)))
    (hkeep : rows.keepRight = true → rights.Perm rights') :
    (rows.nestedLoop on lefts rights).Perm (rows.nestedLoop on lefts rights') := by
  unfold nestedLoop
  refine .append (.flatMap (.refl _) fun l hl => matchedOrAlone_perm (h l hl)) ?_
  split
  · rename_i hright
    exact ((hkeep hright).filter _).map _
  · exact .refl _

theorem mem_matchedOrAlone {keepAlone : Bool} {rs : List β} {pair : β → γ} {alone x : γ} :
    x ∈ matchedOrAlone keepAlone rs pair alone ↔ (∃ r ∈ rs, pair r = x) ∨ (rs = [] ∧ keepAlone = true ∧ alone = x) := by
  unfold matchedOrAlone
  cases rs with
  | nil => cases keepAlone <;> simp [eq_comm]
  | cons r rs => simp [eq_comm]

/-! ## Exactness -/

section Exact

variable [DecidableEq β] {matched : α → Option (List β)} {x : γ}

theorem mem_joinBy : x ∈ rows.joinBy matched lefts rights ↔ (∃ l ∈ lefts, ∃ rs, matched l = some rs ∧
      ((∃ r ∈ rs, rows.pair l r = x) ∨ (rs = [] ∧ rows.keepLeft = true ∧ rows.leftOnly l = x))) ∨
    (rows.keepRight = true ∧ ∃ r ∈ rights,
      (∀ l ∈ lefts, ∀ rs, matched l = some rs → r ∉ rs) ∧ rows.rightOnly r = x) := by
  rw [joinBy, List.mem_append, List.mem_flatMap]
  refine or_congr (exists_congr fun l => and_congr_right fun _ => ?_) ?_
  · cases hl : matched l with
    | none => simp
    | some rs => simp [mem_matchedOrAlone]
  · cases rows.keepRight with
    | false => simp
    | true => simp [Option.all_eq_true, and_assoc]

structure Tells (rows : JoinRows α β γ) (lefts : List α) : Prop where
  pair_inj : ∀ l ∈ lefts, ∀ l' ∈ lefts, ∀ r r', rows.pair l r = rows.pair l' r' → l = l' ∧ r = r'
  leftOnly_inj : ∀ l ∈ lefts, ∀ l' ∈ lefts, rows.leftOnly l = rows.leftOnly l' → l = l'
  pair_ne_leftOnly : ∀ l ∈ lefts, ∀ l' ∈ lefts, ∀ r, rows.pair l r ≠ rows.leftOnly l'
  pair_ne_rightOnly : ∀ l ∈ lefts, ∀ r r', rows.pair l r ≠ rows.rightOnly r'
  leftOnly_ne_rightOnly : ∀ l ∈ lefts, ∀ r, rows.leftOnly l ≠ rows.rightOnly r

theorem Tells.pair_mem_joinBy (h : rows.Tells lefts) (matched : α → Option (List β)) (rights : List β)
    {l : α} (hl : l ∈ lefts) {r : β} :
    rows.pair l r ∈ rows.joinBy matched lefts rights ↔ ∃ rs, matched l = some rs ∧ r ∈ rs := by
  rw [mem_joinBy]
  constructor
  · rintro (⟨l', hl', rs, hrs, ⟨r', hr', hpair⟩ | ⟨-, -, halone⟩⟩ | ⟨-, r', -, -, hright⟩)
    · obtain ⟨rfl, rfl⟩ := h.pair_inj _ hl' _ hl _ _ hpair
      exact ⟨rs, hrs, hr'⟩
    · exact absurd halone.symm (h.pair_ne_leftOnly _ hl _ hl' _)
    · exact absurd hright.symm (h.pair_ne_rightOnly _ hl _ _)
  · rintro ⟨rs, hrs, hr⟩
    exact .inl ⟨l, hl, rs, hrs, .inl ⟨r, hr, rfl⟩⟩

theorem Tells.leftOnly_mem_joinBy (h : rows.Tells lefts) (matched : α → Option (List β)) (rights : List β)
    {l : α} (hl : l ∈ lefts) :
    rows.leftOnly l ∈ rows.joinBy matched lefts rights ↔ matched l = some [] ∧ rows.keepLeft = true := by
  rw [mem_joinBy]
  constructor
  · rintro (⟨l', hl', rs, hrs, ⟨r', -, hpair⟩ | ⟨rfl, hkeep, halone⟩⟩ | ⟨-, r', -, -, hright⟩)
    · exact absurd hpair (h.pair_ne_leftOnly _ hl' _ hl _)
    · obtain rfl := h.leftOnly_inj _ hl' _ hl halone
      exact ⟨hrs, hkeep⟩
    · exact absurd hright.symm (h.leftOnly_ne_rightOnly _ hl _)
  · rintro ⟨hnil, hkeep⟩
    exact .inl ⟨l, hl, [], hnil, .inr ⟨rfl, hkeep, rfl⟩⟩

def MatchesExactly (rows : JoinRows α β γ) (on : α → β → Bool) (rights : List β) (matched : Option (List β))
    (l : α) : Prop :=
  match matched with
  | none => rows.keepLeft = false ∧ ∀ r ∈ rights, on l r = false
  | some rs => ∀ r ∈ rights, r ∈ rs ↔ on l r = true

theorem joinBy_perm_nestedLoop (hrights : rights.Nodup)
    (hmatched : ∀ l ∈ lefts, ∀ rs, matched l = some rs → rs.Nodup ∧ rs ⊆ rights)
    (h : ∀ l ∈ lefts, rows.MatchesExactly on rights (matched l) l) :
    (rows.joinBy matched lefts rights).Perm (rows.nestedLoop on lefts rights) := by
  have hmem : ∀ l ∈ lefts, ∀ r ∈ rights, ((matched l).all (r ∉ ·)) = !on l r := by
    intro l hl r hr
    have := h l hl
    cases hrs : matched l with
    | none => simp_all [MatchesExactly]
    | some rs =>
      rw [hrs] at this
      rw [Option.all_some, Bool.eq_iff_iff]
      simpa using not_congr (this r hr)
  rw [joinBy, nestedLoop]
  refine .append (.flatMap (.refl _) fun l hl => ?_) (.of_eq ?_)
  · have hl' := h l hl
    cases hrs : matched l with
    | none =>
      rw [hrs] at hl'
      have hnil : rights.filter (on l) = [] := List.filter_eq_nil_iff.mpr fun r hr => by simp [hl'.2 r hr]
      simp [hnil, matchedOrAlone, hl'.1]
    | some rs =>
      rw [hrs] at hl'
      obtain ⟨hnodup, hsub⟩ := hmatched l hl rs hrs
      refine matchedOrAlone_perm ((List.perm_ext_iff_of_nodup hnodup (hrights.filter _)).mpr fun r => ?_)
      rw [List.mem_filter]
      exact ⟨fun hr => ⟨hsub hr, (hl' r (hsub hr)).mp hr⟩, fun hr => (hl' r hr.1).mpr hr.2⟩
  · have hfilter : (rights.filter fun r => lefts.all fun l => (matched l).all (r ∉ ·)) =
        rights.filter fun r => lefts.all fun l => !on l r := by
      refine List.filter_congr fun r hr => ?_
      rw [Bool.eq_iff_iff, List.all_eq_true, List.all_eq_true]
      exact forall₂_congr fun l hl => by rw [hmem l hl r hr]
    rw [hfilter]

theorem Tells.joinBy_perm_nestedLoop_iff (htells : rows.Tells lefts) (hrights : rights.Nodup)
    (hmatched : ∀ l ∈ lefts, ∀ rs, matched l = some rs → rs.Nodup ∧ rs ⊆ rights) :
    (rows.joinBy matched lefts rights).Perm (rows.nestedLoop on lefts rights) ↔
      ∀ l ∈ lefts, rows.MatchesExactly on rights (matched l) l := by
  refine ⟨fun h l hl => ?_, joinBy_perm_nestedLoop hrights hmatched⟩
  have hpair : ∀ r ∈ rights, (∃ rs, matched l = some rs ∧ r ∈ rs) ↔ on l r = true := by
    intro r hr
    rw [← htells.pair_mem_joinBy matched rights hl, h.mem_iff, nestedLoop_eq_joinBy, htells.pair_mem_joinBy _ _ hl]
    simp [hr]
  cases hrs : matched l with
  | none =>
    have hnone : ∀ r ∈ rights, on l r = false := fun r hr => by
      have := hpair r hr
      simp_all
    refine ⟨?_, hnone⟩
    have hkeep := htells.leftOnly_mem_joinBy matched rights hl
    rw [h.mem_iff, nestedLoop_eq_joinBy, htells.leftOnly_mem_joinBy _ _ hl] at hkeep
    have hnil : rights.filter (on l) = [] := List.filter_eq_nil_iff.mpr fun r hr => by simp [hnone r hr]
    simpa [hnil, hrs] using hkeep
  | some rs =>
    intro r hr
    rw [← hpair r hr, hrs]
    simp

end Exact

end JoinRows

end DistDb.Lib
