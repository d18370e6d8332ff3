import Mathlib

/-! # Three-valued logic

Truth values with a third one for what is not known. -/

namespace DistDb.Lib

inductive Truth where
  | holds
  | fails
  | unknown
  deriving DecidableEq, Repr

namespace Truth

variable {α β : Type} {t u : Truth} {ts : List Truth} {b c s : Bool}

def ofBool (b : Bool) : Truth := if b then holds else fails

def neg : Truth → Truth
  | holds => fails
  | fails => holds
  | unknown => unknown

def negIf (negated : Bool) (t : Truth) : Truth := if negated then t.neg else t

def and : Truth → Truth → Truth
  | fails, _ => fails
  | holds, t => t
  | unknown, fails => fails
  | unknown, _ => unknown

def or : Truth → Truth → Truth
  | holds, _ => holds
  | fails, t => t
  | unknown, holds => holds
  | unknown, _ => unknown

def all (ts : List Truth) : Truth := ts.foldr and holds

def any (ts : List Truth) : Truth := ts.foldr or fails

@[simp] theorem ofBool_eq_holds : ofBool b = holds ↔ b = true := by cases b <;> simp [ofBool]

@[simp] theorem ofBool_eq_fails : ofBool b = fails ↔ b = false := by cases b <;> simp [ofBool]

@[simp] theorem ofBool_inj : ofBool b = ofBool c ↔ b = c := by cases b <;> cases c <;> simp [ofBool]

@[simp] theorem neg_eq_holds : t.neg = holds ↔ t = fails := by cases t <;> simp [neg]

@[simp] theorem neg_eq_fails : t.neg = fails ↔ t = holds := by cases t <;> simp [neg]

@[simp] theorem negIf_true : negIf true t = t.neg := rfl

@[simp] theorem negIf_false : negIf false t = t := rfl

theorem and_eq_holds : t.and u = holds ↔ t = holds ∧ u = holds := by cases t <;> cases u <;> simp [and]

theorem and_eq_fails : t.and u = fails ↔ t = fails ∨ u = fails := by cases t <;> cases u <;> simp [and]

theorem or_eq_holds : t.or u = holds ↔ t = holds ∨ u = holds := by cases t <;> cases u <;> simp [or]

theorem or_eq_fails : t.or u = fails ↔ t = fails ∧ u = fails := by cases t <;> cases u <;> simp [or]

@[simp] theorem any_eq_holds : any ts = holds ↔ ∃ t ∈ ts, t = holds := by
  induction ts with
  | nil => simp [any]
  | cons t ts ih => rw [List.exists_mem_cons_iff, ← ih, any, List.foldr_cons, or_eq_holds, any]

@[simp] theorem any_eq_fails : any ts = fails ↔ ∀ t ∈ ts, t = fails := by
  induction ts with
  | nil => simp [any]
  | cons t ts ih => rw [List.forall_mem_cons, ← ih, any, List.foldr_cons, or_eq_fails, any]

@[simp] theorem all_eq_holds : all ts = holds ↔ ∀ t ∈ ts, t = holds := by
  induction ts with
  | nil => simp [all]
  | cons t ts ih => rw [List.forall_mem_cons, ← ih, all, List.foldr_cons, and_eq_holds, all]

@[simp] theorem all_eq_fails : all ts = fails ↔ ∃ t ∈ ts, t = fails := by
  induction ts with
  | nil => simp [all]
  | cons t ts ih => rw [List.exists_mem_cons_iff, ← ih, all, List.foldr_cons, and_eq_fails, all]

/-- The truth of all, or with `decisive` of any: one value `decisive` decides. -/
def junction (decisive : Bool) (ts : List Truth) : Truth := cond decisive (any ts) (all ts)

theorem junction_eq_decisive {decisive : Bool} :
    junction decisive ts = ofBool decisive ↔ ∃ t ∈ ts, t = ofBool decisive := by
  cases decisive with
  | false => exact all_eq_fails
  | true => exact any_eq_holds

theorem junction_eq_not_decisive {decisive : Bool} :
    junction decisive ts = ofBool (!decisive) ↔ ∀ t ∈ ts, t = ofBool (!decisive) := by
  cases decisive with
  | false => exact all_eq_holds
  | true => exact any_eq_fails

/-! ## Tests of values that may be missing -/

def lift₂ (test : α → β → Bool) : Option α → Option β → Truth
  | some a, some b => ofBool (test a b)
  | _, _ => unknown

variable {test : α → β → Bool}

@[simp] theorem lift₂_none_left {b : Option β} : lift₂ test none b = unknown := rfl

@[simp] theorem lift₂_none_right {a : Option α} : lift₂ test a none = unknown := by
  cases a <;> rfl

@[simp] theorem lift₂_some {a : α} {b : β} : lift₂ test (some a) (some b) = ofBool (test a b) := rfl

theorem neg_lift₂ {a : Option α} {b : Option β} : (lift₂ test a b).neg = lift₂ (fun a b => !test a b) a b := by
  cases a with
  | none => rfl
  | some a =>
    cases b with
    | none => rfl
    | some b => cases h : test a b <;> simp [h, ofBool, neg]

variable {bs : List (Option β)}

theorem all_map_lift₂ {a : Option α} :
    all (bs.map (lift₂ test a)) = (any (bs.map (lift₂ (fun a b => !test a b) a))).neg := by
  induction bs with
  | nil => rfl
  | cons b bs ih =>
    simp only [List.map_cons, all, any, List.foldr_cons] at ih ⊢
    rw [ih, ← neg_lift₂]
    generalize lift₂ test a b = t
    generalize List.foldr or fails _ = u
    cases t <;> cases u <;> rfl

theorem any_map_lift₂_none : any (bs.map (lift₂ test none)) = if bs = [] then fails else unknown := by
  induction bs with
  | nil => rfl
  | cons b bs ih =>
    simp only [List.map_cons, any, List.foldr_cons, lift₂_none_left] at ih ⊢
    rw [ih]
    split <;> rfl

theorem any_map_lift₂_eq_holds {a : α} :
    any (bs.map (lift₂ test (some a))) = holds ↔ ∃ b, some b ∈ bs ∧ test a b = true := by
  rw [any_eq_holds]
  constructor
  · rintro ⟨t, ht, rfl⟩
    obtain ⟨b, hb, hholds⟩ := List.mem_map.mp ht
    cases b with
    | none => simp at hholds
    | some b => exact ⟨b, hb, ofBool_eq_holds.mp hholds⟩
  · rintro ⟨b, hb, htest⟩
    exact ⟨_, List.mem_map_of_mem hb, ofBool_eq_holds.mpr htest⟩

theorem any_map_lift₂_eq_fails {a : α} :
    any (bs.map (lift₂ test (some a))) = fails ↔ none ∉ bs ∧ ∀ b, some b ∈ bs → test a b = false := by
  rw [any_eq_fails, List.forall_mem_map]
  constructor
  · intro h
    refine ⟨fun hnone => ?_, fun b hb => ofBool_eq_fails.mp (h _ hb)⟩
    simpa using h _ hnone
  · rintro ⟨hnone, htest⟩ b hb
    cases b with
    | none => exact absurd hb hnone
    | some b => exact ofBool_eq_fails.mpr (htest b hb)

/-! ## Agreement with two truth values -/

/-- Of a Boolean and a truth value, one is `s` exactly when the other is. For `s` true both accept the same;
for `s` false, both refute the same. -/
def Agrees (s b : Bool) (t : Truth) : Prop := b = s ↔ t = ofBool s

theorem agrees_true : Agrees true b t ↔ (b = true ↔ t = holds) := Iff.rfl

theorem agrees_false : Agrees false b t ↔ (b = false ↔ t = fails) := Iff.rfl

@[simp] theorem agrees_ofBool : Agrees s b (ofBool b) := by cases s <;> simp [agrees_true, agrees_false]

@[simp] theorem agrees_fails : Agrees s false fails := agrees_ofBool

@[simp] theorem agrees_unknown : Agrees s b unknown ↔ b = !s := by
  cases s <;> simp [agrees_true, agrees_false]

theorem agrees_not : Agrees s (!b) t.neg ↔ Agrees (!s) b t := by
  cases s <;> simp [agrees_true, agrees_false]

theorem agrees_negIf {negated : Bool} : Agrees s (b ^^ negated) (negIf negated t) ↔ Agrees (s ^^ negated) b t := by
  cases negated <;> simp [agrees_not]

theorem Agrees.ne_ofBool_not (h : Agrees s b t) : t ≠ ofBool (!b) := by
  revert h
  cases s <;> cases b <;> cases t <;> simp [Agrees, ofBool]

theorem agrees_any_getD (test : α → β → Bool) (a : α) (bs : List (Option β)) (d : β) :
    Agrees s ((bs.map (·.getD d)).any (test a)) (any (bs.map (lift₂ test (some a)))) ↔
      (none ∈ bs → if s = false then test a d = true ∨ ∃ b, some b ∈ bs ∧ test a b = true
        else test a d = true → ∃ b, some b ∈ bs ∧ test a b = true) := by
  have hany : (bs.map (·.getD d)).any (test a) = true ↔
      (none ∈ bs ∧ test a d = true) ∨ ∃ b, some b ∈ bs ∧ test a b = true := by
    simp only [List.any_map, List.any_eq_true, Function.comp_apply]
    constructor
    · rintro ⟨b, hb, htest⟩
      cases b with
      | none => exact .inl ⟨hb, htest⟩
      | some b => exact .inr ⟨b, hb, htest⟩
    · rintro (⟨hb, htest⟩ | ⟨b, hb, htest⟩)
      · exact ⟨none, hb, htest⟩
      · exact ⟨some b, hb, htest⟩
  cases s with
  | true =>
    rw [agrees_true, hany, any_map_lift₂_eq_holds]
    simp only [Bool.true_eq_false, if_false]
    tauto
  | false =>
    have hfails : (∀ b, some b ∈ bs → test a b = false) ↔ ¬∃ b, some b ∈ bs ∧ test a b = true := by
      simp
    rw [agrees_false, ← Bool.not_eq_true, hany, any_map_lift₂_eq_fails, hfails]
    by_cases hnone : none ∈ bs <;> by_cases hsome : ∃ b, some b ∈ bs ∧ test a b = true <;>
      simp [hnone, hsome]

end Truth

end DistDb.Lib
