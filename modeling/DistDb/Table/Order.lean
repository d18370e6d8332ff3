import DistDb.Table.Value

/-! # The order of stored values

Two values are compared as uuids if both are uuids, else as numbers if both are numbers, else as texts. -/

namespace DistDb
open Lib

theorem compareBytes_eq_compare (left right : Bytes) : compareBytes left right = compare left right := by
  induction left generalizing right with
  | nil => cases right <;> rfl
  | cons byte left ih =>
    cases right with
    | nil => rfl
    | cons byte' right => rw [compareBytes, ih, List.compare_cons_cons]

def StoredNumericValue.integer : StoredNumericValue → Int
  | .signed v => v
  | .unsigned v => v
  | .float _ => 0

def StoredNumericValue.isFloat : StoredNumericValue → Bool
  | .float _ => true
  | _ => false

variable (prims : ValuePrimitives)

/-- The value is not decoded as a float. -/
def HoldsNoFloat (value : Bytes) : Prop :=
  (decodeNumericValue prims value).any StoredNumericValue.isFloat = false

instance (value : Bytes) : Decidable (HoldsNoFloat prims value) := inferInstanceAs (Decidable (_ = false))

inductive ComparedAs where
  | uuid
  | number
  | text
  deriving DecidableEq, Repr

def comparedAs (left right : Bytes) : ComparedAs :=
  if (decodeDbUuidBinaryForCompare prims left).isSome ∧ (decodeDbUuidBinaryForCompare prims right).isSome then .uuid
  else if (decodeNumericValue prims left).isSome ∧ (decodeNumericValue prims right).isSome then .number
  else .text

def uuidKey (value : Bytes) : Bytes := (decodeDbUuidBinaryForCompare prims value).getD []

def numberKey (value : Bytes) : Int := ((decodeNumericValue prims value).map StoredNumericValue.integer).getD 0

def compareAs (kind : ComparedAs) (left right : Bytes) : Ordering :=
  match kind with
  | .uuid => compare (uuidKey prims left) (uuidKey prims right)
  | .number => compare (numberKey prims left) (numberKey prims right)
  | .text => compare (renderStoredFieldValue prims left) (renderStoredFieldValue prims right)

variable {prims} {a b c : Bytes}

theorem compareAs_swap (kind : ComparedAs) : compareAs prims kind b a = (compareAs prims kind a b).swap := by
  cases kind <;> simp only [compareAs] <;> exact Std.OrientedCmp.eq_swap

theorem compareAs_trans {kind : ComparedAs} (hab : (compareAs prims kind a b).isLE = true)
    (hbc : (compareAs prims kind b c).isLE = true) : (compareAs prims kind a c).isLE = true := by
  cases kind <;> simp only [compareAs] at hab hbc ⊢ <;> exact Std.TransCmp.isLE_trans hab hbc

theorem compareNumericValues_eq {lhs rhs : StoredNumericValue} (hl : lhs.isFloat = false)
    (hr : rhs.isFloat = false) : compareNumericValues prims lhs rhs = compare lhs.integer rhs.integer := by
  cases lhs with
  | float bits => simp [StoredNumericValue.isFloat] at hl
  | signed l =>
    cases rhs with
    | float bits => simp [StoredNumericValue.isFloat] at hr
    | signed r | unsigned r => rfl
  | unsigned l =>
    cases rhs with
    | float bits => simp [StoredNumericValue.isFloat] at hr
    | signed r => rfl
    | unsigned r =>
      simp only [compareNumericValues, StoredNumericValue.integer]
      rcases Nat.lt_trichotomy l r with h | rfl | h
      · rw [Nat.compare_eq_lt.mpr h, eq_comm, compare_lt_iff_lt]
        exact_mod_cast h
      · simp
      · rw [Nat.compare_eq_gt.mpr h, eq_comm, compare_gt_iff_gt]
        exact_mod_cast h

theorem HoldsNoFloat.isFloat_eq_false (h : HoldsNoFloat prims a) {number : StoredNumericValue}
    (hnumber : decodeNumericValue prims a = some number) : number.isFloat = false := by
  simpa [HoldsNoFloat, hnumber] using h

theorem compareStoredFieldValues_eq (ha : HoldsNoFloat prims a) (hb : HoldsNoFloat prims b) :
    compareStoredFieldValues prims a b = compareAs prims (comparedAs prims a b) a b := by
  have hnumbers : ∀ l r, decodeNumericValue prims a = some l → decodeNumericValue prims b = some r →
      compareNumericValues prims l r = compare l.integer r.integer := fun l r hl hr =>
    compareNumericValues_eq (ha.isFloat_eq_false hl) (hb.isFloat_eq_false hr)
  unfold compareStoredFieldValues comparedAs compareAs uuidKey numberKey
  simp only [compareBytes_eq_compare]
  cases hua : decodeDbUuidBinaryForCompare prims a with
  | some ua =>
    cases hub : decodeDbUuidBinaryForCompare prims b with
    | some ub => simp
    | none =>
      cases hna : decodeNumericValue prims a with
      | none => simp
      | some l =>
        cases hnb : decodeNumericValue prims b with
        | none => simp
        | some r => simp [hnumbers l r hna hnb]
  | none =>
    cases hna : decodeNumericValue prims a with
    | none => simp
    | some l =>
      cases hnb : decodeNumericValue prims b with
      | none => simp
      | some r => simp [hnumbers l r hna hnb]

theorem comparedAs_comm : comparedAs prims a b = comparedAs prims b a := by
  unfold comparedAs
  simp only [and_comm]

/-- The comparison of stored values that are no floats is antisymmetric. It is transitive on values that are all
compared alike. -/
theorem stored_values_preorder (prims : ValuePrimitives) (a b c : Bytes) (ha : HoldsNoFloat prims a)
    (hb : HoldsNoFloat prims b) (hc : HoldsNoFloat prims c) :
    compareStoredFieldValues prims b a = (compareStoredFieldValues prims a b).swap ∧
    (comparedAs prims a b = comparedAs prims a c → comparedAs prims b c = comparedAs prims a c →
      (compareStoredFieldValues prims a b).isLE = true → (compareStoredFieldValues prims b c).isLE = true →
        (compareStoredFieldValues prims a c).isLE = true) := by
  rw [compareStoredFieldValues_eq ha hb, compareStoredFieldValues_eq hb ha, compareStoredFieldValues_eq hb hc,
    compareStoredFieldValues_eq ha hc]
  constructor
  · rw [comparedAs_comm]
    exact compareAs_swap _
  · intro hab hbc
    rw [hab, hbc]
    exact compareAs_trans

/-- The texts of 1, 2 and 3 are in order. -/
theorem small_numbers_in_order :
    (compareStoredFieldValues .plain (utf8Bytes "1") (utf8Bytes "3")).isLE = true :=
  (stored_values_preorder .plain (utf8Bytes "1") (utf8Bytes "2") (utf8Bytes "3") (by decide +kernel)
    (by decide +kernel) (by decide +kernel)).2 (by decide +kernel) (by decide +kernel) (by decide +kernel)
    (by decide +kernel)

/-- 10 comes before the text `1a`, that before 9, and 9 before 10. -/
theorem numbers_and_text_in_a_circle :
    HoldsNoFloat .plain (utf8Bytes "10") ∧ HoldsNoFloat .plain (utf8Bytes "1a") ∧
    HoldsNoFloat .plain (utf8Bytes "9") ∧
    (compareStoredFieldValues .plain (utf8Bytes "10") (utf8Bytes "1a")).isLE = true ∧
    (compareStoredFieldValues .plain (utf8Bytes "1a") (utf8Bytes "9")).isLE = true ∧
    (compareStoredFieldValues .plain (utf8Bytes "10") (utf8Bytes "9")).isLE = false := by
  decide +kernel

end DistDb
