import DistDb.Lib.Comparison
import DistDb.Lib.Numerals
import DistDb.Mutation.Statement
import DistDb.Query.Select
import DistDb.Table.Order

/-! # The order of ORDER BY

Integers and texts together are in order exactly if no text stands between two integers that stand the other way round
as texts. -/

namespace DistDb.Mutation
open Lib Wal Execution

/-! ## ORDER BY -/

section OrderBy

variable (prims : ValuePrimitives) (evaluate : String → RowMap → Option Bytes)

def stripMarker (marker text : String) : Option String :=
  if startsWith text marker then some (String.ofList (text.toList.drop marker.length)) else none

def trimStart (text : String) : String := String.ofList (text.toList.dropWhile isWhitespace)

def trimEnd (text : String) : String := String.ofList (text.toList.reverse.dropWhile isWhitespace).reverse

def absF64 (bits : UInt64) : UInt64 := bits &&& 0x7fffffffffffffff

/-- Functions of a column, by the markers that `ORDER BY` items have them under. -/
def orderTextFunctions : List (String × (String → Option String)) :=
  [("__order_expr_lower__:", fun value => some (toAsciiLowercase value)),
    ("__order_expr_upper__:", fun value => some (toAsciiUppercase value)),
    ("__order_expr_abs__:", fun value => (prims.parseF64 (trim value)).map fun bits => prims.renderF64 (absF64 bits)),
    ("__order_expr_length__:", fun value => some (toString value.toList.length)),
    ("__order_expr_reverse__:", fun value => some (String.ofList value.toList.reverse)),
    ("__order_expr_trim__:", fun value => some (trim value)),
    ("__order_expr_ltrim__:", fun value => some (trimStart value)),
    ("__order_expr_rtrim__:", fun value => some (trimEnd value))]

def orderExpressionFunctions : List (String × (String → Option String)) :=
  [("__order_expr_ceil__:", fun column => some s!"ceil({column})"),
    ("__order_expr_floor__:", fun column => some s!"floor({column})"),
    ("__order_expr_round__:", fun column => some s!"round({column})"),
    ("__order_expr_round_scale__:", fun encoded =>
      (splitOnce ':' encoded).bind fun (scaleText, column) =>
        (parseSigned (2 ^ 31) scaleText).map fun scale => s!"round({column},{scale})")]

def resolveMutationOrderValue (row : RowMap) (fieldName : String) : String :=
  match (orderTextFunctions prims).findSome? fun (marker, apply) =>
      (stripMarker marker fieldName).map (·, apply) with
  | some (column, apply) => (((row.lookup column).map (displayStoredFieldValue prims)).bind apply).getD "NULL"
  | none =>
  match orderExpressionFunctions.findSome? fun (marker, expression) =>
      (stripMarker marker fieldName).map expression with
  | some expression =>
    ((expression.bind (evaluate · row)).map prims.fromUtf8Lossy).getD "NULL"
  | none => ((row.lookup fieldName).map (displayStoredFieldValue prims)).getD "NULL"

/-- A text that reads `NULL` counts as null, and texts of numbers are compared as numbers. -/
def compareDeleteOrderValues (left right : String) : Ordering :=
  match decide (toAsciiLowercase left = "null"), decide (toAsciiLowercase right = "null") with
  | true, true => .eq
  | true, false => .lt
  | false, true => .gt
  | false, false =>
    match prims.parseF64 left, prims.parseF64 right with
    | some left, some right => compareF64 left right
    | _, _ => compareBytes (utf8Bytes left) (utf8Bytes right)

def compareOrderByItems : List Query.SelectOrderByItem → RowMap → RowMap → Ordering
  | [], _, _ => .eq
  | item :: items, left, right =>
    let ordering := compareDeleteOrderValues prims (resolveMutationOrderValue prims evaluate left item.fieldName)
      (resolveMutationOrderValue prims evaluate right item.fieldName)
    (if item.descending then ordering.swap else ordering).then (compareOrderByItems items left right)

def orderByItems (items : List Query.SelectOrderByItem) : Option (RowMap → RowMap → Bool) :=
  if items = [] then none else some fun left right => compareOrderByItems prims evaluate items left right ≠ .gt

example : orderByItems .plain (fun _ _ => none) [] = none := rfl

end OrderBy

end DistDb.Mutation

namespace DistDb.Query
open Lib Mutation

/-! ## Integers as floating point numbers -/

/-- Exponent and mantissa of a natural number that needs no more than 53 bits. -/
def wholeF64Bits (n : Nat) : Nat :=
  if n = 0 then 0 else (n.log2 + 1022) * 2 ^ 52 + n * 2 ^ (52 - n.log2)

def wholeF64 (v : Int) : UInt64 :=
  if 0 ≤ v then .ofNat (wholeF64Bits v.natAbs) else .ofNat (2 ^ 63 + wholeF64Bits v.natAbs)

example : wholeF64 10 = 0x4024000000000000 ∧ wholeF64 (-3) = 0xc008000000000000 := by decide +kernel

theorem wholeF64Bits_mantissa {n : Nat} (hn : n ≠ 0) (hlt : n < 2 ^ 53) :
    n.log2 ≤ 52 ∧ 2 ^ 52 ≤ n * 2 ^ (52 - n.log2) ∧ n * 2 ^ (52 - n.log2) < 2 ^ 53 := by
  have hlog : n.log2 ≤ 52 := Nat.lt_succ_iff.mp ((Nat.log2_lt hn).mpr hlt)
  have hlow : 2 ^ n.log2 ≤ n := Nat.log2_self_le hn
  have hhigh : n < 2 ^ (n.log2 + 1) := Nat.lt_log2_self
  refine ⟨hlog, ?_, ?_⟩
  · calc 2 ^ 52 = 2 ^ n.log2 * 2 ^ (52 - n.log2) := by rw [← pow_add]; congr 1; omega
      _ ≤ n * 2 ^ (52 - n.log2) := Nat.mul_le_mul_right _ hlow
  · calc n * 2 ^ (52 - n.log2) < 2 ^ (n.log2 + 1) * 2 ^ (52 - n.log2) :=
          Nat.mul_lt_mul_of_pos_right hhigh (by positivity)
      _ = 2 ^ 53 := by rw [← pow_add]; congr 1; omega

theorem wholeF64Bits_lt {n : Nat} (hlt : n < 2 ^ 53) : wholeF64Bits n < 2 ^ 63 := by
  unfold wholeF64Bits
  split
  · positivity
  · rename_i hn
    obtain ⟨hlog, -, hhigh⟩ := wholeF64Bits_mantissa hn hlt
    omega

theorem wholeF64Bits_strictMono {m n : Nat} (hmn : m < n) (hlt : n < 2 ^ 53) : wholeF64Bits m < wholeF64Bits n := by
  have hn : n ≠ 0 := by omega
  obtain ⟨-, hnlow, -⟩ := wholeF64Bits_mantissa hn hlt
  unfold wholeF64Bits
  rw [if_neg hn]
  split
  · omega
  · rename_i hm
    obtain ⟨-, -, hmhigh⟩ := wholeF64Bits_mantissa hm (hmn.trans hlt)
    have hlog : m.log2 ≤ n.log2 := by
      rw [Nat.log2_eq_log_two, Nat.log2_eq_log_two]
      exact Nat.log_mono_right hmn.le
    rcases hlog.eq_or_lt with heq | hless
    · rw [heq]
      have hmul : m * 2 ^ (52 - n.log2) < n * 2 ^ (52 - n.log2) := Nat.mul_lt_mul_of_pos_right hmn (by positivity)
      omega
    · omega

theorem f64Rank_wholeF64 {v : Int} (h : v.natAbs < 2 ^ 53) : f64Rank (wholeF64 v) =
    if 0 ≤ v then (wholeF64Bits v.natAbs : Int) else -(wholeF64Bits v.natAbs : Int) := by
  have hbits := wholeF64Bits_lt h
  unfold wholeF64 f64Rank
  split
  · rw [UInt64.toNat_ofNat_of_lt' (by simp only [UInt64.size]; omega), if_pos hbits]
  · rw [UInt64.toNat_ofNat_of_lt' (by simp only [UInt64.size]; omega), if_neg (by omega)]
    push_cast
    ring

theorem isNanF64_wholeF64 {v : Int} (h : v.natAbs < 2 ^ 53) : isNanF64 (wholeF64 v) = false := by
  have hfinite : ∀ bits : UInt64, bits.toNat / 2 ^ 52 % 2 ^ 11 < 2047 → isFiniteF64 bits = true := by
    intro bits hbits
    rw [isFiniteF64, bne_iff_ne, ne_eq, ← UInt64.toNat_inj, UInt64.toNat_and, UInt64.toNat_shiftRight]
    have hmask : (0x7ff : UInt64).toNat = 2 ^ 11 - 1 := rfl
    rw [hmask, Nat.and_two_pow_sub_one_eq_mod, Nat.shiftRight_eq_div_pow]
    exact hbits.ne
  have hexponent : wholeF64Bits v.natAbs / 2 ^ 52 < 2047 := by
    unfold wholeF64Bits
    split
    · decide
    · rename_i hn
      obtain ⟨hlog, -, hhigh⟩ := wholeF64Bits_mantissa hn h
      omega
  have hbits := wholeF64Bits_lt h
  rw [isNanF64, hfinite, Bool.not_true, Bool.false_and]
  unfold wholeF64
  split
  · rw [UInt64.toNat_ofNat_of_lt' (by simp only [UInt64.size]; omega)]
    omega
  · rw [UInt64.toNat_ofNat_of_lt' (by simp only [UInt64.size]; omega)]
    omega

theorem f64Rank_wholeF64_strictMono {v w : Int} (hvw : v < w) (hv : v.natAbs < 2 ^ 53) (hw : w.natAbs < 2 ^ 53) :
    f64Rank (wholeF64 v) < f64Rank (wholeF64 w) := by
  have hstep : ∀ m n : Nat, m < n → n < 2 ^ 53 → (wholeF64Bits m : Int) < wholeF64Bits n := fun m n hmn hn => by
    exact_mod_cast wholeF64Bits_strictMono hmn hn
  rw [f64Rank_wholeF64 hv, f64Rank_wholeF64 hw]
  split
  · rw [if_pos (by omega)]
    exact hstep _ _ (by omega) hw
  · have hpos := hstep 0 v.natAbs (by omega) hv
    have hzero : (wholeF64Bits 0 : Int) = 0 := rfl
    split
    · omega
    · have hless := hstep w.natAbs v.natAbs (by omega) hv
      omega

theorem compare_f64Rank_wholeF64 {v w : Int} (hv : v.natAbs < 2 ^ 53) (hw : w.natAbs < 2 ^ 53) :
    compare (f64Rank (wholeF64 v)) (f64Rank (wholeF64 w)) = compare v w := by
  rcases lt_trichotomy v w with h | rfl | h
  · rw [compare_lt_iff_lt.mpr h, compare_lt_iff_lt]
    exact f64Rank_wholeF64_strictMono h hv hw
  · simp
  · rw [compare_gt_iff_gt.mpr h, compare_gt_iff_gt]
    exact f64Rank_wholeF64_strictMono h hw hv

/-! ## Decimal integers -/

def fifteenDigits (digits : List Char) : Option Nat := if digits.length ≤ 15 then parseDigits digits else none

def decimalInteger (text : String) : Option Int :=
  match text.toList with
  | '-' :: digits => (fifteenDigits digits).map fun n : Nat => -(n : Int)
  | '+' :: digits => (fifteenDigits digits).map fun n : Nat => (n : Int)
  | digits => (fifteenDigits digits).map fun n : Nat => (n : Int)

theorem natAbs_decimalInteger {text : String} {v : Int} (h : decimalInteger text = some v) : v.natAbs < 2 ^ 53 := by
  have hdigits : ∀ digits n, fifteenDigits digits = some n → n < 2 ^ 53 := by
    intro digits n hn
    unfold fifteenDigits at hn
    split at hn
    · rename_i hlength
      calc n < 10 ^ digits.length := parseDigits_lt hn
        _ ≤ 10 ^ 15 := Nat.pow_le_pow_right (by decide) hlength
        _ < 2 ^ 53 := by norm_num
    · cases hn
  unfold decimalInteger at h
  split at h
  all_goals
    obtain ⟨n, hn, rfl⟩ := Option.map_eq_some_iff.mp h
    have hlt := hdigits _ n hn
    omega

/-- Decimal integers are read as their floats. -/
def ReadsIntegers (prims : ValuePrimitives) : Prop :=
  ∀ text v, decimalInteger text = some v → ∃ bits, prims.parseF64 text = some bits ∧ isNanF64 bits = false ∧
    f64Rank bits = f64Rank (wholeF64 v)

/-! ## Texts and integers -/

variable {prims : ValuePrimitives}

/-- What the two parsers read of a value, if it is an integer of at most fifteen digits or no number. -/
structure ReadsAlike (number : α → Option UInt64) (integer : α → Option Int) (a : α) : Prop where
  text : integer a = none → number a = none
  whole : ∀ v ∈ integer a, ∃ bits ∈ number a, isNanF64 bits = false ∧ f64Rank bits = f64Rank (wholeF64 v) ∧
    v.natAbs < 2 ^ 53

theorem mixedCompare_readsAlike {number : α → Option UInt64} {integer : α → Option Int}
    {cmpText : α → α → Ordering} {a b : Option α} (ha : ∀ x ∈ a, ReadsAlike number integer x)
    (hb : ∀ x ∈ b, ReadsAlike number integer x) :
    mixedCompare number compareF64 cmpText a b = mixedCompare integer compare cmpText a b := by
  cases a with
  | none => cases b <;> rfl
  | some a =>
    cases b with
    | none => rfl
    | some b =>
      have ha := ha a rfl
      have hb := hb b rfl
      simp only [mixedCompare]
      cases hv : integer a with
      | none => rw [ha.text hv]
      | some v =>
        obtain ⟨bits, hbits, hnan, hrank, hsmall⟩ := ha.whole v hv
        cases hw : integer b with
        | none => rw [hb.text hw, Option.mem_def.mp hbits]
        | some w =>
          obtain ⟨bits', hbits', hnan', hrank', hsmall'⟩ := hb.whole w hw
          simp only [Option.mem_def.mp hbits, Option.mem_def.mp hbits', compareF64, hnan, hnan', hrank, hrank']
          exact compare_f64Rank_wholeF64 hsmall hsmall'

/-! ## SELECT -/

def decimalIntegerBytes (value : Bytes) : Option Int := (fromUtf8 value).bind fun text => decimalInteger (trim text)

/-- A decimal integer, or no number at all. -/
def IsOrderable (prims : ValuePrimitives) (value : Bytes) : Prop :=
  (decimalIntegerBytes value).isSome = true ∨ parseF64Bytes prims value = none

theorem compareOrderByValues_eq (left right : Option Bytes) :
    compareOrderByValues prims left right = mixedCompare (parseF64Bytes prims) compareF64 compareBytes left right := by
  cases left with
  | none => cases right <;> rfl
  | some left =>
    cases right with
    | none => rfl
    | some right =>
      simp only [compareOrderByValues, mixedCompare, parseF64Bytes]
      cases (fromUtf8 left).bind (prims.parseF64 <| trim ·) with
      | none => rfl
      | some bits => cases (fromUtf8 right).bind (prims.parseF64 <| trim ·) <;> rfl

theorem IsOrderable.readsAlike (hreads : ReadsIntegers prims) {value : Bytes} (h : IsOrderable prims value) :
    ReadsAlike (parseF64Bytes prims) decimalIntegerBytes value := by
  constructor
  · intro hnone
    rw [IsOrderable, hnone] at h
    simpa using h
  · intro v hv
    obtain ⟨text, htext, hinteger⟩ := Option.bind_eq_some_iff.mp hv
    obtain ⟨bits, hbits, hnan, hrank⟩ := hreads _ v hinteger
    exact ⟨bits, Option.bind_eq_some_iff.mpr ⟨text, htext, hbits⟩, hnan, hrank, natAbs_decimalInteger hinteger⟩

instance : Std.TransCmp compareBytes := by
  rw [show compareBytes = compare from funext₂ compareBytes_eq_compare]
  infer_instance

instance : Std.LawfulEqCmp compareBytes := ⟨fun h => compareBytes_eq_eq.mp h⟩

theorem ordersOn_int (values : Set Int) : OrdersOn (compare : Int → Int → Ordering) values where
  swap _ _ _ _ := Std.OrientedCmp.eq_swap
  trans _ _ _ _ _ _ := Std.TransCmp.isLE_trans

theorem compareOrderByValues_ordersOn_iff (hreads : ReadsIntegers prims) {cells : Set (Option Bytes)}
    (hcells : ∀ value, some value ∈ cells → IsOrderable prims value) :
    OrdersOn (compareOrderByValues prims) cells ↔ NoTextBetween decimalIntegerBytes compare compareBytes cells := by
  rw [← mixedCompare_ordersOn_iff (ordersOn_int _)]
  refine OrdersOn.congr_iff fun left hleft right hright => ?_
  rw [compareOrderByValues_eq]
  refine mixedCompare_readsAlike (fun value hvalue => ?_) (fun value hvalue => ?_)
  · exact (hcells value (hvalue ▸ hleft)).readsAlike hreads
  · exact (hcells value (hvalue ▸ hright)).readsAlike hreads

theorem ordersOn_compareRows {cells : Nat → Set (Option Bytes)}
    (h : ∀ index, OrdersOn (compareOrderByValues prims) (cells index)) (indexes : List (Nat × Bool)) :
    OrdersOn (compareRows prims indexes) {row | ∀ key ∈ indexes, row[key.1]? ∈ cells key.1} := by
  induction indexes with
  | nil => exact .equal
  | cons key indexes ih =>
    obtain ⟨index, descending⟩ := key
    have hfirst := ((h index).comap fun row : List Bytes => row[index]?).descending descending
    refine OrdersOn.andThen (hfirst.mono fun row hrow => ?_) (ih.mono fun row hrow => ?_)
    · exact hrow (index, descending) List.mem_cons_self
    · exact fun key hkey => hrow key (List.mem_cons_of_mem _ hkey)

/-! ## UPDATE and DELETE -/

def notNull (text : String) : Option String := if toAsciiLowercase text = "null" then none else some text

def compareTexts (left right : String) : Ordering := compareBytes (utf8Bytes left) (utf8Bytes right)

instance : Std.TransCmp compareTexts where
  eq_swap := Std.OrientedCmp.eq_swap (α := Bytes)
  isLE_trans := Std.TransCmp.isLE_trans (α := Bytes)

instance : Std.LawfulEqCmp compareTexts := ⟨fun h => utf8Bytes_injective (compareBytes_eq_eq.mp h)⟩

theorem compareDeleteOrderValues_eq (left right : String) : compareDeleteOrderValues prims left right =
    mixedCompare prims.parseF64 compareF64 compareTexts (notNull left) (notNull right) := by
  unfold compareDeleteOrderValues notNull
  by_cases hleft : toAsciiLowercase left = "null"
  · by_cases hright : toAsciiLowercase right = "null"
    · simp only [hleft, hright, decide_true, ↓reduceIte]
      rfl
    · simp only [hleft, hright, decide_true, decide_false, ↓reduceIte]
      rfl
  · by_cases hright : toAsciiLowercase right = "null"
    · simp only [hleft, hright, decide_true, decide_false, ↓reduceIte]
      rfl
    · simp only [hleft, hright, decide_false, ↓reduceIte, mixedCompare, compareTexts]
      cases prims.parseF64 left with
      | none => rfl
      | some bits => cases prims.parseF64 right <;> rfl

/-- The same of a text. -/
def IsOrderableText (prims : ValuePrimitives) (text : String) : Prop :=
  (decimalInteger text).isSome = true ∨ prims.parseF64 text = none

theorem IsOrderableText.readsAlike (hreads : ReadsIntegers prims) {text : String} (h : IsOrderableText prims text) :
    ReadsAlike prims.parseF64 decimalInteger text := by
  constructor
  · intro hnone
    rw [IsOrderableText, hnone] at h
    simpa using h
  · intro v hv
    obtain ⟨bits, hbits, hnan, hrank⟩ := hreads _ v hv
    exact ⟨bits, hbits, hnan, hrank, natAbs_decimalInteger hv⟩

theorem mem_notNull {text text' : String} (h : text' ∈ notNull text) : text' = text := by
  unfold notNull at h
  split at h
  · cases h
  · exact (Option.some.inj h).symm

theorem compareDeleteOrderValues_ordersOn_iff (hreads : ReadsIntegers prims) {texts : Set String}
    (htexts : ∀ text ∈ texts, IsOrderableText prims text) :
    OrdersOn (compareDeleteOrderValues prims) texts ↔
      NoTextBetween decimalInteger compare compareTexts (notNull '' texts) := by
  rw [← mixedCompare_ordersOn_iff (ordersOn_int _), ← OrdersOn.image_iff]
  refine OrdersOn.congr_iff fun left hleft right hright => ?_
  rw [compareDeleteOrderValues_eq]
  refine mixedCompare_readsAlike (fun text htext => ?_) (fun text htext => ?_)
  · rw [mem_notNull htext]
    exact (htexts left hleft).readsAlike hreads
  · rw [mem_notNull htext]
    exact (htexts right hright).readsAlike hreads

theorem ordersOn_compareOrderByItems {evaluate : String → RowMap → Option Bytes} {texts : String → Set String}
    (h : ∀ fieldName, OrdersOn (compareDeleteOrderValues prims) (texts fieldName)) (items : List SelectOrderByItem) :
    OrdersOn (compareOrderByItems prims evaluate items)
      {row | ∀ item ∈ items, resolveMutationOrderValue prims evaluate row item.fieldName ∈ texts item.fieldName} := by
  induction items with
  | nil => exact .equal
  | cons item items ih =>
    have hfirst := ((h item.fieldName).comap fun row =>
      resolveMutationOrderValue prims evaluate row item.fieldName).descending item.descending
    refine OrdersOn.andThen (hfirst.mono fun row hrow => ?_) (ih.mono fun row hrow => ?_)
    · exact hrow item List.mem_cons_self
    · exact fun item' hitem => hrow item' (List.mem_cons_of_mem _ hitem)

/-! ## Sorted rows -/

/-- Both comparisons are total preorders on what stands in the columns, and rows are sorted by them. -/
structure PutsInOrder (prims : ValuePrimitives) (evaluate : String → RowMap → Option Bytes)
    (cells : Nat → Set (Option Bytes)) (texts : String → Set String) : Prop where
  values : ∀ index, OrdersOn (compareOrderByValues prims) (cells index)
  rows : ∀ (indexes : List (Nat × Bool)) (rows : List (List Bytes)),
    (∀ row ∈ rows, ∀ key ∈ indexes, row[key.1]? ∈ cells key.1) →
    (rows.mergeSort fun left right => compareRows prims indexes left right ≠ .gt).Pairwise fun left right =>
      (compareRows prims indexes left right).isLE = true
  mutationValues : ∀ fieldName, OrdersOn (compareDeleteOrderValues prims) (texts fieldName)
  mutationRows : ∀ (target : MutationTarget) (items : List SelectOrderByItem) (rows : List LiveRow), items ≠ [] →
    target.orderBy = orderByItems prims evaluate items →
    (∀ row ∈ rows, ∀ item ∈ items,
      resolveMutationOrderValue prims evaluate row.2 item.fieldName ∈ texts item.fieldName) →
    (target.order rows).Pairwise fun left right =>
      (compareOrderByItems prims evaluate items left.2 right.2).isLE = true

/-- Values that are integers of at most fifteen digits or no numbers are put in order exactly if in no column a
text stands between two integers that stand the other way round as texts. -/
theorem order_by_in_order_iff (prims : ValuePrimitives) (evaluate : String → RowMap → Option Bytes)
    (hreads : ReadsIntegers prims) (cells : Nat → Set (Option Bytes)) (texts : String → Set String)
    (hcells : ∀ index value, some value ∈ cells index → IsOrderable prims value)
    (htexts : ∀ fieldName, ∀ text ∈ texts fieldName, IsOrderableText prims text) :
    PutsInOrder prims evaluate cells texts ↔
      (∀ index, NoTextBetween decimalIntegerBytes compare compareBytes (cells index)) ∧
      ∀ fieldName, NoTextBetween decimalInteger compare compareTexts (notNull '' texts fieldName) := by
  constructor
  · intro h
    constructor
    · exact fun index => (compareOrderByValues_ordersOn_iff hreads (hcells index)).mp (h.values index)
    · exact fun fieldName =>
        (compareDeleteOrderValues_ordersOn_iff hreads (htexts fieldName)).mp (h.mutationValues fieldName)
  · rintro ⟨hselect, hmutation⟩
    have hvalues : ∀ index, OrdersOn (compareOrderByValues prims) (cells index) := fun index =>
      (compareOrderByValues_ordersOn_iff hreads (hcells index)).mpr (hselect index)
    have hmutations : ∀ fieldName, OrdersOn (compareDeleteOrderValues prims) (texts fieldName) := fun fieldName =>
      (compareDeleteOrderValues_ordersOn_iff hreads (htexts fieldName)).mpr (hmutation fieldName)
    refine ⟨hvalues, ?_, hmutations, ?_⟩
    · intro indexes rows hrows
      exact ((ordersOn_compareRows hvalues indexes).mono hrows).pairwise_mergeSort
    · intro target items rows hitems horder hrows
      rw [orderByItems, if_neg hitems] at horder
      have hsorted := (((ordersOn_compareOrderByItems hmutations items).comap fun row : LiveRow => row.2).mono
        hrows).pairwise_insertionSort
      rw [MutationTarget.order, horder]
      exact hsorted

def wholeNumbers : ValuePrimitives :=
  { ValuePrimitives.plain with parseF64 := fun text => (decimalInteger text).map wholeF64 }

theorem wholeNumbers_readsIntegers : ReadsIntegers wholeNumbers := by
  intro text v hv
  refine ⟨wholeF64 v, ?_, isNanF64_wholeF64 (natAbs_decimalInteger hv), rfl⟩
  exact Option.map_eq_some_iff.mpr ⟨v, hv, rfl⟩

theorem isOrderable_wholeNumbers (value : Bytes) : IsOrderable wholeNumbers value := by
  cases hvalue : decimalIntegerBytes value with
  | some v => exact .inl (by rw [hvalue]; rfl)
  | none =>
    refine .inr ?_
    unfold decimalIntegerBytes at hvalue
    simp only [parseF64Bytes, wholeNumbers]
    cases htext : fromUtf8 value with
    | none => rfl
    | some text =>
      rw [htext, Option.bind_some] at hvalue
      rw [Option.bind_some, hvalue]
      rfl

theorem isOrderableText_wholeNumbers (text : String) : IsOrderableText wholeNumbers text := by
  cases htext : decimalInteger text with
  | some v => exact .inl (by rw [htext]; rfl)
  | none => exact .inr (by simp only [wholeNumbers, htext]; rfl)

/-- A column of numbers and another of texts are sorted. -/
theorem numbers_beside_texts_in_order : PutsInOrder wholeNumbers (fun _ _ => none)
    (fun index => if index = 0 then {some (utf8Bytes "10"), some (utf8Bytes "9")} else {some (utf8Bytes "1a")})
    (fun fieldName => if fieldName = "id" then {"10", "9"} else {"1a", "NULL"}) := by
  refine (order_by_in_order_iff wholeNumbers (fun _ _ => none) wholeNumbers_readsIntegers _ _
    (fun _ value _ => isOrderable_wholeNumbers value) (fun _ text _ => isOrderableText_wholeNumbers text)).mpr ⟨?_, ?_⟩
  · intro index a b t ha hb ht x hx y hy htext hxy
    by_cases hindex : index = 0
    · have hnumber : decimalIntegerBytes t ≠ none := by
        simp only [hindex, ↓reduceIte, Set.mem_insert_iff, Option.some.injEq, Set.mem_singleton_iff] at ht
        rcases ht with rfl | rfl <;> decide +kernel
      exact absurd htext hnumber
    · have hnone : decimalIntegerBytes a = none := by
        simp only [hindex, ↓reduceIte, Set.mem_singleton_iff, Option.some.injEq] at ha
        rw [ha]
        decide +kernel
      rw [hnone] at hx
      cases hx
  · intro fieldName a b t ha hb ht x hx y hy htext hxy
    obtain ⟨a', ha, hnotNull⟩ := ha
    obtain ⟨t', ht, hnotNull'⟩ := ht
    rw [← mem_notNull hnotNull] at ha
    rw [← mem_notNull hnotNull'] at ht
    by_cases hfield : fieldName = "id"
    · have hnumber : decimalInteger t ≠ none := by
        simp only [hfield, ↓reduceIte, Set.mem_insert_iff, Set.mem_singleton_iff] at ht
        rcases ht with rfl | rfl <;> decide +kernel
      exact absurd htext hnumber
    · have hnone : decimalInteger a = none := by
        simp only [hfield, ↓reduceIte, Set.mem_insert_iff, Set.mem_singleton_iff] at ha
        rcases ha with rfl | rfl <;> decide +kernel
      rw [hnone] at hx
      cases hx

/-- 9 comes before 10, that before the text `1a`, and that before 9. -/
theorem order_by_in_a_circle : ReadsIntegers wholeNumbers ∧
    (∀ text ∈ ["9", "10", "1a"], IsOrderable wholeNumbers (utf8Bytes text) ∧ IsOrderableText wholeNumbers text) ∧
    (compareOrderByValues wholeNumbers (some (utf8Bytes "10")) (some (utf8Bytes "1a"))).isLE = true ∧
    (compareOrderByValues wholeNumbers (some (utf8Bytes "1a")) (some (utf8Bytes "9"))).isLE = true ∧
    (compareOrderByValues wholeNumbers (some (utf8Bytes "10")) (some (utf8Bytes "9"))).isLE = false ∧
    (compareDeleteOrderValues wholeNumbers "10" "1a").isLE = true ∧
    (compareDeleteOrderValues wholeNumbers "1a" "9").isLE = true ∧
    (compareDeleteOrderValues wholeNumbers "10" "9").isLE = false :=
  ⟨wholeNumbers_readsIntegers, fun text _ => ⟨isOrderable_wholeNumbers _, isOrderableText_wholeNumbers text⟩,
    by decide +kernel, by decide +kernel, by decide +kernel, by decide +kernel, by decide +kernel, by decide +kernel⟩

end DistDb.Query
