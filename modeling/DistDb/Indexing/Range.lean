import DistDb.Indexing.Rebuild
import DistDb.Payload.Typed

/-! # Ranges of an integer index

Integers that fit a machine word are encoded in their order. The answer to a range is in the order of the references. -/

namespace DistDb.Indexing
open Lib NonZeroU64

/-! ## Big-endian bytes -/

theorem leBytes_succ (width n : ℕ) :
    leBytes (width + 1) n = leBytes width n ++ [UInt8.ofNat (n / 256 ^ width % 256)] := by
  induction width generalizing n with
  | zero => simp [leBytes]
  | succ width ih =>
    rw [leBytes, ih, leBytes, Nat.div_div_eq_div_mul, ← pow_succ']
    rfl

theorem beBytes_succ (width n : ℕ) :
    beBytes (width + 1) n = UInt8.ofNat (n / 256 ^ width % 256) :: beBytes width n := by
  rw [beBytes, leBytes_succ, List.reverse_append]
  rfl

theorem leBytes_mod (width n : ℕ) : leBytes width (n % 256 ^ width) = leBytes width n := by
  induction width generalizing n with
  | zero => rfl
  | succ width ih =>
    rw [leBytes, leBytes, pow_succ', Nat.mod_mul_right_mod, Nat.mod_mul_right_div_self, ih]

theorem lt_iff_div_mod {m a b : ℕ} : a < b ↔ a / m < b / m ∨ a / m = b / m ∧ a % m < b % m := by
  have ha := Nat.div_add_mod a m
  have hb := Nat.div_add_mod b m
  constructor
  · intro h
    rcases (Nat.div_le_div_right h.le : a / m ≤ b / m).lt_or_eq with hlt | heq
    · exact .inl hlt
    · rw [heq] at ha
      exact .inr ⟨heq, by omega⟩
  · rintro (hlt | ⟨heq, hlt⟩)
    · exact Nat.lt_of_div_lt_div hlt
    · rw [heq] at ha
      omega

theorem ofNat_lt_iff {a b : ℕ} (ha : a < 256) (hb : b < 256) : UInt8.ofNat a < UInt8.ofNat b ↔ a < b := by
  rw [UInt8.lt_iff_toNat_lt, UInt8.toNat_ofNat_of_lt' ha, UInt8.toNat_ofNat_of_lt' hb]

theorem ofNat_inj {a b : ℕ} (ha : a < 256) (hb : b < 256) : UInt8.ofNat a = UInt8.ofNat b ↔ a = b := by
  rw [← UInt8.toNat_inj, UInt8.toNat_ofNat_of_lt' ha, UInt8.toNat_ofNat_of_lt' hb]

theorem beBytes_lt_iff {width a b : ℕ} (ha : a < 256 ^ width) (hb : b < 256 ^ width) :
    beBytes width a < beBytes width b ↔ a < b := by
  induction width generalizing a b with
  | zero =>
    have hzero : a = 0 ∧ b = 0 := by omega
    rw [hzero.1, hzero.2]
    simp
  | succ width ih =>
    rw [pow_succ] at ha hb
    have hlead : ∀ {n : ℕ}, n < 256 ^ width * 256 → n / 256 ^ width < 256 := Nat.div_lt_of_lt_mul
    have hrest := ih (Nat.mod_lt a (by positivity)) (Nat.mod_lt b (by positivity))
    rw [beBytes, beBytes, leBytes_mod, leBytes_mod] at hrest
    rw [beBytes_succ, beBytes_succ, Nat.mod_eq_of_lt (hlead ha), Nat.mod_eq_of_lt (hlead hb), List.cons_lt_cons_iff,
      ofNat_lt_iff (hlead ha) (hlead hb), ofNat_inj (hlead ha) (hlead hb), beBytes, beBytes, hrest,
      ← lt_iff_div_mod]

theorem append_lt_iff (pre a b : Bytes) : pre ++ a < pre ++ b ↔ a < b := by
  induction pre with
  | nil => rfl
  | cons byte pre ih => simpa [List.cons_lt_cons_iff] using ih

/-! ## Float columns -/

theorem toNat_sortableF64 (bits : UInt64) : (sortableF64 bits).toNat =
    if bits.toNat < 2 ^ 63 then 2 ^ 63 + bits.toNat else 2 ^ 64 - 1 - bits.toNat := by
  have hsign : bits >>> 63 = 0 ↔ bits.toNat < 2 ^ 63 := by
    rw [← UInt64.toNat_inj, UInt64.toNat_shiftRight]
    simp [Nat.shiftRight_eq_div_pow]
  unfold sortableF64
  by_cases hpos : bits.toNat < 2 ^ 63
  · have hxor : bits.toNat ^^^ 2 ^ 63 = 2 ^ 63 * 1 + bits.toNat := by
      rw [Nat.two_pow_add_eq_or_of_lt hpos]
      refine Nat.eq_of_testBit_eq fun i => ?_
      by_cases hi : 63 = i
      · simp [← hi, Nat.testBit_lt_two_pow hpos]
      · simp [Nat.testBit_two_pow_of_ne hi]
    rw [if_pos (hsign.mpr hpos), if_pos hpos, UInt64.toNat_xor]
    exact hxor
  · rw [if_neg (mt hsign.mp hpos), if_neg hpos]
    simp

/-- The keys of floats are in the order `ORDER BY` has for them, but the key of -0 comes before that of 0. -/
theorem float_keys_lt_iff (prims : ValuePrimitives) {left right : Bytes} {x y : UInt64}
    (hx : parseF64Bytes prims left = some x) (hnan : isNanF64 x = false)
    (hy : parseF64Bytes prims right = some y) (hnan' : isNanF64 y = false) :
    ∃ key ∈ encodeSortableNumeric prims left .float, ∃ key' ∈ encodeSortableNumeric prims right .float,
      (key < key' ↔ compareF64 x y = .lt ∨ x = 0x8000000000000000 ∧ y = 0) := by
  rw [parseF64Bytes] at hx hy
  refine ⟨beBytes 8 (sortableF64 x).toNat, by simp [encodeSortableNumeric, hx, hnan],
    beBytes 8 (sortableF64 y).toNat, by simp [encodeSortableNumeric, hy, hnan'], ?_⟩
  have hxlt := x.toNat_lt
  have hylt := y.toNat_lt
  rw [beBytes_lt_iff (UInt64.toNat_lt _) (UInt64.toNat_lt _), toNat_sortableF64, toNat_sortableF64, compareF64,
    hnan, hnan', Bool.or_false, if_neg Bool.false_ne_true, compare_lt_iff_lt, f64Rank, f64Rank, ← UInt64.toNat_inj,
    ← UInt64.toNat_inj]
  simp only [UInt64.toNat_ofNat]
  split_ifs <;> omega

def signedZeros : ValuePrimitives :=
  { ValuePrimitives.plain with
    parseF64 := fun text => if text = "-0" then some 0x8000000000000000 else if text = "0" then some 0 else none }

theorem signed_zero_keys : parseF64Bytes signedZeros [45, 48] = some 0x8000000000000000 ∧
    ∃ key ∈ encodeSortableNumeric signedZeros [45, 48] .float, ∃ key' ∈ encodeSortableNumeric signedZeros [48] .float,
      key < key' := by
  have hx : parseF64Bytes signedZeros [45, 48] = some 0x8000000000000000 := by decide +kernel
  have hy : parseF64Bytes signedZeros [48] = some 0 := by decide +kernel
  obtain ⟨key, hkey, key', hkey', hlt⟩ := float_keys_lt_iff signedZeros hx (by decide) hy (by decide)
  exact ⟨hx, key, hkey, key', hkey', hlt.mpr (.inr ⟨rfl, rfl⟩)⟩

/-! ## Integer columns -/

inductive IntegerColumn where
  | int (bits : UInt8)
  | uint (bits : UInt8)

namespace IntegerColumn

def numericKind : IntegerColumn → RuntimeIndexNumericKind
  | int _ => .signed
  | uint _ => .unsigned

def stored (v : ℤ) : IntegerColumn → Bytes
  | int bits => (encodeSignedNumeric bits v).getD []
  | uint bits => (encodeUnsignedNumeric bits v.toNat).getD []

/-- The integer is in the range of the column. -/
def Fits (v : ℤ) : IntegerColumn → Prop
  | int bits => -(2 ^ (integerWidth bits - 1)) ≤ v ∧ v < 2 ^ (integerWidth bits - 1)
  | uint bits => 0 ≤ v ∧ v < 2 ^ integerWidth bits

def number (v : ℤ) : IntegerColumn → StoredNumericValue
  | int _ => .signed v
  | uint _ => .unsigned v.toNat

def encode (v : ℤ) : IntegerColumn → Option Bytes
  | int bits => encodeSignedNumeric bits v
  | uint bits => encodeUnsignedNumeric bits v.toNat

/-- The integers of the column that fit the word of the sortable encoding. -/
def FitsWord (v : ℤ) : IntegerColumn → Prop
  | int bits => (-(2 ^ 63) ≤ v ∧ v < 2 ^ 63) ∧ -(2 ^ (integerWidth bits - 1)) ≤ v ∧ v < 2 ^ (integerWidth bits - 1)
  | uint bits => (0 ≤ v ∧ v < 2 ^ 64) ∧ v < 2 ^ integerWidth bits

instance (v : ℤ) : (column : IntegerColumn) → Decidable (column.FitsWord v)
  | int bits => inferInstanceAs (Decidable (_ ∧ -(2 ^ (integerWidth bits - 1)) ≤ v ∧ _))
  | uint bits => inferInstanceAs (Decidable (_ ∧ v < 2 ^ integerWidth bits))

def word (v : ℤ) : IntegerColumn → ℕ
  | int _ => (v + 2 ^ 63).toNat
  | uint _ => v.toNat

def coding (column : IntegerColumn) : KeyCoding := ⟨some column.numericKind, false⟩

variable {prims : ValuePrimitives} {column : IntegerColumn} {v w : ℤ}

theorem leInt_leIntBytes {width : ℕ} (hwidth : 0 < width) (h : -(2 ^ (8 * width - 1)) ≤ v ∧ v < 2 ^ (8 * width - 1)) :
    leInt (leIntBytes width v) = v := by
  have hpow : (256 : ℤ) ^ width = 2 * 2 ^ (8 * width - 1) := by
    rw [← pow_succ', show 8 * width - 1 + 1 = 8 * width by omega, pow_mul]
    norm_num
  have hcast : ((256 ^ width : ℕ) : ℤ) = 256 ^ width := by norm_num
  have hmod : v % 256 ^ width = if 0 ≤ v then v else v + 256 ^ width := by
    split
    · exact Int.emod_eq_of_lt (by omega) (by omega)
    · rw [← Int.add_emod_right, Int.emod_eq_of_lt (by omega) (by omega)]
  have hnat : leNat (leIntBytes width v) = (v % 256 ^ width).toNat := by
    refine leNat_leBytes ?_
    rw [hmod]
    split <;> omega
  unfold leInt
  rw [hnat, length_leIntBytes, hmod]
  split <;> split <;> omega

theorem render_of_tagged {tag : UInt8} {bytes : Bytes} {number : StoredNumericValue}
    (h : decodeTaggedNumericValue prims tag bytes = some number) :
    renderStoredFieldValue prims (tag :: bytes) = utf8Bytes (number.numeral prims) := by
  have htag : tag ≠ 0x31 := by
    rintro rfl
    rw [decodeTaggedNumericValue_eq_none (by decide)] at h
    cases h
  rw [renderStoredFieldValue_eq, decodeTaggedDbUuidBinary, if_neg (by simp [htag]), decodeNumericValue_of_tagged h]

theorem integerWidth_le (bits : UInt8) : integerWidth bits ≤ 128 := by
  unfold integerWidth
  split <;> simp

theorem isSome_encode_of_fits (h : column.Fits v) : (column.encode v).isSome = true := by
  cases column with
  | int bits =>
    have hle : (2 : ℤ) ^ (integerWidth bits - 1) ≤ 2 ^ 127 :=
      pow_le_pow_right₀ (by decide) (Nat.sub_le_sub_right (integerWidth_le bits) 1)
    exact (isSome_encodeSignedNumeric ⟨(neg_le_neg hle).trans h.1, h.2.trans_le hle⟩).mpr h
  | uint bits =>
    have hle : 2 ^ integerWidth bits ≤ 2 ^ 128 := Nat.pow_le_pow_right Nat.two_pos (integerWidth_le bits)
    have hlt : v.toNat < 2 ^ integerWidth bits := (Int.toNat_lt h.1).mpr (by exact_mod_cast h.2)
    exact (isSome_encodeUnsignedNumeric (hlt.trans_le hle)).mpr hlt

theorem encode_layout (prims : ValuePrimitives) (h : column.Fits v) {bytes : Bytes}
    (hbytes : column.encode v = some bytes) :
    ∃ tag rest, bytes = tag :: rest ∧ decodeTaggedNumericValue prims tag rest = some (column.number v) ∧
      rest.length ≤ 16 ∧ rest.length ≠ 15 := by
  have hwidths : ∀ bits, (integerLayout bits).2 ≤ 16 ∧ (integerLayout bits).2 ≠ 15 := by
    intro bits
    unfold integerLayout
    split <;> decide
  cases column with
  | int bits =>
    have hnumber := (decodeTaggedNumericValue_layout prims (length_leIntBytes (integerLayout bits).2 v)).1
    rw [Fits, integerWidth_eq] at h
    rw [leInt_leIntBytes (integerLayout_pos bits) h] at hnumber
    exact ⟨_, _, encodeSignedNumeric_eq_some hbytes, hnumber, by simpa using hwidths bits⟩
  | uint bits =>
    have hnumber := (decodeTaggedNumericValue_layout prims (length_leBytes (integerLayout bits).2 v.toNat)).2
    have hlt : v.toNat < 256 ^ (integerLayout bits).2 := by
      rw [Int.toNat_lt h.1, Nat.cast_pow, show ((256 : ℕ) : ℤ) = 2 ^ 8 by norm_num, ← pow_mul, ← integerWidth_eq]
      exact h.2
    rw [leNat_leBytes hlt] at hnumber
    exact ⟨_, _, encodeUnsignedNumeric_eq_some hbytes, hnumber, by simpa using hwidths bits⟩

theorem FitsWord.fits (h : column.FitsWord v) : column.Fits v := by
  cases column with
  | int bits => exact h.2
  | uint bits => exact ⟨h.1.1, h.2⟩

theorem render_stored (h : column.FitsWord v) :
    renderStoredFieldValue prims (column.stored v) = utf8Bytes (toString v) := by
  obtain ⟨bytes, hbytes⟩ := Option.isSome_iff_exists.mp (isSome_encode_of_fits h.fits)
  obtain ⟨tag, rest, rfl, hnumber, -⟩ := encode_layout prims h.fits hbytes
  have hstored : column.stored v = tag :: rest := by cases column <;> exact congrArg (Option.getD · []) hbytes
  rw [hstored, render_of_tagged hnumber]
  cases column with
  | int bits => rfl
  | uint bits =>
    change utf8Bytes (toString v.toNat) = _
    rw [← toString_natCast, Int.toNat_of_nonneg h.1.1]

theorem encodeKey_stored (h : column.FitsWord v) :
    column.coding.encodeKey prims [column.stored v] = [beBytes 8 (column.word v)] := by
  have hencode : encodeSortableNumeric prims (utf8Bytes (toString v)) column.numericKind =
      some (beBytes 8 (column.word v)) := by
    cases column with
    | int bits =>
      rw [numericKind, encodeSortableNumeric, fromUtf8_utf8Bytes, Option.bind_some,
        parseSigned_toString (by exact_mod_cast h.1)]
      rfl
    | uint bits =>
      have hword : v.toNat < 2 ^ 64 := by
        obtain ⟨hword, -⟩ := h
        omega
      rw [numericKind, encodeSortableNumeric, fromUtf8_utf8Bytes, Option.bind_some, ← Int.toNat_of_nonneg h.1.1,
        toString_natCast, parseUnsigned_toString hword]
      rfl
  unfold KeyCoding.encodeKey coding
  simp only [List.map_cons, List.map_nil, normalizeRuntimeIndexStringKey, Bool.false_eq_true, if_false, render_stored h,
    hencode]

theorem word_lt_iff (hv : column.FitsWord v) (hw : column.FitsWord w) : column.word v < column.word w ↔ v < w := by
  cases column with
  | int bits =>
    obtain ⟨hv, -⟩ := hv
    obtain ⟨hw, -⟩ := hw
    simp only [word]
    omega
  | uint bits =>
    obtain ⟨hv, -⟩ := hv
    obtain ⟨hw, -⟩ := hw
    simp only [word]
    omega

theorem word_lt (h : column.FitsWord v) : column.word v < 256 ^ 8 := by
  cases column with
  | int bits =>
    obtain ⟨h, -⟩ := h
    simp only [word]
    omega
  | uint bits =>
    obtain ⟨h, -⟩ := h
    simp only [word]
    omega

theorem encode_lt_iff (prims : ValuePrimitives) {state : PagedIndexState} (hcoding : state.coding = column.coding)
    (hv : column.FitsWord v) (hw : column.FitsWord w) :
    state.encodeKey prims [column.stored v] < state.encodeKey prims [column.stored w] ↔ v < w := by
  have hencode : ∀ {u : ℤ}, column.FitsWord u → state.encodeKey prims [column.stored u] =
      leBytes 8 1 ++ leBytes 8 8 ++ beBytes 8 (column.word u) := by
    intro u hu
    rw [PagedIndexState.encodeKey, hcoding, encodeKey_stored hu]
    simp [entryKeyCodec, Codec.vec, Codec.bytes, beBytes]
  rw [hencode hv, hencode hw, append_lt_iff, beBytes_lt_iff (word_lt hv) (word_lt hw), word_lt_iff hv hw]

end IntegerColumn

/-! ## Answers -/

namespace PagedIndexState

variable {prims : ValuePrimitives} {state : PagedIndexState}

structure Inserted (unique : Bool) (slot : Slot) : Prop where
  postings : slot.entry = none → slot.postings = none
  unique : unique = true → slot.postings = none

theorem Inserted.insert {unique : Bool} {slot : Slot} (h : Inserted unique slot) (rowRef : Option NonZeroU64) :
    Inserted unique (slot.insertWithRowRef unique rowRef) := by
  refine ⟨fun hnone => ?_, fun hunique => ?_⟩
  · have hsome := slot.isSome_insertWithRowRef unique rowRef
    rw [hnone] at hsome
    cases hsome
  · subst hunique
    exact h.unique rfl

theorem Inserted.collect_eq {unique : Bool} {slot : Slot} (h : Inserted unique slot) (given : List UInt64) :
    slot.collect given = given ++ slot.rowRefs unique none := by
  obtain ⟨entry, postings⟩ := slot
  match entry, postings, h with
  | none, postings, h =>
    obtain rfl := h.postings rfl
    cases unique <;> simp [Slot.collect, Slot.rowRefs]
  | some (some rowRef), postings, _ => rfl
  | some none, none, _ => cases unique <;> simp [Slot.collect, Slot.rowRefs]
  | some none, some postings, h =>
    cases unique with
    | true => cases h.unique rfl
    | false =>
      unfold Slot.collect Slot.rowRefs
      simp only [Option.elim_some, Option.join_some, Option.map_some, Option.getD_some, PostingPages.appendRowRefs]
      split
      · rfl
      · simp [PostingPages.Holds.appendPages_none]

theorem inserted_insertPairs (prims : ValuePrimitives) (index : DatabaseIndex) (coding : KeyCoding)
    (pairs : List (KeyTuple × UInt64)) (encoded : Bytes) :
    Inserted (insertPairs prims (start (some index) coding) pairs).answersUnique
      ((insertPairs prims (start (some index) coding) pairs).slotAt encoded) := by
  rw [slotAt_insertPairs, answersUnique, (insertPairs_config prims pairs (Ordered.start _ _)).1]
  change Inserted index.isUniqueKey (List.foldl (fun slot pair => slot.insertWithRowRef index.isUniqueKey _) _ _)
  induction pairs.filter _ using List.reverseRecOn with
  | nil => exact ⟨fun _ => rfl, fun _ => rfl⟩
  | append_singleton pairs pair ih =>
    rw [List.foldl_concat]
    exact ih.insert _

theorem isSome_insertPairs (index : DatabaseIndex) (coding : KeyCoding) (pairs : List (KeyTuple × UInt64))
    (encoded : Bytes) :
    ((insertPairs prims (start (some index) coding) pairs).slotAt encoded).entry.isSome = true ↔
      ∃ pair ∈ pairs, (start (some index) coding).encodeKey prims pair.1 = encoded := by
  rw [slotAt_insertPairs]
  have hmem : (∃ pair ∈ pairs, (start (some index) coding).encodeKey prims pair.1 = encoded) ↔
      pairs.filter (fun pair => (start (some index) coding).encodeKey prims pair.1 = encoded) ≠ [] := by
    simp [List.filter_eq_nil_iff]
  rw [hmem]
  induction pairs.filter _ using List.reverseRecOn with
  | nil => simp [start, slotAt]
  | append_singleton pairs pair ih => simp [Slot.isSome_insertWithRowRef]

theorem mem_rowRefsForKeyRange (state : PagedIndexState) (hordered : state.Ordered)
    (hinserted : ∀ encoded, Inserted state.answersUnique (state.slotAt encoded))
    {lower upper : Option RuntimeIndexRangeBound} {rowRef : UInt64} :
    rowRef ∈ state.rowRefsForKeyRange prims lower upper none ↔ ¬ state.Crossed prims lower upper ∧
      ∃ encoded, (state.slotAt encoded).entry.isSome = true ∧ state.aboveLower prims lower encoded ∧
        state.belowUpper prims upper encoded ∧ rowRef ∈ (state.slotAt encoded).rowRefs state.answersUnique none := by
  have hcollect : ∀ (keys : List Bytes) (given : List UInt64),
      keys.foldl (fun rowRefs encoded => (state.slotAt encoded).collect rowRefs) given =
        given ++ keys.flatMap fun encoded => (state.slotAt encoded).rowRefs state.answersUnique none := by
    intro keys
    induction keys with
    | nil => simp
    | cons encoded keys ih =>
      intro given
      rw [List.foldl_cons, ih, (hinserted encoded).collect_eq, List.flatMap_cons, List.append_assoc]
  unfold rowRefsForKeyRange
  split
  · rename_i hcrossed
    simp [hcrossed]
  · rename_i hcrossed
    simp only [Option.elim_none, List.mem_dedup, List.mem_insertionSort, hcollect, List.nil_append, List.mem_flatMap,
      List.mem_filter, decide_eq_true_iff, orderedKeyList, Finset.mem_sort, hordered.mem_orderedKeys, hcrossed,
      not_false_eq_true, true_and]
    simp only [and_assoc]

theorem pairwise_rowRefsForKeyRange (prims : ValuePrimitives) (state : PagedIndexState)
    (lower upper : Option RuntimeIndexRangeBound) :
    (state.rowRefsForKeyRange prims lower upper none).Pairwise (· < ·) := by
  unfold rowRefsForKeyRange
  split
  · exact .nil
  · have hsorted : ∀ collected : List UInt64, ((collected.insertionSort (· ≤ ·)).dedup).Pairwise (· < ·) := by
      intro collected
      have hle := (List.pairwise_insertionSort (· ≤ ·) collected).sublist (List.dedup_sublist _)
      exact (hle.and (List.nodup_dedup _)).imp fun h => UInt64.lt_of_le_of_ne h.1 h.2
    exact hsorted _

/-! ## Ranges of integers -/

def intBound (column : IntegerColumn) (bound : ℤ × Bool) : RuntimeIndexRangeBound := ⟨[column.stored bound.1], bound.2⟩

def AboveInt (lower : Option (ℤ × Bool)) (v : ℤ) : Prop := ∀ bound ∈ lower, if bound.2 then bound.1 ≤ v else bound.1 < v

def BelowInt (upper : Option (ℤ × Bool)) (v : ℤ) : Prop := ∀ bound ∈ upper, if bound.2 then v ≤ bound.1 else v < bound.1

instance (lower upper : Option (ℤ × Bool)) (v : ℤ) : Decidable (AboveInt lower v ∧ BelowInt upper v) :=
  inferInstanceAs (Decidable ((∀ bound ∈ lower, _) ∧ ∀ bound ∈ upper, _))

def refsInKeyOrder (prims : ValuePrimitives) (state : PagedIndexState) (column : IntegerColumn) (values : List ℤ)
    (lower upper : Option (ℤ × Bool)) : List UInt64 :=
  ((values.dedup.insertionSort (· ≤ ·)).filter fun v => decide (AboveInt lower v ∧ BelowInt upper v)).flatMap fun v =>
    state.rowRefsForKey prims [column.stored v] none

def insertIntegers (prims : ValuePrimitives) (index : DatabaseIndex) (column : IntegerColumn)
    (pairs : List (ℤ × UInt64)) : PagedIndexState :=
  insertPairs prims (start (some index) column.coding) (pairs.map fun pair => ([column.stored pair.1], pair.2))

variable {column : IntegerColumn} {lower upper : Option (ℤ × Bool)} {v : ℤ}

theorem aboveLower_iff (prims : ValuePrimitives) (hcoding : state.coding = column.coding)
    (hlower : ∀ bound ∈ lower, column.FitsWord bound.1) (hv : column.FitsWord v) :
    state.aboveLower prims (lower.map (intBound column)) (state.encodeKey prims [column.stored v]) ↔
      AboveInt lower v := by
  cases lower with
  | none => simp [aboveLower, AboveInt]
  | some bound =>
    have hbound := hlower bound rfl
    have hlt := IntegerColumn.encode_lt_iff prims hcoding hbound hv
    have hle := (IntegerColumn.encode_lt_iff prims hcoding hv hbound).not
    rw [List.not_lt, not_lt] at hle
    cases hinclusive : bound.2 <;> simp [aboveLower, AboveInt, intBound, hinclusive, hlt, hle]

theorem belowUpper_iff (prims : ValuePrimitives) (hcoding : state.coding = column.coding)
    (hupper : ∀ bound ∈ upper, column.FitsWord bound.1) (hv : column.FitsWord v) :
    state.belowUpper prims (upper.map (intBound column)) (state.encodeKey prims [column.stored v]) ↔
      BelowInt upper v := by
  cases upper with
  | none => simp [belowUpper, BelowInt]
  | some bound =>
    have hbound := hupper bound rfl
    have hlt := IntegerColumn.encode_lt_iff prims hcoding hv hbound
    have hle := (IntegerColumn.encode_lt_iff prims hcoding hbound hv).not
    rw [List.not_lt, not_lt] at hle
    cases hinclusive : bound.2 <;> simp [belowUpper, BelowInt, intBound, hinclusive, hlt, hle]

theorem not_crossed {lower upper : Option RuntimeIndexRangeBound} {encoded : Bytes}
    (hlower : state.aboveLower prims lower encoded) (hupper : state.belowUpper prims upper encoded) :
    ¬ state.Crossed prims lower upper := by
  rintro ⟨low, hlow, up, hup, hcross⟩
  have habove := hlower low hlow
  have hbelow := hupper up hup
  have hle : state.encodeKey prims low.key ≤ encoded ∧ encoded ≤ state.encodeKey prims up.key := by
    constructor
    · split at habove
      · exact habove
      · exact List.le_of_lt habove
    · split at hbelow
      · exact hbelow
      · exact List.le_of_lt hbelow
  rcases hcross with hlt | ⟨heq, hinclusive⟩
  · exact List.not_lt.mpr (List.le_trans hle.1 hle.2) hlt
  · -- both bounds are the key itself, so neither excludes it
    rw [heq] at habove hle
    have hsame : encoded = state.encodeKey prims up.key := List.le_antisymm hle.2 hle.1
    rw [hsame] at habove hbelow
    refine hinclusive ⟨?_, ?_⟩
    · by_contra hlow
      rw [if_neg hlow] at habove
      exact List.lt_irrefl _ habove
    · by_contra hup
      rw [if_neg hup] at hbelow
      exact List.lt_irrefl _ hbelow

/-- A range has the references of the keys within it, in the order of the references: in the order of the
keys exactly if the two agree. -/
theorem range_in_key_order_iff (prims : ValuePrimitives) (index : DatabaseIndex) (column : IntegerColumn)
    (pairs : List (ℤ × UInt64)) (lower upper : Option (ℤ × Bool)) (hpairs : ∀ pair ∈ pairs, column.FitsWord pair.1)
    (hlower : ∀ bound ∈ lower, column.FitsWord bound.1) (hupper : ∀ bound ∈ upper, column.FitsWord bound.1) :
    let state := insertIntegers prims index column pairs
    let answer := state.rowRefsForKeyRange prims (lower.map (intBound column)) (upper.map (intBound column)) none
    let expected := refsInKeyOrder prims state column (pairs.map Prod.fst) lower upper
    answer.toFinset = expected.toFinset ∧ (answer = expected ↔ expected.Pairwise (· < ·)) := by
  intro state answer expected
  obtain ⟨-, hcoding, hordered⟩ := insertPairs_config prims
    (pairs.map fun pair => ([column.stored pair.1], pair.2)) (Ordered.start (some index) column.coding)
  have hencode : ∀ key, (start (some index) column.coding).encodeKey prims key = state.encodeKey prims key := by
    intro key
    rw [encodeKey, encodeKey, show state.coding = _ from hcoding]
  have hmem : ∀ rowRef, rowRef ∈ answer ↔ rowRef ∈ expected := by
    intro rowRef
    refine (mem_rowRefsForKeyRange state hordered (inserted_insertPairs prims index column.coding _)).trans ?_
    simp only [expected, refsInKeyOrder, List.mem_flatMap, List.mem_filter, List.mem_insertionSort, List.mem_dedup,
      decide_eq_true_iff]
    constructor
    · rintro ⟨-, encoded, hsome, habove, hbelow, hrowRef⟩
      obtain ⟨stored, hstored, rfl⟩ := (isSome_insertPairs ..).mp hsome
      obtain ⟨pair, hpair, rfl⟩ := List.mem_map.mp hstored
      rw [hencode] at habove hbelow hrowRef
      exact ⟨pair.1, ⟨List.mem_map_of_mem hpair, (aboveLower_iff prims hcoding hlower (hpairs pair hpair)).mp habove,
        (belowUpper_iff prims hcoding hupper (hpairs pair hpair)).mp hbelow⟩, hrowRef⟩
    · rintro ⟨v, ⟨hv, habove, hbelow⟩, hrowRef⟩
      obtain ⟨pair, hpair, rfl⟩ := List.mem_map.mp hv
      have habove' := (aboveLower_iff prims hcoding hlower (hpairs pair hpair)).mpr habove
      have hbelow' := (belowUpper_iff prims hcoding hupper (hpairs pair hpair)).mpr hbelow
      refine ⟨not_crossed habove' hbelow', state.encodeKey prims [column.stored pair.1], ?_, habove', hbelow', hrowRef⟩
      exact (isSome_insertPairs ..).mpr ⟨_, List.mem_map_of_mem hpair, hencode _⟩
  have hascending : answer.Pairwise (· < ·) := pairwise_rowRefsForKeyRange _ _ _ _
  refine ⟨Finset.ext fun rowRef => by rw [List.mem_toFinset, List.mem_toFinset, hmem], fun heq => heq ▸ hascending, ?_⟩
  intro hexpected
  have hnodup : ∀ {rowRefs : List UInt64}, rowRefs.Pairwise (· < ·) → rowRefs.Nodup := fun h =>
    h.imp fun hlt heq => by simp [heq] at hlt
  refine ((List.perm_ext_iff_of_nodup (hnodup hascending) (hnodup hexpected)).mpr hmem).eq_of_pairwise
    ?_ hascending hexpected
  intro a b _ _ hab hba
  exact absurd (UInt64.lt_trans hab hba) (UInt64.lt_irrefl a)

/-- References that ascend with their keys. -/
theorem ascending_range_answered :
    let state := insertIntegers .plain ⟨"i", .indexed, .userDefined, ["n"], ""⟩ (.int 64) [(-1, 1), (5, 2)]
    state.rowRefsForKeyRange .plain (some (intBound (.int 64) (-1, true))) none none =
      refsInKeyOrder .plain state (.int 64) [-1, 5] (some (-1, true)) none := by
  refine (range_in_key_order_iff .plain ⟨"i", .indexed, .userDefined, ["n"], ""⟩ (.int 64) [(-1, 1), (5, 2)]
    (some (-1, true)) none ?_ ?_ ?_).2.mpr ?_
  · decide +kernel
  · decide +kernel
  · nofun
  · decide +kernel

/-- The key 1 comes after the key 2 in the answer if its reference is the larger one. A key below the 64-bit integers
is not found under its upper bound. -/
theorem range_misses :
    (let state := insertIntegers .plain ⟨"i", .indexed, .userDefined, ["n"], ""⟩ (.int 64) [(2, 1), (1, 2)]
     refsInKeyOrder .plain state (.int 64) [2, 1] none none = [2, 1] ∧
       state.rowRefsForKeyRange .plain none none none ≠ [2, 1]) ∧
    (let state := insertIntegers .plain ⟨"i", .indexed, .userDefined, ["n"], ""⟩ (.int 128) [(-(2 ^ 64), 7)]
     refsInKeyOrder .plain state (.int 128) [-(2 ^ 64)] none (some (0, true)) = [7] ∧
       7 ∉ state.rowRefsForKeyRange .plain none (some (intBound (.int 128) (0, true))) none) := by
  refine ⟨⟨by decide +kernel, fun h => ?_⟩, by decide +kernel, fun h => ?_⟩
  · have hascending := pairwise_rowRefsForKeyRange .plain
      (insertIntegers .plain ⟨"i", .indexed, .userDefined, ["n"], ""⟩ (.int 64) [(2, 1), (1, 2)]) none none
    rw [h] at hascending
    revert hascending
    decide
  · obtain ⟨-, -, hordered⟩ := insertPairs_config .plain [([(IntegerColumn.int 128).stored (-(2 ^ 64))], 7)]
      (Ordered.start (some ⟨"i", .indexed, .userDefined, ["n"], ""⟩) (IntegerColumn.int 128).coding)
    obtain ⟨-, encoded, hsome, -, hbelow, -⟩ :=
      (mem_rowRefsForKeyRange _ hordered (inserted_insertPairs .plain _ _ _)).mp h
    obtain ⟨pair, hpair, rfl⟩ := (isSome_insertPairs ..).mp hsome
    obtain rfl := List.mem_singleton.mp hpair
    revert hbelow
    decide +kernel

end PagedIndexState

end DistDb.Indexing
