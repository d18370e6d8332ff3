import DistDb.Indexing.Range

/-! # Decimal texts in integer columns

What becomes of the text of an integer in a column of any width, and the order of what is stored. -/

namespace DistDb
open Lib

def ValuePrimitives.decimalFloat (prims : ValuePrimitives) (v : ℤ) : Option ℤ :=
  (prims.parseF64 (toString v)).bind prims.integralF64

/-- Halfway between the largest double and the next power of two: from here on a number is read as infinity. -/
def f64Overflow : ℤ := 2 ^ 1024 - 2 ^ 970

/-- An integer that only a double can be read from: beyond both ranges of 128 bits, and not beyond the doubles. -/
def ReadAsDouble (v : ℤ) : Prop := (v < -(2 ^ 127) ∨ 2 ^ 128 ≤ v) ∧ -f64Overflow < v ∧ v < f64Overflow

instance (v : ℤ) : Decidable (ReadAsDouble v) := inferInstanceAs (Decidable (_ ∧ _))

/-- Integers are no dates, doubles are rounded to without crossing a power of two, the text of a float that is no
integer is neither an integer nor a date, and a text of fewer than 32 bytes is no uuid. -/
structure ValuePrimitives.ReadsDecimals (prims : ValuePrimitives) : Prop where
  no_date : ∀ v : ℤ, parseTemporalEpochSeconds prims (toString v) = none
  float_above : ∀ v : ℤ, 2 ^ 128 ≤ v → v < f64Overflow → ∃ w, prims.decimalFloat v = some w ∧ 2 ^ 128 ≤ w
  float_below : ∀ v : ℤ, v < -(2 ^ 127) → -f64Overflow < v → ∃ w, prims.decimalFloat v = some w ∧ w ≤ -(2 ^ 127)
  float_overflow : ∀ v : ℤ, ¬ (-f64Overflow < v ∧ v < f64Overflow) → prims.decimalFloat v = none
  fraction_unread : ∀ bits, prims.integralF64 bits = none →
    parseSigned (2 ^ 127) (trim (prims.renderF64 bits)) = none ∧
      parseTemporalEpochSeconds prims (prims.renderF64 bits) = none
  uuid_length : ∀ value text bytes, fromUtf8 value = some text → prims.parseUuid (trim text) = some bytes →
    32 ≤ value.length

/-! ## Texts of integers -/

theorem parseSigned_toString_eq (bound : ℕ) (v : ℤ) :
    parseSigned bound (toString v) = if -(bound : ℤ) ≤ v ∧ v < bound then some v else none := by
  split
  · exact parseSigned_toString ‹_›
  · rename_i hrange
    cases hread : parseSigned bound (toString v) with
    | none => rfl
    | some w =>
      have hwide : parseSigned (max bound (v.natAbs + 1)) (toString v) = some v :=
        parseSigned_toString (by omega)
      rw [parseSigned_mono _ (le_max_left _ _) hread] at hwide
      exact absurd (Option.some.inj hwide ▸ bounds_of_parseSigned hread) hrange

theorem parseUnsigned_toString_eq (bound : ℕ) (v : ℤ) :
    parseUnsigned bound (toString v) = if 0 ≤ v ∧ v < bound then some v.toNat else none := by
  split
  · rename_i hrange
    rw [← Int.toNat_of_nonneg hrange.1, toString_natCast, Int.toNat_natCast]
    exact parseUnsigned_toString (by omega)
  · rename_i hrange
    cases hread : parseUnsigned bound (toString v) with
    | none => rfl
    | some n =>
      have hbound : n < bound := by simpa using (Option.filter_eq_some_iff.mp hread).2
      have hsigned := parseSigned_of_parseUnsigned hread hbound
      rw [parseSigned_toString_eq] at hsigned
      obtain ⟨hrange', heq⟩ := Option.ite_none_right_eq_some.mp hsigned
      rw [Option.some.inj heq] at hrange
      exact absurd ⟨n.cast_nonneg, by omega⟩ hrange

theorem decodeNumericValue_decimal (prims : ValuePrimitives) (v : ℤ) :
    decodeNumericValue prims (utf8Bytes (toString v)) =
      if -(2 ^ 127) ≤ v ∧ v < 2 ^ 127 then some (.signed v)
      else if 0 ≤ v ∧ v < 2 ^ 128 then some (.unsigned v.toNat)
      else (prims.parseF64 (toString v)).map .float := by
  obtain ⟨c, cs, htext, hc⟩ := exists_head_toString v
  have hsigned := parseSigned_toString_eq (2 ^ 127) v
  have hunsigned := parseUnsigned_toString_eq (2 ^ 128) v
  simp only [Nat.cast_pow, Nat.cast_ofNat] at hsigned hunsigned
  rw [decodeNumericValue_of_head htext hc, decodeLegacyNumericValue, parseI128Bytes, parseU128Bytes, parseF64Bytes,
    fromUtf8_utf8Bytes, Option.bind_some, Option.bind_some, Option.bind_some, trim_eq_self (isTrimmed_toString_int v),
    hsigned, hunsigned]
  by_cases hrange : -(2 ^ 127) ≤ v ∧ v < 2 ^ 127
  · simp only [if_pos hrange]
  · by_cases hwide : 0 ≤ v ∧ v < 2 ^ 128
    · simp only [if_neg hrange, if_pos hwide]
    · simp only [if_neg hrange, if_neg hwide]

theorem decodeTaggedDbUuidBinary_decimal {v : ℤ} (h : ¬ (-(2 ^ 127) ≤ v ∧ v < 2 ^ 127)) :
    decodeTaggedDbUuidBinary (utf8Bytes (toString v)) = none := by
  have hdigits : ∀ n : ℕ, 2 ^ 127 ≤ n → 18 ≤ (Nat.toDigits 10 n).length := by
    intro n hn
    have hlt := parseDigits_lt (parseDigits_toDigits n)
    by_contra hshort
    have hpow : 10 ^ (Nat.toDigits 10 n).length ≤ 10 ^ 17 := Nat.pow_le_pow_right (by decide) (by omega)
    omega
  have hchars : 18 ≤ (toString v).toList.length := by
    rw [toString_int]
    split
    · exact hdigits _ (by omega)
    · exact (hdigits _ (by omega)).trans (Nat.le_succ _)
  have hbytes : (toString v).toList.length ≤ (utf8Bytes (toString v)).length := by
    rw [utf8Bytes_eq_flatMap, List.length_flatMap]
    conv_lhs => rw [← List.length_map fun c => (String.utf8EncodeChar c).length]
    refine List.length_le_sum_of_one_le _ fun n hn => ?_
    obtain ⟨c, -, rfl⟩ := List.mem_map.mp hn
    rw [String.length_utf8EncodeChar]
    exact c.utf8Size_pos
  cases hvalue : utf8Bytes (toString v) with
  | nil => rfl
  | cons tag bytes =>
    rw [hvalue, List.length_cons] at hbytes
    exact if_neg fun htag => by omega

namespace Indexing.IntegerColumn

def fieldKind : IntegerColumn → FieldKind
  | int bits => .int bits
  | uint bits => .uint bits

/-- The integer that is taken from the text of an integer: a double beyond 128 bits becomes the largest or the
smallest integer of them. -/
def read (v : ℤ) : IntegerColumn → Option ℤ
  | int _ =>
    if -(2 ^ 127) ≤ v ∧ v < 2 ^ 127 then some v
    else if ReadAsDouble v then some (if v < 0 then -(2 ^ 127) else 2 ^ 127 - 1)
    else none
  | uint _ =>
    if 0 ≤ v ∧ v < 2 ^ 128 then some v
    else if 0 ≤ v ∧ ReadAsDouble v then some (2 ^ 128 - 1)
    else none

variable {prims : ValuePrimitives} {column other : IntegerColumn} {v w : ℤ}

theorem decimalFloat_of_readAsDouble (hprims : prims.ReadsDecimals) (h : ReadAsDouble v) :
    ∃ w, prims.decimalFloat v = some w ∧ (v < 0 ∧ w ≤ -(2 ^ 127) ∨ 0 ≤ v ∧ 2 ^ 128 ≤ w) := by
  obtain ⟨hbelow | habove, hlow, hhigh⟩ := h
  · obtain ⟨w, hw, hle⟩ := hprims.float_below v hbelow hlow
    exact ⟨w, hw, .inl ⟨by omega, hle⟩⟩
  · obtain ⟨w, hw, hle⟩ := hprims.float_above v habove hhigh
    exact ⟨w, hw, .inr ⟨by omega, hle⟩⟩

theorem decimalFloat_of_not_readAsDouble (hprims : prims.ReadsDecimals) (hrange : ¬ (-(2 ^ 127) ≤ v ∧ v < 2 ^ 127))
    (hwide : ¬ (0 ≤ v ∧ v < 2 ^ 128)) (h : ¬ ReadAsDouble v) : prims.decimalFloat v = none := by
  refine hprims.float_overflow v fun hfinite => h ⟨?_, hfinite⟩
  omega

theorem readSigned_decimal (hprims : prims.ReadsDecimals) (bits : UInt8) :
    readSigned prims (utf8Bytes (toString v)) = (int bits).read v := by
  have hsigned := parseSigned_toString_eq (2 ^ 127) v
  simp only [Nat.cast_pow, Nat.cast_ofNat] at hsigned
  unfold readSigned read
  rw [decodeNumericValue_decimal]
  by_cases hrange : -(2 ^ 127) ≤ v ∧ v < 2 ^ 127
  · simp only [if_pos hrange]
    rfl
  · have hparse : parseSigned (2 ^ 127) (trim (toString v)) = none := by
      rw [trim_eq_self (isTrimmed_toString_int v), hsigned, if_neg hrange]
    rw [renderStoredFieldValue_eq, decodeTaggedDbUuidBinary_decimal hrange, decodeNumericValue_decimal]
    simp only [if_neg hrange]
    by_cases hwide : 0 ≤ v ∧ v < 2 ^ 128
    · have hlarge : ¬ v.toNat < 2 ^ 127 := by omega
      have hdouble : ¬ ReadAsDouble v := fun h => by
        have := h.1
        omega
      simp only [if_pos hwide, Option.bind_some, numericAsI128, if_neg hlarge, StoredNumericValue.numeral,
        if_neg hdouble]
      rw [← toString_natCast, Int.toNat_of_nonneg hwide.1, fromUtf8_utf8Bytes, Option.bind_some, hparse,
        hprims.no_date v]
    · simp only [if_neg hwide]
      by_cases hdouble : ReadAsDouble v
      · obtain ⟨w, hw, hside⟩ := decimalFloat_of_readAsDouble hprims hdouble
        obtain ⟨bits, hbits, hintegral⟩ := Option.bind_eq_some_iff.mp hw
        have hsaturated : saturateI128 w = if v < 0 then -(2 ^ 127) else 2 ^ 127 - 1 := by
          unfold saturateI128
          split <;> omega
        simp only [hbits, Option.map_some, Option.bind_some, numericAsI128, hintegral, hsaturated, if_pos hdouble]
      · -- a double that is no integer, or none at all
        have hnone := decimalFloat_of_not_readAsDouble hprims hrange hwide hdouble
        rw [if_neg hdouble]
        cases hbits : prims.parseF64 (toString v) with
        | none =>
          change (fromUtf8 (utf8Bytes (toString v))).bind _ = none
          rw [fromUtf8_utf8Bytes, Option.bind_some, hparse, hprims.no_date v]
        | some bits =>
          have hfloat : prims.integralF64 bits = none := by
            rwa [ValuePrimitives.decimalFloat, hbits, Option.bind_some] at hnone
          obtain ⟨hsigned', hdate⟩ := hprims.fraction_unread bits hfloat
          simp only [Option.map_some, Option.bind_some, numericAsI128, hfloat, Option.map_none]
          change (fromUtf8 (utf8Bytes (prims.renderF64 bits))).bind _ = none
          rw [fromUtf8_utf8Bytes, Option.bind_some, hsigned', hdate]

theorem readUnsigned_decimal (hprims : prims.ReadsDecimals) (bits : UInt8) :
    (decodeNumericValue prims (utf8Bytes (toString v))).bind (numericAsU128 prims) =
      ((uint bits).read v).map Int.toNat := by
  unfold read
  rw [decodeNumericValue_decimal]
  by_cases hrange : -(2 ^ 127) ≤ v ∧ v < 2 ^ 127
  · simp only [if_pos hrange, Option.bind_some, numericAsU128]
    by_cases hv : 0 ≤ v
    · rw [if_pos hv, if_pos (by omega)]
      rfl
    · rw [if_neg hv, if_neg (by omega), if_neg fun h => hv h.1]
      rfl
  · simp only [if_neg hrange]
    by_cases hwide : 0 ≤ v ∧ v < 2 ^ 128
    · rw [if_pos hwide, if_pos hwide]
      rfl
    · rw [if_neg hwide, if_neg hwide]
      have hfloat : ((prims.parseF64 (toString v)).map StoredNumericValue.float).bind (numericAsU128 prims) =
          (prims.decimalFloat v).bind fun w => if 0 ≤ w then some (min w.toNat (2 ^ 128 - 1)) else none := by
        unfold ValuePrimitives.decimalFloat
        cases prims.parseF64 (toString v) <;> rfl
      rw [hfloat]
      by_cases hdouble : ReadAsDouble v
      · obtain ⟨w, hw, ⟨hv, hle⟩ | ⟨hv, hle⟩⟩ := decimalFloat_of_readAsDouble hprims hdouble
        · rw [hw, Option.bind_some, if_neg (by omega), if_neg (by omega), Option.map_none]
        · rw [hw, Option.bind_some, if_pos (by omega), if_pos ⟨hv, hdouble⟩, Option.map_some]
          congr 1
          omega
      · rw [decimalFloat_of_not_readAsDouble hprims hrange hwide hdouble, if_neg fun h => hdouble h.2]
        rfl

theorem convert_decimal (hprims : prims.ReadsDecimals) (policy : TypeConversionPolicy) :
    convertValueToFieldType prims (utf8Bytes (toString v)) column.fieldKind policy =
      match column.read v with
      | some w => column.encode w
      | none => policy.otherwise (column.encode 0) := by
  cases column with
  | int bits =>
    simp only [fieldKind, convertValueToFieldType, readSigned_decimal hprims bits]
    rfl
  | uint bits =>
    simp only [fieldKind, convertValueToFieldType, readUnsigned_decimal hprims bits]
    cases (uint bits).read v <;> rfl

theorem isSome_encode (h : column.read v = some w) : (column.encode w).isSome = true ↔ column.Fits w := by
  cases column with
  | int bits =>
    refine isSome_encodeSignedNumeric ?_
    rw [read] at h
    split at h
    · cases h
      assumption
    · obtain ⟨-, h⟩ := Option.ite_none_right_eq_some.mp h
      cases h
      split <;> decide
  | uint bits =>
    have hwide : 0 ≤ w ∧ w < 2 ^ 128 := by
      rw [read] at h
      split at h
      · cases h
        assumption
      · obtain ⟨-, h⟩ := Option.ite_none_right_eq_some.mp h
        cases h
        decide
    have hcast : ((2 ^ integerWidth bits : ℕ) : ℤ) = 2 ^ integerWidth bits := by norm_num
    rw [encode, isSome_encodeUnsignedNumeric (by omega), Fits]
    omega

theorem read_of_fits (h : column.Fits v) : column.read v = some v := by
  cases column with
  | int bits =>
    have hle : (2 : ℤ) ^ (integerWidth bits - 1) ≤ 2 ^ 127 :=
      pow_le_pow_right₀ (by decide) (Nat.sub_le_sub_right (integerWidth_le bits) 1)
    rw [Fits] at h
    rw [read, if_pos (by omega)]
  | uint bits =>
    have hle : (2 : ℤ) ^ integerWidth bits ≤ 2 ^ 128 := pow_le_pow_right₀ (by decide) (integerWidth_le bits)
    rw [Fits] at h
    rw [read, if_pos (by omega)]

theorem fits_zero : column.Fits 0 := by
  cases column <;> simp [Fits]

theorem not_uuid (hprims : prims.ReadsDecimals) {tag : UInt8} {bytes : Bytes} {number : StoredNumericValue}
    (h : decodeTaggedNumericValue prims tag bytes = some number) (hlength : bytes.length ≤ 16)
    (hne : bytes.length ≠ 15) : decodeDbUuidBinaryForCompare prims (tag :: bytes) = none := by
  have htag : tag ≠ 0x31 := by
    rintro rfl
    rw [decodeTaggedNumericValue_eq_none (by decide)] at h
    cases h
  have hbinary : decodeDbUuidBinaryForConversion (tag :: bytes) = none := by
    rw [decodeDbUuidBinaryForConversion, decodeTaggedDbUuidBinary, if_neg fun h => htag h.1]
    exact if_neg (by simpa using hne)
  rw [decodeDbUuidBinaryForCompare, hbinary]
  refine Option.eq_none_iff_forall_not_mem.mpr fun uuid huuid => ?_
  obtain ⟨text, htext, huuid⟩ := Option.bind_eq_some_iff.mp huuid
  have hlong := hprims.uuid_length _ text uuid htext huuid
  rw [List.length_cons] at hlong
  omega

theorem decode_encode (hprims : prims.ReadsDecimals) (h : column.Fits v) {bytes : Bytes}
    (hbytes : column.encode v = some bytes) :
    decodeNumericValue prims bytes = some (column.number v) ∧ decodeDbUuidBinaryForCompare prims bytes = none := by
  obtain ⟨tag, rest, rfl, hnumber, hle, hne⟩ := encode_layout prims h hbytes
  exact ⟨decodeNumericValue_of_tagged hnumber, not_uuid hprims hnumber hle hne⟩

theorem compare_number (hv : column.Fits v) (hw : other.Fits w) :
    compareNumericValues prims (column.number v) (other.number w) = compare v w := by
  have hnat : ∀ m n : ℕ, compare m n = compare (m : ℤ) n := by
    intro m n
    rcases lt_trichotomy m n with h | rfl | h
    · rw [compare_lt_iff_lt.mpr h, compare_lt_iff_lt.mpr (by omega)]
    · simp
    · rw [compare_gt_iff_gt.mpr h, compare_gt_iff_gt.mpr (by omega)]
  cases column with
  | int bits =>
    cases other with
    | int bits' => rfl
    | uint bits' => rw [number, number, compareNumericValues, Int.toNat_of_nonneg hw.1]
  | uint bits =>
    cases other with
    | int bits' => rw [number, number, compareNumericValues, Int.toNat_of_nonneg hv.1]
    | uint bits' =>
      rw [number, number, compareNumericValues, hnat, Int.toNat_of_nonneg hv.1, Int.toNat_of_nonneg hw.1]

/-- An integer is stored if it fits, as the same integer, and else refused. -/
def Converts (prims : ValuePrimitives) (policy : TypeConversionPolicy) (v : ℤ) (column : IntegerColumn) : Prop :=
  match convertValueToFieldType prims (utf8Bytes (toString v)) column.fieldKind policy with
  | some bytes => column.Fits v ∧ decodeNumericValue prims bytes = some (column.number v)
  | none => ¬ column.Fits v

/-- Where a double is read from it the column must have fewer than 128 bits, and where nothing is read the policy
must be to refuse it. -/
def ConvertsRange (policy : TypeConversionPolicy) (v : ℤ) : IntegerColumn → Prop
  | int bits => (ReadAsDouble v → integerWidth bits ≠ 128) ∧
    ((-(2 ^ 127) ≤ v ∧ v < 2 ^ 127) ∨ ReadAsDouble v ∨ policy = .safe)
  | uint bits => (0 ≤ v → ReadAsDouble v → integerWidth bits ≠ 128) ∧
    ((0 ≤ v ∧ v < 2 ^ 128) ∨ (0 ≤ v ∧ ReadAsDouble v) ∨ policy = .safe)

theorem converts_iff_read (hprims : prims.ReadsDecimals) (policy : TypeConversionPolicy) :
    column.Converts prims policy v ↔
      (column.read v).elim (policy = .safe) fun w => column.Fits w → column.Fits v := by
  rw [Converts, convert_decimal hprims]
  cases hread : column.read v with
  | none =>
    have hnot : ¬ column.Fits v := fun hfits => by
      rw [read_of_fits hfits] at hread
      cases hread
    cases policy with
    | safe => simpa [TypeConversionPolicy.otherwise] using hnot
    | force =>
      have hzero : column.Fits 0 := fits_zero
      obtain ⟨bytes, hbytes⟩ := Option.isSome_iff_exists.mp ((isSome_encode (read_of_fits hzero)).mpr hzero)
      simp [TypeConversionPolicy.otherwise, hbytes, hnot]
  | some w =>
    have hsame : column.Fits v → w = v := fun hfits => by
      rw [read_of_fits hfits] at hread
      exact (Option.some.inj hread).symm
    have hsome := isSome_encode hread
    dsimp only [Option.elim_some]
    cases hbytes : column.encode w with
    | none =>
      have hnot : ¬ column.Fits w := fun hfits => by simp [hbytes, hfits] at hsome
      exact iff_of_true (fun hfits => hnot (hsame hfits ▸ hfits)) fun hfits => absurd hfits hnot
    | some bytes =>
      have hfits : column.Fits w := hsome.mp (by rw [hbytes]; rfl)
      refine ⟨fun h _ => h.1, fun h => ⟨h hfits, ?_⟩⟩
      obtain rfl := hsame (h hfits)
      exact (decode_encode hprims hfits hbytes).1

/-- The integers at the ends of 128 bits fit no smaller column. -/
theorem fits_extreme_iff (bits : UInt8) :
    ((int bits).Fits (-(2 ^ 127)) ↔ integerWidth bits = 128) ∧
    ((int bits).Fits (2 ^ 127 - 1) ↔ integerWidth bits = 128) ∧
      ((uint bits).Fits (2 ^ 128 - 1) ↔ integerWidth bits = 128) := by
  simp only [Fits]
  unfold integerWidth
  split <;> decide

theorem read_elim_iff (policy : TypeConversionPolicy) :
    ((column.read v).elim (policy = .safe) fun w => column.Fits w → column.Fits v) ↔ column.ConvertsRange policy v := by
  have hread : ∀ h : column.Fits v, column.read v = some v := read_of_fits
  cases column with
  | int bits =>
    obtain ⟨hlow, hhigh, -⟩ := fits_extreme_iff bits
    rw [read] at hread ⊢
    rw [ConvertsRange]
    split_ifs at hread ⊢ with hrange hdouble hv
    · have hdouble : ¬ ReadAsDouble v := fun h => by
        have := h.1
        omega
      exact iff_of_true id ⟨fun h => absurd h hdouble, .inl hrange⟩
    · have hnot : ¬ (int bits).Fits v := fun hfits => hrange (by have := Option.some.inj (hread hfits); omega)
      rw [Option.elim_some, imp_iff_not hnot, hlow]
      simp [hdouble]
    · have hnot : ¬ (int bits).Fits v := fun hfits => hrange (by have := Option.some.inj (hread hfits); omega)
      rw [Option.elim_some, imp_iff_not hnot, hhigh]
      simp [hdouble]
    · simp only [Option.elim_none, hrange, hdouble, false_imp_iff, true_and, false_or]
  | uint bits =>
    obtain ⟨-, -, hhigh⟩ := fits_extreme_iff bits
    rw [read] at hread ⊢
    rw [ConvertsRange]
    split_ifs at hread ⊢ with hrange hdouble
    · have hdouble : ¬ ReadAsDouble v := fun h => by
        have := h.1
        omega
      exact iff_of_true id ⟨fun _ h => absurd h hdouble, .inl hrange⟩
    · have hnot : ¬ (uint bits).Fits v := fun hfits => hrange (by have := Option.some.inj (hread hfits); omega)
      rw [Option.elim_some, imp_iff_not hnot, hhigh]
      simp [hdouble]
    · have hunread : 0 ≤ v → ¬ ReadAsDouble v := fun hv h => hdouble ⟨hv, h⟩
      simp only [Option.elim_none, hrange, hdouble, false_or]
      exact ⟨fun hsafe => ⟨fun hv h => absurd h (hunread hv), hsafe⟩, And.right⟩

/-- An integer is stored rightly if and only if it is in the ranges above. Stored integers are in their order, in
columns of any types. -/
theorem integer_codec_iff (prims : ValuePrimitives) (hprims : prims.ReadsDecimals) (policy : TypeConversionPolicy)
    (column : IntegerColumn) (v : ℤ) :
    (column.Converts prims policy v ↔ column.ConvertsRange policy v) ∧
    ∀ other w bytes bytes', column.Fits v → IntegerColumn.Fits w other →
      convertValueToFieldType prims (utf8Bytes (toString v)) column.fieldKind policy = some bytes →
      convertValueToFieldType prims (utf8Bytes (toString w)) other.fieldKind policy = some bytes' →
        compareStoredFieldValues prims bytes bytes' = compare v w := by
  refine ⟨(converts_iff_read hprims policy).trans (read_elim_iff policy), ?_⟩
  intro other w bytes bytes' hv hw hbytes hbytes'
  rw [convert_decimal hprims, read_of_fits hv] at hbytes
  rw [convert_decimal hprims, read_of_fits hw] at hbytes'
  obtain ⟨hnumber, huuid⟩ := decode_encode hprims hv hbytes
  obtain ⟨hnumber', huuid'⟩ := decode_encode hprims hw hbytes'
  unfold compareStoredFieldValues
  rw [huuid, huuid', hnumber, hnumber']
  exact compare_number hv hw

/-- Doubles for all integers beyond 128 bits, as far as their conversion back goes. -/
def widePrims : ValuePrimitives := { ValuePrimitives.plain with
  parseF64 := fun text => (parseSigned f64Overflow.toNat text).bind fun v =>
    if ReadAsDouble v then some (if v < 0 then 0xc7e0000000000000 else 0x47f0000000000000) else none
  integralF64 := fun bits =>
    if bits = 0xc7e0000000000000 then some (-(2 ^ 127))
      else if bits = 0x47f0000000000000 then some (2 ^ 128) else none }

theorem widePrims_decimalFloat (v : ℤ) : widePrims.decimalFloat v =
    if ReadAsDouble v then some (if v < 0 then -(2 ^ 127) else 2 ^ 128) else none := by
  have hbound : (f64Overflow.toNat : ℤ) = f64Overflow :=
    Int.toNat_of_nonneg (sub_nonneg.mpr (pow_le_pow_right₀ (by decide) (by decide)))
  have hread : widePrims.parseF64 (toString v) =
      if ReadAsDouble v then some (if v < 0 then 0xc7e0000000000000 else 0x47f0000000000000) else none := by
    simp only [widePrims, parseSigned_toString_eq, hbound]
    by_cases hfinite : -f64Overflow ≤ v ∧ v < f64Overflow
    · rw [if_pos hfinite, Option.bind_some]
    · rw [if_neg hfinite, if_neg fun h => hfinite ⟨h.2.1.le, h.2.2⟩, Option.bind_none]
  rw [ValuePrimitives.decimalFloat, hread]
  by_cases hdouble : ReadAsDouble v
  · rw [if_pos hdouble, if_pos hdouble]
    by_cases hv : v < 0
    · simp only [if_pos hv]
      rfl
    · simp only [if_neg hv]
      rfl
  · rw [if_neg hdouble, if_neg hdouble, Option.bind_none]

theorem widePrims_readsDecimals : widePrims.ReadsDecimals where
  no_date _ := rfl
  float_above v hv hfinite := by
    refine ⟨2 ^ 128, ?_, le_rfl⟩
    rw [widePrims_decimalFloat, if_pos ⟨.inr hv, by omega, hfinite⟩, if_neg (by omega)]
  float_below v hv hfinite := by
    refine ⟨-(2 ^ 127), ?_, le_rfl⟩
    rw [widePrims_decimalFloat, if_pos ⟨.inl hv, hfinite, by omega⟩, if_pos (by omega)]
  float_overflow v h := by
    rw [widePrims_decimalFloat, if_neg fun hread => h hread.2]
  fraction_unread _ _ := ⟨rfl, rfl⟩
  uuid_length _ _ _ _ h := by cases h

/-- 200 is refused by a column of 8 bits, and 2 ^ 128 by one of 64 bits, though a double is read from it. -/
theorem wide_integers_convert : widePrims.ReadsDecimals ∧ (int 8).Converts widePrims .safe 200 ∧
    ReadAsDouble (2 ^ 128) ∧ (uint 64).Converts widePrims .force (2 ^ 128) := by
  have hhalf : (2 : ℤ) ^ 1023 ≤ f64Overflow := by
    have hle : (2 : ℤ) ^ 970 ≤ 2 ^ 1023 := pow_le_pow_right₀ (by decide) (by decide)
    refine le_sub_iff_add_le.mpr ((Int.add_le_add_left hle _).trans_eq ?_)
    rw [← two_mul, ← pow_succ']
  have hoverflow : (2 : ℤ) ^ 128 < f64Overflow := (pow_lt_pow_right₀ (by decide) (by decide)).trans_le hhalf
  have hdouble : ReadAsDouble (2 ^ 128) := ⟨.inr le_rfl, by omega, hoverflow⟩
  have hsmall : (int 8).ConvertsRange .safe 200 := ⟨fun _ => by decide, .inl (by decide)⟩
  have hwide : (uint 64).ConvertsRange .force (2 ^ 128) := ⟨fun _ _ => by decide, .inr (.inl ⟨by decide, hdouble⟩)⟩
  refine ⟨widePrims_readsDecimals, ?_, hdouble, ?_⟩
  · rw [(integer_codec_iff widePrims widePrims_readsDecimals .safe (int 8) 200).1]
    exact hsmall
  · rw [(integer_codec_iff widePrims widePrims_readsDecimals .force (uint 64) (2 ^ 128)).1]
    exact hwide

/-- The number 2 ^ 128 is read as a double. -/
theorem wide_integer_saturates :
    let text := "340282366920938463463374607431768211456"
    let prims := { ValuePrimitives.plain with
      parseF64 := fun t => if t = text then some 0x47f0000000000000 else none
      integralF64 := fun bits => if bits = 0x47f0000000000000 then some (2 ^ 128) else none }
    convertValueToFieldType prims (utf8Bytes text) (.int 128) .safe = some (0x05 :: leIntBytes 16 (2 ^ 127 - 1)) ∧
      convertValueToFieldType prims (utf8Bytes text) (.uint 128) .safe = some (0x15 :: leBytes 16 (2 ^ 128 - 1)) := by
  decide +kernel

end Indexing.IntegerColumn

end DistDb
