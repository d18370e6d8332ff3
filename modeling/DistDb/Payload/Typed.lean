import DistDb.Payload.Stored

/-! # Typed values of stored rows

Encoding converts a value to the type of its column and keeps it as it is if that fails. -/

namespace DistDb
open Lib

/-! ## Values -/

namespace FieldKind

def isTyped : FieldKind → Bool
  | .int _ | .uint _ | .uuid => true
  | _ => false

def Holds (prims : ValuePrimitives) (value : Bytes) : FieldKind → Prop
  | .int bits => ∃ v ∈ (decodeNumericValue prims value).bind (numericAsI128 prims),
      -(2 ^ (integerWidth bits - 1)) ≤ v ∧ v < 2 ^ (integerWidth bits - 1)
  | .uint bits => ∃ v ∈ (decodeNumericValue prims value).bind (numericAsU128 prims), v < 2 ^ integerWidth bits
  | .uuid => (decodeTaggedDbUuidBinary value).isSome = true
  | _ => True

end FieldKind

/-- A text that parses as a uuid gives the 16 bytes of one. -/
def ValuePrimitives.ParsesUuids (prims : ValuePrimitives) : Prop :=
  ∀ text bytes, prims.parseUuid text = some bytes → bytes.length = 16

section Values

variable {prims : ValuePrimitives} {value stored : Bytes}

theorem decodeTaggedDbUuidBinary_tagged {bytes : Bytes} (h : bytes.length = 16) :
    decodeTaggedDbUuidBinary (0x31 :: bytes) = some bytes := by
  rw [decodeTaggedDbUuidBinary, if_pos ⟨rfl, h⟩]

theorem length_of_decodeDbUuidBinaryForConversion {bytes : Bytes}
    (h : decodeDbUuidBinaryForConversion value = some bytes) : bytes.length = 16 := by
  unfold decodeDbUuidBinaryForConversion at h
  split at h
  · rename_i bytes' htagged
    cases h
    unfold decodeTaggedDbUuidBinary at htagged
    split at htagged
    · split at htagged
      · rename_i hlength
        cases htagged
        exact hlength.2
      · cases htagged
    · cases htagged
  · split at h
    · rename_i hlength
      cases h
      exact hlength
    · cases h

theorem decodeNumericValue_of_tagged {tag : UInt8} {bytes : Bytes} {number : StoredNumericValue}
    (h : decodeTaggedNumericValue prims tag bytes = some number) :
    decodeNumericValue prims (tag :: bytes) = some number := by
  rw [decodeNumericValue, h]

@[simp] theorem length_leIntBytes (width : Nat) (v : Int) : (leIntBytes width v).length = width :=
  length_leBytes ..

/-- The tag of a signed integer, to which `0x10` is added for an unsigned one, and the number of its bytes. -/
def integerLayout (bits : UInt8) : UInt8 × Nat :=
  match bits.toNat with
  | 8 => (0x01, 1)
  | 16 => (0x02, 2)
  | 32 => (0x03, 4)
  | 64 => (0x04, 8)
  | _ => (0x05, 16)

theorem integerWidth_eq (bits : UInt8) : integerWidth bits = 8 * (integerLayout bits).2 := by
  unfold integerWidth integerLayout
  split <;> simp_all

theorem integerLayout_pos (bits : UInt8) : 0 < (integerLayout bits).2 := by
  unfold integerLayout
  split <;> decide

theorem decodeTaggedNumericValue_layout (prims : ValuePrimitives) {bits : UInt8} {bytes : Bytes}
    (h : bytes.length = (integerLayout bits).2) :
    decodeTaggedNumericValue prims (integerLayout bits).1 bytes = some (.signed (leInt bytes)) ∧
      decodeTaggedNumericValue prims ((integerLayout bits).1 + 0x10) bytes = some (.unsigned (leNat bytes)) := by
  unfold integerLayout at h ⊢
  split at h <;> simp [decodeTaggedNumericValue, h]

theorem encodeSignedNumeric_eq_some {bits : UInt8} {v : Int} (h : encodeSignedNumeric bits v = some stored) :
    stored = (integerLayout bits).1 :: leIntBytes (integerLayout bits).2 v := by
  unfold encodeSignedNumeric at h
  unfold integerLayout
  split at h <;> simp_all [encodeSignedWidth]

theorem encodeUnsignedNumeric_eq_some {bits : UInt8} {v : Nat} (h : encodeUnsignedNumeric bits v = some stored) :
    stored = ((integerLayout bits).1 + 0x10) :: leBytes (integerLayout bits).2 v := by
  unfold encodeUnsignedNumeric at h
  unfold integerLayout
  split at h <;> simp_all [encodeUnsignedWidth]

theorem holds_int_layout {bits : UInt8} {bytes : Bytes} (h : bytes.length = (integerLayout bits).2) :
    FieldKind.Holds prims ((integerLayout bits).1 :: bytes) (.int bits) := by
  refine ⟨leInt bytes, ?_, ?_⟩
  · rw [decodeNumericValue_of_tagged (decodeTaggedNumericValue_layout prims h).1]
    rfl
  · have hpos := integerLayout_pos bits
    have hpow : (256 : Int) ^ bytes.length = 2 * 2 ^ (integerWidth bits - 1) := by
      rw [← pow_succ', integerWidth_eq, show 8 * (integerLayout bits).2 - 1 + 1 = 8 * (integerLayout bits).2 by omega,
        pow_mul, h]
      norm_num
    have hbounds := leInt_bounds bytes
    rw [hpow] at hbounds
    omega

theorem holds_uint_layout {bits : UInt8} {bytes : Bytes} (h : bytes.length = (integerLayout bits).2) :
    FieldKind.Holds prims (((integerLayout bits).1 + 0x10) :: bytes) (.uint bits) := by
  refine ⟨leNat bytes, ?_, ?_⟩
  · rw [decodeNumericValue_of_tagged (decodeTaggedNumericValue_layout prims h).2]
    rfl
  · rw [integerWidth_eq, pow_mul, ← h]
    exact leNat_lt bytes

theorem convertToUuid_cases (huuids : prims.ParsesUuids)
    (h : convertValueToFieldType prims value .uuid .safe = some stored) :
    ∃ bytes : Bytes, bytes.length = 16 ∧ stored = 0x31 :: bytes := by
  simp only [convertValueToFieldType] at h
  split at h
  · rename_i bytes hbytes
    exact ⟨bytes, length_of_decodeDbUuidBinaryForConversion hbytes, (Option.some.inj h).symm⟩
  · split at h
    · rename_i bytes hbytes
      obtain ⟨text, -, hparse⟩ := Option.bind_eq_some_iff.mp hbytes
      exact ⟨bytes, huuids _ _ hparse, (Option.some.inj h).symm⟩
    · simp [TypeConversionPolicy.otherwise] at h

theorem isSome_convert_of_holds {kind : FieldKind} (htyped : kind.isTyped = true) (h : kind.Holds prims value) :
    (convertValueToFieldType prims value kind .safe).isSome = true := by
  cases kind with
  | int bits =>
    obtain ⟨v, hv, hlower, hupper⟩ := h
    have hread : readSigned prims value = some v := by rw [readSigned, hv]
    simp only [convertValueToFieldType, hread]
    have hwidth : integerWidth bits - 1 ≤ 127 := by unfold integerWidth; split <;> omega
    have hle : (2 : Int) ^ (integerWidth bits - 1) ≤ 2 ^ 127 := pow_le_pow_right₀ (by norm_num) hwidth
    have hrange : -(2 ^ 127) ≤ v ∧ v < 2 ^ 127 := ⟨(neg_le_neg hle).trans hlower, hupper.trans_le hle⟩
    exact (isSome_encodeSignedNumeric hrange).mpr ⟨hlower, hupper⟩
  | uint bits =>
    obtain ⟨v, hv, hlt⟩ := h
    simp only [convertValueToFieldType, Option.mem_def.mp hv]
    have hwidth : integerWidth bits ≤ 128 := by unfold integerWidth; split <;> omega
    exact (isSome_encodeUnsignedNumeric (hlt.trans_le (Nat.pow_le_pow_right Nat.two_pos hwidth))).mpr hlt
  | uuid =>
    obtain ⟨bytes, hbytes⟩ := Option.isSome_iff_exists.mp h
    simp [convertValueToFieldType, decodeDbUuidBinaryForConversion, hbytes]
  | float | date | dateTime | timestamp | stringFixed | text | enum | spatial | blob => cases htyped

end Values

end DistDb
