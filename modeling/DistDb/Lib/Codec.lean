import Mathlib

/-! # Binary codecs

The wire format of bincode's legacy configuration. A codec carries both of its round trips, so a record's codec is
correct by the way it is put together. -/

namespace DistDb.Lib

abbrev Bytes := List UInt8

def utf8Bytes (s : String) : Bytes := s.toUTF8.data.toList

/-! ## Little-endian naturals -/

def leBytes : (width : Nat) → Nat → Bytes
  | 0, _ => []
  | width + 1, n => UInt8.ofNat (n % 256) :: leBytes width (n / 256)

def leNat : Bytes → Nat
  | [] => 0
  | b :: bs => b.toNat + 256 * leNat bs

@[simp] theorem length_leBytes (width n : Nat) : (leBytes width n).length = width := by
  induction width generalizing n with
  | zero => rfl
  | succ width ih => simp [leBytes, ih]

theorem leNat_leBytes {width n : Nat} (h : n < 256 ^ width) : leNat (leBytes width n) = n := by
  induction width generalizing n with
  | zero => simp only [pow_zero, Nat.lt_one_iff] at h; simp [leBytes, leNat, h]
  | succ width ih =>
    have hdiv : n / 256 < 256 ^ width := Nat.div_lt_of_lt_mul (by rwa [pow_succ'] at h)
    have hbyte : (UInt8.ofNat (n % 256)).toNat = n % 256 := by simp
    rw [leBytes, leNat, ih hdiv, hbyte]
    omega

theorem leNat_lt (bs : Bytes) : leNat bs < 256 ^ bs.length := by
  induction bs with
  | nil => simp [leNat]
  | cons b bs ih =>
    have hb : b.toNat < 256 := b.toNat_lt
    simp only [leNat, List.length_cons, pow_succ]
    omega

theorem leBytes_leNat (bs : Bytes) : leBytes bs.length (leNat bs) = bs := by
  induction bs with
  | nil => rfl
  | cons b bs ih =>
    have hb : b.toNat < 256 := b.toNat_lt
    have hmod : (b.toNat + 256 * leNat bs) % 256 = b.toNat := by omega
    have hdiv : (b.toNat + 256 * leNat bs) / 256 = leNat bs := by omega
    simp [leBytes, leNat, hmod, hdiv, ih]

/-! ## Codecs -/

/-- `decode` reads a value off the front and returns what is left. The first law is asked only of
encodings whose length is a `u64`, since longer ones overflow their own length fields. -/
structure Codec (α : Type*) where
  encode : α → Bytes
  decode : Bytes → Option (α × Bytes)
  decode_encode : ∀ a rest, (encode a).length < 2 ^ 64 → decode (encode a ++ rest) = some (a, rest)
  encode_decode : ∀ bs a rest, decode bs = some (a, rest) → encode a ++ rest = bs

def takeExact (n : Nat) (bs : Bytes) : Option (Bytes × Bytes) :=
  if n ≤ bs.length then some (bs.take n, bs.drop n) else none

theorem takeExact_append (xs rest : Bytes) : takeExact xs.length (xs ++ rest) = some (xs, rest) := by
  simp [takeExact]

theorem takeExact_eq_some {n : Nat} {bs xs rest : Bytes} (h : takeExact n bs = some (xs, rest)) :
    xs.length = n ∧ xs ++ rest = bs := by
  simp only [takeExact] at h
  split at h
  · cases h
    simpa using ‹n ≤ bs.length›
  · cases h

namespace Codec

variable {α β : Type*}

def nat (width : Nat) : Codec (Fin (256 ^ width)) where
  encode n := leBytes width n
  decode bs :=
    match takeExact width bs with
    | some (xs, rest) => if h : leNat xs < 256 ^ width then some (⟨leNat xs, h⟩, rest) else none
    | none => none
  decode_encode n rest _ := by
    have h := takeExact_append (leBytes width n) rest
    rw [length_leBytes] at h
    simp [h, leNat_leBytes n.isLt]
  encode_decode bs n rest h := by
    cases ht : takeExact width bs with
    | none => simp [ht] at h
    | some p =>
      obtain ⟨hlen, happ⟩ := takeExact_eq_some ht
      simp only [ht] at h
      split at h
      · cases h
        subst hlen
        exact (congrArg (· ++ p.2) (leBytes_leNat p.1)).trans happ
      · cases h

def refine (c : Codec α) (f : β → α) (g : α → Option β) (hgf : ∀ b, g (f b) = some b)
    (hfg : ∀ a b, g a = some b → f b = a) : Codec β where
  encode b := c.encode (f b)
  decode bs :=
    match c.decode bs with
    | some (a, rest) => (g a).map (·, rest)
    | none => none
  decode_encode b rest h := by simp [c.decode_encode _ rest h, hgf]
  encode_decode bs b rest h := by
    cases hd : c.decode bs with
    | none => simp [hd] at h
    | some p =>
      simp only [hd, Option.map_eq_some_iff, Prod.mk.injEq] at h
      obtain ⟨b', hb', rfl, rfl⟩ := h
      rw [hfg _ _ hb']
      exact c.encode_decode _ _ _ hd

def u8 : Codec UInt8 :=
  (nat 1).refine (fun x => ⟨x.toNat, x.toNat_lt⟩) (fun n => some (UInt8.ofNat n)) (by simp)
    (fun a b h => by
      cases h
      exact Fin.ext (Nat.mod_eq_of_lt a.isLt))

def u32 : Codec UInt32 :=
  (nat 4).refine (fun x => ⟨x.toNat, x.toNat_lt⟩) (fun n => some (UInt32.ofNat n)) (by simp)
    (fun a b h => by
      cases h
      exact Fin.ext (Nat.mod_eq_of_lt a.isLt))

def u64 : Codec UInt64 :=
  (nat 8).refine (fun x => ⟨x.toNat, x.toNat_lt⟩) (fun n => some (UInt64.ofNat n)) (by simp)
    (fun a b h => by
      cases h
      exact Fin.ext (Nat.mod_eq_of_lt a.isLt))

def pair (c : Codec α) (d : Codec β) : Codec (α × β) where
  encode p := c.encode p.1 ++ d.encode p.2
  decode bs :=
    match c.decode bs with
    | some (a, rest) => (d.decode rest).map fun p => ((a, p.1), p.2)
    | none => none
  decode_encode p rest h := by
    simp only [List.length_append] at h
    simp [List.append_assoc, c.decode_encode _ _ (by omega : (c.encode p.1).length < 2 ^ 64),
      d.decode_encode _ _ (by omega : (d.encode p.2).length < 2 ^ 64)]
  encode_decode bs p rest h := by
    cases hd : c.decode bs with
    | none => simp [hd] at h
    | some q =>
      simp only [hd, Option.map_eq_some_iff] at h
      obtain ⟨⟨b, rest'⟩, hb, heq⟩ := h
      cases heq
      rw [List.append_assoc, d.encode_decode _ _ _ hb]
      exact c.encode_decode _ _ _ hd

def option (c : Codec α) : Codec (Option α) where
  encode a := a.elim [0] fun a => 1 :: c.encode a
  decode
    | [] => none
    | tag :: bs =>
      if tag = 0 then some (none, bs)
      else if tag = 1 then (c.decode bs).map fun p => (some p.1, p.2)
      else none
  decode_encode a rest h := by
    cases a with
    | none => rfl
    | some a =>
      have hlen : (c.encode a).length < 2 ^ 64 := by
        simp only [Option.elim_some, List.length_cons] at h
        omega
      simp [c.decode_encode a rest hlen]
  encode_decode bs a rest h := by
    cases bs with
    | nil => simp at h
    | cons tag bs =>
      simp only at h
      split at h
      · cases h
        simp [*]
      · split at h
        · obtain ⟨⟨b, rest'⟩, hb, heq⟩ := Option.map_eq_some_iff.mp h
          cases heq
          simp [*, c.encode_decode _ _ _ hb]
        · cases h

def bytes : Codec Bytes where
  encode xs := leBytes 8 xs.length ++ xs
  decode bs :=
    match takeExact 8 bs with
    | some (count, rest) => takeExact (leNat count) rest
    | none => none
  decode_encode xs rest h := by
    have hcount := takeExact_append (leBytes 8 xs.length) (xs ++ rest)
    have hlen : xs.length < 256 ^ 8 := by
      simp only [List.length_append, length_leBytes] at h
      omega
    rw [length_leBytes] at hcount
    simp [List.append_assoc, hcount, leNat_leBytes hlen, takeExact_append]
  encode_decode bs xs rest h := by
    cases hc : takeExact 8 bs with
    | none => simp [hc] at h
    | some p =>
      obtain ⟨hlen, happ⟩ := takeExact_eq_some hc
      simp only [hc] at h
      obtain ⟨hxs, happ'⟩ := takeExact_eq_some h
      rw [hxs, List.append_assoc, happ', ← hlen, leBytes_leNat, happ]

def string : Codec String :=
  bytes.refine utf8Bytes (fun bs => String.fromUTF8? ⟨bs.toArray⟩)
    (fun s => dif_pos s.isValidUTF8)
    (fun bs s h => by
      simp only [String.fromUTF8?] at h
      split at h
      · cases h
        rfl
      · cases h)

def decodeMany (c : Codec α) : Nat → Bytes → Option (List α × Bytes)
  | 0, bs => some ([], bs)
  | n + 1, bs =>
    (c.decode bs).bind fun p => (decodeMany c n p.2).map fun q => (p.1 :: q.1, q.2)

theorem decodeMany_encode (c : Codec α) (xs : List α) (rest : Bytes) (h : (xs.flatMap c.encode).length < 2 ^ 64) :
    decodeMany c xs.length (xs.flatMap c.encode ++ rest) = some (xs, rest) := by
  induction xs with
  | nil => rfl
  | cons x xs ih =>
    simp only [List.flatMap_cons, List.length_append] at h
    simp [decodeMany, c.decode_encode x _ (by omega), ih (by omega)]

theorem encode_decodeMany (c : Codec α) {n : Nat} {bs rest : Bytes} {xs : List α}
    (h : decodeMany c n bs = some (xs, rest)) : xs.length = n ∧ xs.flatMap c.encode ++ rest = bs := by
  induction n generalizing bs xs with
  | zero =>
    cases h
    exact ⟨rfl, rfl⟩
  | succ n ih =>
    obtain ⟨⟨x, rest'⟩, hx, hmap⟩ := Option.bind_eq_some_iff.mp h
    obtain ⟨⟨ys, rest''⟩, hys, heq⟩ := Option.map_eq_some_iff.mp hmap
    cases heq
    obtain ⟨hlen, happ⟩ := ih hys
    refine ⟨congrArg (· + 1) hlen, ?_⟩
    rw [List.flatMap_cons, List.append_assoc, happ, c.encode_decode _ _ _ hx]

theorem length_le_length_flatMap (c : Codec α) (hne : ∀ a, c.encode a ≠ []) (xs : List α) :
    xs.length ≤ (xs.flatMap c.encode).length := by
  induction xs with
  | nil => exact le_rfl
  | cons x xs ih =>
    have hpos := List.length_pos_iff.mpr (hne x)
    simp only [List.flatMap_cons, List.length_append, List.length_cons]
    omega

def vec (c : Codec α) (hne : ∀ a, c.encode a ≠ []) : Codec (List α) where
  encode xs := leBytes 8 xs.length ++ xs.flatMap c.encode
  decode bs := (takeExact 8 bs).bind fun p => c.decodeMany (leNat p.1) p.2
  decode_encode xs rest h := by
    have hcount := takeExact_append (leBytes 8 xs.length) (xs.flatMap c.encode ++ rest)
    have hle := c.length_le_length_flatMap hne xs
    simp only [List.length_append, length_leBytes] at h
    rw [length_leBytes] at hcount
    rw [List.append_assoc, hcount, Option.bind_some, leNat_leBytes (by omega)]
    exact decodeMany_encode c xs rest (by omega)
  encode_decode bs xs rest h := by
    obtain ⟨⟨count, rest'⟩, hcount, hmany⟩ := Option.bind_eq_some_iff.mp h
    obtain ⟨hlen, happ⟩ := takeExact_eq_some hcount
    obtain ⟨hxs, happ'⟩ := encode_decodeMany c hmany
    rw [hxs, List.append_assoc, happ', ← hlen, leBytes_leNat, happ]

/-! ## Whole buffers -/

/-- Decoding a buffer: bytes after the value are ignored, and a value longer than `limit` is an
error. -/
def deserialize (c : Codec α) (limit : Nat) (bs : Bytes) : Option α :=
  match c.decode bs with
  | some (a, rest) => if bs.length - rest.length ≤ limit then some a else none
  | none => none

theorem deserialize_eq_some {c : Codec α} {limit : Nat} {bs : Bytes} {a : α} : c.deserialize limit bs = some a ↔
      (c.encode a).length ≤ limit ∧ ∃ rest, c.decode bs = some (a, rest) := by
  unfold deserialize
  cases hd : c.decode bs with
  | none => simp
  | some p =>
    have happ := c.encode_decode _ _ _ hd
    have hlen : bs.length - p.2.length = (c.encode p.1).length := by
      rw [← happ, List.length_append]
      omega
    simp only [hlen, Option.ite_none_right_eq_some, Option.some.injEq]
    constructor
    · rintro ⟨hle, rfl⟩
      exact ⟨hle, p.2, rfl⟩
    · rintro ⟨hle, rest, rfl⟩
      exact ⟨hle, rfl⟩

theorem deserialize_encode (c : Codec α) {limit : Nat} {a : α} (h : (c.encode a).length < 2 ^ 64) :
    c.deserialize limit (c.encode a) = if (c.encode a).length ≤ limit then some a else none := by
  have hd : c.decode (c.encode a) = some (a, []) := by simpa using c.decode_encode a [] h
  simp [deserialize, hd]

theorem deserialize_encode_of_le (c : Codec α) {limit : Nat} {a : α} (hlimit : limit < 2 ^ 64)
    (h : (c.encode a).length ≤ limit) : c.deserialize limit (c.encode a) = some a := by
  rw [c.deserialize_encode (by omega), if_pos h]

end Codec

end DistDb.Lib
