import Mathlib

/-! The shared vocabulary of the library (`types.hpp`): byte strings, the
4-byte alignment of attribute values, and the big-endian readers and writers.
A buffer is a list of bytes; a read past its end yields zero. -/
namespace Stice

abbrev Bytes := List UInt8

instance : LawfulBEq Bytes := inferInstanceAs (LawfulBEq (List UInt8))

/-- The 4-byte alignment of STUN attribute values. -/
def paddedSize (n : Nat) : Nat := (n + 3) / 4 * 4

def be16 (v : UInt16) : Bytes := [(v >>> 8).toUInt8, v.toUInt8]

def be32 (v : UInt32) : Bytes :=
  [(v >>> 24).toUInt8, (v >>> 16).toUInt8, (v >>> 8).toUInt8, v.toUInt8]

def byteAt (p : Bytes) (i : Nat) : UInt8 := p.getD i 0

def readU16Be (p : Bytes) (off : Nat) : UInt16 :=
  ((byteAt p off).toUInt16 <<< 8) ||| (byteAt p (off + 1)).toUInt16

def readU32Be (p : Bytes) (off : Nat) : UInt32 :=
  ((byteAt p off).toUInt32 <<< 24) ||| ((byteAt p (off + 1)).toUInt32 <<< 16) |||
    ((byteAt p (off + 2)).toUInt32 <<< 8) ||| (byteAt p (off + 3)).toUInt32

/-- Overwrite part of a buffer in place, as `memcpy(p + off, v, size)` does. -/
def writeAt (p : Bytes) (off : Nat) (v : Bytes) : Bytes :=
  p.take off ++ v ++ p.drop (off + v.length)

def writeU16Be (p : Bytes) (off : Nat) (v : UInt16) : Bytes := writeAt p off (be16 v)

/-- The `n` bytes that start at `off`. -/
def slice (p : Bytes) (off n : Nat) : Bytes := (p.drop off).take n

/-! ## Reading back what was written -/

theorem or_eq_add {a b : Nat} (k : Nat) (ha : a % 2 ^ k = 0) (hb : b < 2 ^ k) :
    a ||| b = a + b := by
  obtain ⟨c, rfl⟩ := Nat.dvd_of_mod_eq_zero ha
  rw [← Nat.two_pow_add_eq_or_of_lt hb]

/-- A mask of `j` ones above `k` zeros cuts out a digit. -/
theorem and_mask (n j k : Nat) : n &&& ((2 ^ j - 1) * 2 ^ k) = n / 2 ^ k % 2 ^ j * 2 ^ k := by
  rw [← Nat.shiftLeft_eq, ← Nat.shiftLeft_eq, ← Nat.and_two_pow_sub_one_eq_mod,
    ← Nat.shiftRight_eq_div_pow]
  apply Nat.eq_of_testBit_eq
  intro i
  by_cases h : k ≤ i
  · simp [h, Bool.and_comm]
  · simp [h]

theorem join_be16 (v : UInt16) :
    ((v >>> 8).toUInt8.toUInt16 <<< 8) ||| v.toUInt8.toUInt16 = v := by
  have h := v.toNat_lt
  apply UInt16.toNat_inj.mp
  simp only [UInt16.toNat_or, UInt16.toNat_shiftLeft, UInt8.toNat_toUInt16, UInt16.toNat_toUInt8,
    UInt16.toNat_shiftRight, Nat.shiftRight_eq_div_pow, Nat.shiftLeft_eq]
  rw [or_eq_add 8] <;> simp <;> omega

theorem or_bytes {a b c d : Nat} (ha : a < 256) (hb : b < 256) (hc : c < 256) (hd : d < 256) :
    a * 16777216 % 4294967296 ||| b * 65536 % 4294967296 ||| c * 256 % 4294967296 ||| d =
      ((a * 256 + b) * 256 + c) * 256 + d := by
  have hab : a * 256 ||| b = a * 256 + b := by
    apply or_eq_add 8 <;> omega
  have habc : (a * 256 + b) * 256 ||| c = (a * 256 + b) * 256 + c := by
    apply or_eq_add 8 <;> omega
  have habcd : ((a * 256 + b) * 256 + c) * 256 ||| d = ((a * 256 + b) * 256 + c) * 256 + d := by
    apply or_eq_add 8 <;> omega
  rw [Nat.mod_eq_of_lt (by omega), Nat.mod_eq_of_lt (by omega), Nat.mod_eq_of_lt (by omega),
    ← habcd, ← habc, ← hab]
  have hmul : ∀ x y : Nat, (x ||| y) * 256 = x * 256 ||| y * 256 := fun x y => by
    simpa [Nat.shiftLeft_eq] using @Nat.shiftLeft_or_distrib 8 x y
  simp only [hmul, Nat.mul_assoc, Nat.reduceMul]

theorem join_be32 (v : UInt32) :
    ((v >>> 24).toUInt8.toUInt32 <<< 24) ||| ((v >>> 16).toUInt8.toUInt32 <<< 16) |||
      ((v >>> 8).toUInt8.toUInt32 <<< 8) ||| v.toUInt8.toUInt32 = v := by
  have h := v.toNat_lt
  apply UInt32.toNat_inj.mp
  simp only [UInt32.toNat_or, UInt32.toNat_shiftLeft, UInt8.toNat_toUInt32, UInt32.toNat_toUInt8,
    UInt32.toNat_shiftRight, Nat.shiftRight_eq_div_pow, Nat.shiftLeft_eq, UInt32.reduceToNat,
    Nat.reduceMod, Nat.reducePow] at h ⊢
  rw [or_bytes (by omega) (by omega) (by omega) (by omega)]
  omega

@[simp] theorem length_be16 (v : UInt16) : (be16 v).length = 2 := rfl

@[simp] theorem length_be32 (v : UInt32) : (be32 v).length = 4 := rfl

theorem byteAt_drop (p : Bytes) (off i : Nat) : byteAt (p.drop off) i = byteAt p (off + i) := by
  simp [byteAt, List.getD]

theorem byteAt_append {p : Bytes} {i : Nat} (h : i < p.length) (q : Bytes) :
    byteAt (p ++ q) i = byteAt p i := by
  simp only [byteAt, List.getD_eq_getElem?_getD, List.getElem?_append_left h]

theorem readU16Be_append {p : Bytes} {off : Nat} (h : off + 2 ≤ p.length) (q : Bytes) :
    readU16Be (p ++ q) off = readU16Be p off := by
  rw [readU16Be, readU16Be, byteAt_append (by omega), byteAt_append (by omega)]

theorem readU32Be_append {p : Bytes} {off : Nat} (h : off + 4 ≤ p.length) (q : Bytes) :
    readU32Be (p ++ q) off = readU32Be p off := by
  rw [readU32Be, readU32Be, byteAt_append (by omega), byteAt_append (by omega),
    byteAt_append (by omega), byteAt_append (by omega)]

theorem readU16Be_of_drop {p : Bytes} {off : Nat} {v : UInt16} {rest : Bytes}
    (h : p.drop off = be16 v ++ rest) : readU16Be p off = v := by
  have h0 := byteAt_drop p off 0
  have h1 := byteAt_drop p off 1
  rw [h] at h0 h1
  rw [readU16Be, ← h1, show byteAt p off = _ from h0.symm]
  exact join_be16 v

theorem readU32Be_of_drop {p : Bytes} {off : Nat} {v : UInt32} {rest : Bytes}
    (h : p.drop off = be32 v ++ rest) : readU32Be p off = v := by
  have h0 := byteAt_drop p off 0
  have h1 := byteAt_drop p off 1
  have h2 := byteAt_drop p off 2
  have h3 := byteAt_drop p off 3
  rw [h] at h0 h1 h2 h3
  rw [readU32Be, ← h1, ← h2, ← h3, show byteAt p off = _ from h0.symm]
  exact join_be32 v

theorem slice_of_drop {p v rest : Bytes} {off : Nat} (h : p.drop off = v ++ rest) :
    slice p off v.length = v := by
  rw [slice, h, List.take_left']
  rfl

/-- A write changes only the bytes it covers. -/
theorem getElem?_writeAt {p v : Bytes} {off j : Nat} (h : off ≤ p.length)
    (hj : j < off ∨ off + v.length ≤ j) : (writeAt p off v)[j]? = p[j]? := by
  have htake : (p.take off).length = off := by
    rw [List.length_take]
    omega
  rw [writeAt, List.append_assoc]
  rcases hj with hj | hj
  · rw [List.getElem?_append_left (by omega), List.getElem?_take_of_lt hj]
  · rw [List.getElem?_append_right (by omega), List.getElem?_append_right (by omega),
      List.getElem?_drop, htake]
    congr 1
    omega

theorem le_paddedSize (n : Nat) : n ≤ paddedSize n := by
  simp only [paddedSize]
  omega

end Stice
