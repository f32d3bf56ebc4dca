import Stice.Crypto
import Stice.Lib.Crc

/-! The table of `crc32` against the division bit by bit, and the errors that the
checksum finds. -/
namespace Stice.Crypto
open Lib.Crc

def crcPoly : BitVec 32 := 0xEDB88320#32

/-- The bits of a byte string, the least significant bit of each byte first. -/
def messageBits (data : Bytes) : List Bool := data.flatMap fun b => lowBits 8 b.toBitVec

/-- The reflected CRC, one bit at a time. -/
def bitwiseCrc32 (data : Bytes) : UInt32 :=
  UInt32.ofBitVec (remainder crcPoly (BitVec.allOnes 32) (messageBits data) ^^^ BitVec.allOnes 32)

/-! ## The table -/

theorem crcEntry_toBitVec (i : UInt32) : (crcEntry i).toBitVec = shifts crcPoly 8 i.toBitVec := by
  -- one round of the inner loop is one shift
  have hshift (c : UInt32) : (if c &&& 1 ≠ 0 then (0xEDB88320 : UInt32) ^^^ (c >>> 1)
      else c >>> 1).toBitVec = shift crcPoly c.toBitVec := by
    have hlow : c &&& 1 ≠ 0 ↔ c.toBitVec.getLsbD 0 = true := by
      rw [ne_eq, ← UInt32.toBitVec_inj, UInt32.toBitVec_and]
      change ¬ c.toBitVec &&& 1#32 = 0#32 ↔ _
      rw [BitVec.and_one_eq_setWidth_ofBool_getLsbD]
      cases c.toBitVec.getLsbD 0 <;> decide
    unfold shift
    simp only [hlow]
    split <;> rfl
  have hloop (l : List Nat) (c : UInt32) : (l.foldl (fun (c : UInt32) _ =>
      if c &&& 1 ≠ 0 then (0xEDB88320 : UInt32) ^^^ (c >>> 1) else c >>> 1) c).toBitVec =
        shifts crcPoly l.length c.toBitVec := by
    induction l generalizing c with
    | nil => rfl
    | cons _ l ih => rw [List.foldl_cons, ih, hshift, List.length_cons, shifts]
  exact hloop (List.range 8) i

theorem crcTable_getD {i : UInt32} (hi : i.toNat < 256) : crcTable.getD i.toNat 0 = crcEntry i := by
  simp [crcTable, hi]

/-- Eight shifts move the upper bytes down and replace the low one by its entry. -/
theorem shifts_eight (x : BitVec 32) :
    shifts crcPoly 8 x = shifts crcPoly 8 (x &&& 0xFF#32) ^^^ (x >>> 8) := by
  have hbit (i : Nat) : (0xFF#32).getLsbD i = decide (i < 8) := by
    rw [BitVec.getLsbD_ofNat, show 0xFF = 2 ^ 8 - 1 from rfl, Nat.testBit_two_pow_sub_one]
    simp
    omega
  have hsplit : x = (x &&& 0xFF#32) ^^^ (x &&& ~~~0xFF#32) := by
    ext i
    simp only [BitVec.getElem_xor, BitVec.getElem_and, BitVec.getElem_not]
    cases x[i] <;> cases (0xFF#32)[i] <;> rfl
  have hclear : ∀ i < 8, (x &&& ~~~0xFF#32).getLsbD i = false := by
    intro i hi
    simp only [BitVec.getLsbD_and, BitVec.getLsbD_not, hbit]
    simp [hi]
  have hhigh : (x &&& ~~~0xFF#32) >>> 8 = x >>> 8 := by
    apply BitVec.eq_of_getLsbD_eq
    intro i hi
    simp only [BitVec.getLsbD_ushiftRight, BitVec.getLsbD_and, BitVec.getLsbD_not, hbit]
    by_cases h : 8 + i < 32
    · simp [h]
    · simp [BitVec.getLsbD_of_ge x (8 + i) (Nat.not_lt.mp h)]
  conv_lhs => rw [hsplit, shifts_xor, shifts_low_clear crcPoly hclear, hhigh]

theorem crcStep_toBitVec (crc : UInt32) (b : UInt8) :
    (crcStep crc b).toBitVec = remainder crcPoly crc.toBitVec (lowBits 8 b.toBitVec) := by
  have hbits : lowBits 8 b.toBitVec = lowBits 8 (b.toBitVec.setWidth 32) := by
    apply List.map_congr_left
    intro i hi
    have hi := List.mem_range.mp hi
    simp
    omega
  have hbyte : b.toBitVec.setWidth 32 >>> 8 = 0#32 := by
    apply BitVec.eq_of_getLsbD_eq
    intro i _
    simp
  have hindex : ((crc ^^^ b.toUInt32) &&& 0xFF).toNat < 256 := by
    rw [UInt32.toNat_and]
    exact Nat.lt_of_le_of_lt Nat.and_le_right (by decide)
  rw [hbits, remainder_lowBits crcPoly hbyte, shifts_eight, BitVec.ushiftRight_xor_distrib, hbyte,
    BitVec.xor_zero, crcStep, crcTable_getD hindex, UInt32.toBitVec_xor, crcEntry_toBitVec]
  rfl

theorem foldl_crcStep (crc : UInt32) (data : Bytes) :
    (data.foldl crcStep crc).toBitVec = remainder crcPoly crc.toBitVec (messageBits data) := by
  induction data generalizing crc with
  | nil => rfl
  | cons b data ih =>
    rw [List.foldl_cons, ih, crcStep_toBitVec]
    exact (remainder_append _ _ _ _).symm

theorem crc32_eq_bitwise (data : Bytes) : crc32 data = bitwiseCrc32 data := by
  apply UInt32.toBitVec_inj.mp
  rw [crc32, UInt32.toBitVec_xor, foldl_crcStep]
  rfl

/-! ## Errors -/

theorem length_messageBits (data : Bytes) : (messageBits data).length = 8 * data.length := by
  simp [messageBits, lowBits, List.length_flatMap, Nat.mul_comm]

theorem messageBits_xor {m e : Bytes} (h : e.length = m.length) :
    messageBits (List.zipWith (· ^^^ ·) m e) =
      List.zipWith Bool.xor (messageBits m) (messageBits e) := by
  induction m generalizing e with
  | nil => rfl
  | cons b m ih =>
    cases e with
    | nil => cases h
    | cons c e =>
      have hbyte : lowBits 8 (b ^^^ c).toBitVec =
          List.zipWith Bool.xor (lowBits 8 b.toBitVec) (lowBits 8 c.toBitVec) := by
        simp [lowBits, List.zipWith_map, List.zipWith_self]
      have hlen : (lowBits 8 b.toBitVec).length = (lowBits 8 c.toBitVec).length := by
        simp [lowBits]
      have hrest := ih (Nat.succ.inj h)
      simp only [messageBits, List.zipWith_cons_cons, List.flatMap_cons] at hrest ⊢
      rw [hbyte, hrest, List.zipWith_append hlen]

/-- The difference of two checksums is the remainder of the errors. -/
theorem crc32_xor {m e : Bytes} (h : e.length = m.length) :
    (crc32 (List.zipWith (· ^^^ ·) m e)).toBitVec =
      (crc32 m).toBitVec ^^^ remainder crcPoly 0#32 (messageBits e) := by
  have hbits : (messageBits m).length = (messageBits e).length := by
    rw [length_messageBits, length_messageBits, h]
  have hlinear := remainder_xor crcPoly hbits (BitVec.allOnes 32) 0#32
  rw [BitVec.xor_zero, ← messageBits_xor h] at hlinear
  rw [crc32_eq_bitwise, crc32_eq_bitwise, bitwiseCrc32, bitwiseCrc32, hlinear]
  change _ ^^^ _ ^^^ _ = _ ^^^ _ ^^^ _
  ac_rfl

/-- The table gives the CRC bit by bit, and errors within 32 consecutive bits change
the checksum. -/
theorem crc32_division :
    (∀ data : Bytes, crc32 data = bitwiseCrc32 data) ∧
      ∀ (m e : Bytes) (a : Nat), e.length = m.length → true ∈ messageBits e →
        (∀ i, (messageBits e)[i]? = some true → a ≤ i ∧ i < a + 32) →
        crc32 (List.zipWith (· ^^^ ·) m e) ≠ crc32 m := by
  refine ⟨crc32_eq_bitwise, fun m e a hlen herror hburst h => ?_⟩
  have hzero : remainder crcPoly 0#32 (messageBits e) = 0#32 := by
    have hdiff := crc32_xor hlen
    rw [h] at hdiff
    simpa using (congrArg ((crc32 m).toBitVec ^^^ ·) hdiff).symm
  exact remainder_burst (by decide) herror hburst hzero

/-- The longest burst, from the last bit of the second byte on. -/
theorem crc32_division_longest :
    crc32 [1, 2 ^^^ 0x80, 3 ^^^ 0xFF, 4 ^^^ 0xFF, 5 ^^^ 0xFF, 6 ^^^ 0x7F] ≠
      crc32 [1, 2, 3, 4, 5, 6] := by
  refine crc32_division.2 [1, 2, 3, 4, 5, 6] [0, 0x80, 0xFF, 0xFF, 0xFF, 0x7F] 15 rfl (by decide) ?_
  have hwithin : ∀ i < 48, (messageBits [0, 0x80, 0xFF, 0xFF, 0xFF, 0x7F])[i]? = some true →
      15 ≤ i ∧ i < 15 + 32 := by decide
  intro i hi
  exact hwithin i (List.getElem?_eq_some_iff.mp hi).1 hi

end Stice.Crypto
