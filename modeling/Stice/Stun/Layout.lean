import Stice.Stun.Message

/-! The wire layout of a STUN message: a header and the attributes laid end to
end. `encode` produces this layout, and each of the three walks over the raw
bytes recovers from it what was laid out. -/
namespace Stice.Stun
open Crypto

variable (m : Method) (c : Class) (a : Attribute) {raw rest : Bytes} (type len : UInt16)
  (tid : TransactionID) (as : List Attribute)

/-! ## The type field -/

theorem Class.ofCode_code : Class.ofCode c.code = c := by
  cases c <;> rfl

/-- The bits of the type field, from the lowest: four of the method, C0, three of
the method, C1, five of the method. -/
theorem encodeType_toNat :
    ∃ a b d c0 c1, a < 16 ∧ b < 8 ∧ d < 32 ∧ c0 < 2 ∧ c1 < 2 ∧
      m.toNat % 4096 = a + b * 16 + d * 128 ∧ c.code.toNat = c0 + c1 * 2 ∧
      (encodeType m c).toNat = a + c0 * 16 + b * 32 + c1 * 256 + d * 512 := by
  refine ⟨m.toNat % 16, m.toNat / 16 % 8, m.toNat / 128 % 32, c.code.toNat % 2, c.code.toNat / 2,
    by omega, by omega, by omega, by omega, by cases c <;> decide, by omega, by omega, ?_⟩
  have ha : m.toNat &&& 15 = m.toNat % 16 := by simpa using and_mask m.toNat 4 0
  have hb : m.toNat &&& 112 = m.toNat / 16 % 8 * 16 := by simpa using and_mask m.toNat 3 4
  have hd : m.toNat &&& 3968 = m.toNat / 128 % 32 * 128 := by simpa using and_mask m.toNat 5 7
  have hbits : (encodeType m c).toNat = (m.toNat % 16 + m.toNat / 16 % 8 * 32 +
      m.toNat / 128 % 32 * 512 + c.code.toNat % 2 * 16 + c.code.toNat / 2 * 256) % 65536 := by
    cases c <;>
      simp [encodeType, Class.code, UInt16.toNat_add, UInt16.toNat_and, UInt16.toNat_shiftLeft,
        Nat.shiftLeft_eq, ha, hb, hd, Nat.mul_assoc]
  have hc : c.code.toNat / 2 ≤ 1 := by cases c <;> decide
  rw [hbits, Nat.mod_eq_of_lt (by omega)]
  omega

theorem decodeType_encodeType (h : m.toNat < 4096) : decodeType (encodeType m c) = (m, c) := by
  obtain ⟨a, b, d, c0, c1, ha, hb, hd, hc0, hc1, hm, hc, ht⟩ := encodeType_toNat m c
  rw [Nat.mod_eq_of_lt h] at hm
  generalize encodeType m c = t at ht
  have hA : t.toNat &&& 15 = a := by
    rw [show 15 = (2 ^ 4 - 1) * 2 ^ 0 from rfl, and_mask]
    omega
  have hB : t.toNat / 2 &&& 112 = b * 16 := by
    rw [show 112 = (2 ^ 3 - 1) * 2 ^ 4 from rfl, and_mask, Nat.div_div_eq_div_mul]
    omega
  have hD : t.toNat / 4 &&& 3968 = d * 128 := by
    rw [show 3968 = (2 ^ 5 - 1) * 2 ^ 7 from rfl, and_mask, Nat.div_div_eq_div_mul,
      show t.toNat / (4 * 2 ^ 7) = d by omega]
    omega
  have hC0 : t.toNat / 16 &&& 1 = c0 := by
    rw [show 1 = (2 ^ 1 - 1) * 2 ^ 0 from rfl, and_mask, Nat.div_div_eq_div_mul]
    omega
  have hC1 : t.toNat / 128 &&& 2 = c1 * 2 := by
    rw [show 2 = (2 ^ 1 - 1) * 2 ^ 1 from rfl, and_mask, Nat.div_div_eq_div_mul]
    omega
  have hmethod : (decodeType t).1 = m := by
    have hab : a ||| b * 16 = b * 16 + a := by
      rw [Nat.or_comm]
      exact or_eq_add 4 (by omega) (by omega)
    have habd : b * 16 + a ||| d * 128 = d * 128 + (b * 16 + a) := by
      rw [Nat.or_comm]
      exact or_eq_add 7 (by omega) (by omega)
    apply UInt16.toNat_inj.mp
    simp [decodeType, Nat.shiftRight_eq_div_pow, hA, hB, hD, hm, hab, habd]
    omega
  have hcls : ((t >>> 4) &&& (1 : UInt16)) ||| ((t >>> 7) &&& (2 : UInt16)) = c.code := by
    have hcc : c0 ||| c1 * 2 = c1 * 2 + c0 := by
      rw [Nat.or_comm]
      exact or_eq_add 1 (by omega) (by omega)
    apply UInt16.toNat_inj.mp
    simp [Nat.shiftRight_eq_div_pow, hC0, hC1, hc, hcc]
    omega
  rw [Prod.ext_iff]
  refine ⟨hmethod, ?_⟩
  simp only [decodeType, hcls, Class.ofCode_code]

/-- The first byte of a message is below 64, whatever its method. -/
theorem encodeType_lt : (encodeType m c).toNat < 16384 := by
  obtain ⟨a, b, d, c0, c1, ha, hb, hd, hc0, hc1, -, -, ht⟩ := encodeType_toNat m c
  omega

/-! ## Layout -/

/-- An attribute on the wire: type, length, value and zero padding. -/
def tlv (a : Attribute) : Bytes := appendAttr [] a.type a.value

def tlvs (as : List Attribute) : Bytes := as.flatMap tlv

def wire (type len : UInt16) (tid : TransactionID) (as : List Attribute) : Bytes :=
  header type len tid ++ tlvs as

@[simp] theorem tlvs_nil : tlvs [] = [] := rfl

@[simp] theorem tlvs_cons : tlvs (a :: as) = tlv a ++ tlvs as := rfl

@[simp] theorem tlvs_append (as bs : List Attribute) : tlvs (as ++ bs) = tlvs as ++ tlvs bs := by
  simp [tlvs]

theorem tlv_eq : tlv a = be16 a.type ++ (be16 (UInt16.ofNat a.value.length) ++
    (a.value ++ List.replicate (paddedSize a.value.length - a.value.length) 0)) := by
  simp [tlv, appendAttr]

@[simp] theorem length_tlv : (tlv a).length = 4 + paddedSize a.value.length := by
  have := le_paddedSize a.value.length
  simp only [tlv_eq, List.length_append, length_be16, List.length_replicate]
  omega

@[simp] theorem length_header : (header type len tid).length = 20 := by
  simp [header, tid.2]

@[simp] theorem length_wire : (wire type len tid as).length = 20 + (tlvs as).length := by
  simp [wire]

theorem length_tlvs_mod : (tlvs as).length % 4 = 0 := by
  induction as with
  | nil => rfl
  | cons a as ih =>
    simp only [tlvs_cons, List.length_append, length_tlv, paddedSize]
    omega

theorem length_le_length_tlvs : as.length ≤ (tlvs as).length := by
  induction as with
  | nil => exact Nat.le_refl 0
  | cons a as ih =>
    simp only [List.length_cons, tlvs_cons, List.length_append, length_tlv]
    omega

theorem drop_wire : (wire type len tid as).drop messageHeaderSize = tlvs as := by
  rw [wire, List.drop_left']
  exact length_header type len tid

theorem appendAttr_wire (t : AttrType) (v : Bytes) :
    appendAttr (wire type len tid as) t v = wire type len tid (as ++ [⟨t, v⟩]) := by
  simp [wire, appendAttr, tlv]

/-- Patching the length field touches nothing else. -/
theorem writeU16Be_wire (type len len' : UInt16) (tid : TransactionID) (as : List Attribute) :
    writeU16Be (wire type len tid as) 2 len' = wire type len' tid as := by
  simp [writeU16Be, writeAt, wire, header, be16]

/-! ## Walking a layout

A walk at offset `off` reads `tlvs as`: each lemma below is an induction on
`as`, one attribute per step. -/

/-- Every value fits its 16-bit length field. -/
def Fits (as : List Attribute) : Prop := ∀ a ∈ as, a.value.length < 65536

theorem Fits.tail {a : Attribute} {as : List Attribute} (h : Fits (a :: as)) : Fits as :=
  fun b hb => h b (List.mem_cons_of_mem a hb)

theorem fits_of_length {as : List Attribute} (h : (tlvs as).length < 65536) : Fits as := by
  induction as with
  | nil => simp [Fits]
  | cons a as ih =>
    simp only [tlvs_cons, List.length_append, length_tlv] at h
    have ha := le_paddedSize a.value.length
    intro b hb
    rcases List.mem_cons.mp hb with rfl | hb
    · omega
    · exact ih (by omega) b hb

theorem tlv_head {off : Nat} {a : Attribute}
    (h : raw.drop off = tlv a ++ rest) (ha : a.value.length < 65536) :
    readU16Be raw off = a.type ∧ (readU16Be raw (off + 2)).toNat = a.value.length ∧
      slice raw (off + 4) a.value.length = a.value ∧
      raw.drop (off + (4 + paddedSize a.value.length)) = rest := by
  have hlen := length_tlv a
  have hrest : raw.drop (off + (4 + paddedSize a.value.length)) = rest := by
    rw [← List.drop_drop, h, ← hlen]
    exact List.drop_left
  rw [tlv_eq] at h
  simp only [List.append_assoc] at h
  have h2 : raw.drop (off + 2) = be16 (UInt16.ofNat a.value.length) ++ (a.value ++
      (List.replicate (paddedSize a.value.length - a.value.length) 0 ++ rest)) := by
    rw [← List.drop_drop, h]
    rfl
  have h4 : raw.drop (off + 4) = a.value ++
      (List.replicate (paddedSize a.value.length - a.value.length) 0 ++ rest) := by
    rw [show off + 4 = off + 2 + 2 from rfl, ← List.drop_drop, h2]
    rfl
  refine ⟨readU16Be_of_drop h, ?_, slice_of_drop h4, hrest⟩
  rw [readU16Be_of_drop h2]
  simp only [UInt16.toNat_ofNat']
  omega

theorem decodeAttrs_layout {off stop fuel : Nat} {as : List Attribute}
    (h : raw.drop off = tlvs as ++ rest) (hfits : Fits as) (hstop : off + (tlvs as).length = stop)
    (hfuel : as.length ≤ fuel) : decodeAttrs raw stop fuel off = some as := by
  induction as generalizing off fuel with
  | nil =>
    simp only [tlvs_nil, List.length_nil] at hstop
    cases fuel with
    | zero => rfl
    | succ fuel => simp [decodeAttrs, attributeHeaderSize, ← hstop]
  | cons a as ih =>
    obtain ⟨fuel, rfl⟩ : ∃ n, fuel = n + 1 := ⟨fuel - 1, by simp at hfuel; omega⟩
    simp only [tlvs_cons, List.append_assoc] at h
    obtain ⟨htype, hlen, hvalue, hnext⟩ := tlv_head h (hfits a (by simp))
    simp only [tlvs_cons, List.length_append, length_tlv] at hstop
    have hle := le_paddedSize a.value.length
    have hih := ih hnext hfits.tail (by omega)
      (by simpa using hfuel)
    rw [← Nat.add_assoc] at hih
    simp only [decodeAttrs, attributeHeaderSize, htype, hlen, hvalue, hih]
    rw [if_pos (by omega), if_neg (by omega)]
    rfl

/-- The integrity walk stops at the first MESSAGE-INTEGRITY. -/
theorem integrityWalk_layout {off stop fuel : Nat} {pre post : List Attribute} {mi : Attribute}
    (h : raw.drop off = tlvs (pre ++ mi :: post) ++ rest) (hfits : Fits (pre ++ [mi]))
    (hpre : ∀ a ∈ pre, a.type ≠ .messageIntegrity) (hmi : mi.type = .messageIntegrity)
    (hstop : off + (tlvs pre).length + 4 ≤ stop) (hfuel : pre.length < fuel) :
    integrityWalk raw stop fuel off = some (off + (tlvs pre).length) := by
  induction pre generalizing off fuel with
  | nil =>
    obtain ⟨fuel, rfl⟩ : ∃ n, fuel = n + 1 := ⟨fuel - 1, by simp at hfuel; omega⟩
    simp only [List.nil_append, tlvs_cons, List.append_assoc] at h
    obtain ⟨htype, -⟩ := tlv_head h (hfits mi (by simp))
    simp only [tlvs_nil, List.length_nil, Nat.add_zero] at hstop
    simp [integrityWalk, attributeHeaderSize, htype, hmi, hstop]
  | cons a pre ih =>
    obtain ⟨fuel, rfl⟩ : ∃ n, fuel = n + 1 := ⟨fuel - 1, by simp at hfuel; omega⟩
    simp only [List.cons_append, tlvs_cons, List.append_assoc] at h
    obtain ⟨htype, hlen, -, hnext⟩ := tlv_head h (hfits a (by simp))
    simp only [tlvs_cons, List.length_append, length_tlv] at hstop
    have hih := ih hnext hfits.tail
      (fun b hb => hpre b (by simp [hb])) (by omega) (by simpa using hfuel)
    simp only [integrityWalk, attributeHeaderSize, htype, hlen, hih]
    rw [if_pos (by omega), if_neg (hpre a (by simp))]
    simp only [tlvs_cons, List.length_append, length_tlv, Nat.add_assoc]

/-- The fingerprint walk ends at a last FINGERPRINT. -/
theorem fingerprintWalk_layout {off stop fuel found : Nat}
    {pre : List Attribute} {fp : Attribute} (h : raw.drop off = tlvs (pre ++ [fp]) ++ rest)
    (hfits : Fits (pre ++ [fp])) (hfp : fp.type = .fingerprint)
    (hstop : off + (tlvs (pre ++ [fp])).length = stop) (hfuel : pre.length < fuel) :
    fingerprintWalk raw stop fuel off found = off + (tlvs pre).length := by
  induction pre generalizing off fuel found with
  | nil =>
    obtain ⟨fuel, rfl⟩ : ∃ n, fuel = n + 1 := ⟨fuel - 1, by simp at hfuel; omega⟩
    simp only [List.nil_append, tlvs_cons, List.append_assoc] at h
    obtain ⟨htype, hlen, -⟩ := tlv_head h (hfits fp (by simp))
    simp only [List.nil_append, tlvs_cons, tlvs_nil, List.length_append, length_tlv,
      List.length_nil] at hstop
    simp only [fingerprintWalk, attributeHeaderSize, htype, hfp, hlen, ↓reduceIte]
    rw [if_pos (by omega)]
    cases fuel with
    | zero => rfl
    | succ fuel =>
      have hend : ¬ off + (4 + paddedSize fp.value.length) + 4 ≤ stop := by omega
      simp only [fingerprintWalk, attributeHeaderSize, hend, ↓reduceIte]
      rfl
  | cons a pre ih =>
    obtain ⟨fuel, rfl⟩ : ∃ n, fuel = n + 1 := ⟨fuel - 1, by simp at hfuel; omega⟩
    simp only [List.cons_append, tlvs_cons, List.append_assoc] at h
    obtain ⟨htype, hlen, -, hnext⟩ := tlv_head h (hfits a (by simp))
    simp only [List.cons_append, tlvs_cons, List.length_append, length_tlv] at hstop
    simp only [fingerprintWalk, attributeHeaderSize, htype, hlen]
    rw [if_pos (by omega), ih hnext hfits.tail (by omega)
      (by simpa using hfuel)]
    simp only [tlvs_cons, List.length_append, length_tlv, Nat.add_assoc]

/-! ## The header -/

theorem drop_two_wire :
    (wire type len tid as).drop 2 = be16 len ++ (be32 magicCookie ++ tid.1 ++ tlvs as) := by
  simp [wire, header, be16]

theorem readU16Be_wire_type : readU16Be (wire type len tid as) 0 = type := by
  apply readU16Be_of_drop
  rw [List.drop_zero, wire, header]
  simp only [List.append_assoc]
  rfl

theorem readU16Be_wire_length : readU16Be (wire type len tid as) 2 = len :=
  readU16Be_of_drop (drop_two_wire type len tid as)

theorem readU32Be_wire_cookie : readU32Be (wire type len tid as) 4 = magicCookie := by
  apply readU32Be_of_drop
  rw [show 4 = 2 + 2 from rfl, ← List.drop_drop, drop_two_wire]
  simp only [List.append_assoc]
  rfl

theorem tidAt_of_drop {off : Nat} {tid : TransactionID}
    (h : raw.drop off = tid.1 ++ rest) : tidAt raw off = tid := by
  apply Subtype.ext
  apply List.ext_getElem
  · simp [tidAt, tid.2]
  · intro i hi hi'
    have hb := byteAt_drop raw off i
    rw [h, byteAt, List.getD_eq_getElem?_getD, List.getElem?_append_left hi'] at hb
    simp [tidAt, ← hb, hi']

theorem tidAt_wire : tidAt (wire type len tid as) 8 = tid := by
  apply @tidAt_of_drop _ (tlvs as)
  rw [show 8 = 2 + 6 from rfl, ← List.drop_drop, drop_two_wire]
  simp [be16, be32]

theorem top_bits_zero (t : UInt16) (h : t.toNat < 16384) : (t >>> 8).toUInt8 &&& 0xC0 = 0 := by
  have hmask := and_mask (t.toNat / 256 % 256) 2 6
  simp only [Nat.reducePow, Nat.add_one_sub_one, Nat.reduceMul] at hmask
  apply UInt8.toNat_inj.mp
  simp [Nat.shiftRight_eq_div_pow, hmask]
  omega

theorem isMessage_wire {type len : UInt16} (tid : TransactionID) {as : List Attribute}
    (htype : type.toNat < 16384) (hmod : len.toNat % 4 = 0) (hle : len.toNat ≤ (tlvs as).length) :
    isMessage (wire type len tid as) = true := by
  have hbyte : byteAt (wire type len tid as) 0 &&& 0xC0 = 0 := top_bits_zero type htype
  simp [isMessage, hbyte, readU16Be_wire_length, readU32Be_wire_cookie, messageHeaderSize,
    hmod, hle]

/-- Decoding a layout whose length field may end it early. -/
theorem decode_wire_part {type len : UInt16} (tid : TransactionID) {as bs : List Attribute}
    (htype : type.toNat < 16384) (hmod : len.toNat % 4 = 0) (hle : len.toNat ≤ (tlvs as).length)
    (hattrs : decodeAttrs (wire type len tid as) (messageHeaderSize + len.toNat)
      (20 + (tlvs as).length) messageHeaderSize = some bs) :
    decode (wire type len tid as) =
      some ⟨(decodeType type).1, (decodeType type).2, tid, bs, wire type len tid as⟩ := by
  rw [decode, if_pos (isMessage_wire tid htype hmod hle)]
  simp only [readU16Be_wire_type, readU16Be_wire_length, tidAt_wire, length_wire, hattrs]
  rw [if_neg (by simp only [messageHeaderSize]; omega)]
  rfl

/-- Decoding a layout returns what was laid out. -/
theorem decode_wire {type : UInt16} (tid : TransactionID) {as : List Attribute}
    (htype : type.toNat < 16384) (hlen : (tlvs as).length < 65536) :
    decode (wire type (UInt16.ofNat (tlvs as).length) tid as) =
      some ⟨(decodeType type).1, (decodeType type).2, tid, as,
        wire type (UInt16.ofNat (tlvs as).length) tid as⟩ := by
  have hfield : (UInt16.ofNat (tlvs as).length).toNat = (tlvs as).length := by
    rw [UInt16.toNat_ofNat', Nat.mod_eq_of_lt hlen]
  have hfuel := length_le_length_tlvs as
  refine decode_wire_part tid htype ?_ (Nat.le_of_eq hfield) ?_
  · rw [hfield]
    exact length_tlvs_mod as
  · rw [hfield]
    apply @decodeAttrs_layout _ []
    · rw [drop_wire, List.append_nil]
    · exact fits_of_length hlen
    · rfl
    · omega

/-- Where the length field overflows to zero, no attribute is read. -/
theorem decode_wire_overflow {type : UInt16} (tid : TransactionID) (as : List Attribute)
    (htype : type.toNat < 16384) :
    decode (wire type 0 tid as) =
      some ⟨(decodeType type).1, (decodeType type).2, tid, [], wire type 0 tid as⟩ := by
  refine decode_wire_part tid htype rfl (Nat.zero_le _) ?_
  rw [Nat.add_comm 20, decodeAttrs, if_neg (by decide)]

end Stice.Stun
