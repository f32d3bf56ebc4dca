import Stice.Stun.Layout

/-! `encode` followed by `decode`: the attribute list comes back with the
attributes `encode` adds around it, and both checks accept the bytes. -/
namespace Stice.Stun
open Crypto

variable (m : Message) (len : UInt16) (password : Option Bytes) (creds : Option Credentials)
  (as : List Attribute) (software : Option Bytes)

/-! ## What `encode` lays out -/

def nonEmptyAttribute (type : AttrType) (value : Bytes) : List Attribute :=
  if value.isEmpty then [] else [⟨type, value⟩]

def credentialAttributes (cls : Class) (password : Option Bytes) (creds : Option Credentials) :
    List Attribute :=
  match creds, password with
  | some c, some _ =>
      if cls = .indication then []
      else nonEmptyAttribute .username c.username ++ nonEmptyAttribute .realm c.realm ++
        nonEmptyAttribute .nonce c.nonce
  | _, _ => []

def softwareAttributes (software : Option Bytes) : List Attribute :=
  match software with
  | some s => nonEmptyAttribute .software s
  | none => []

/-- What stands before MESSAGE-INTEGRITY. -/
def Message.coveredAttributes (m : Message) (password : Option Bytes) (creds : Option Credentials)
    (software : Option Bytes) : List Attribute :=
  credentialAttributes m.cls password creds ++ m.attributes ++ softwareAttributes software

/-- MESSAGE-INTEGRITY over the attributes `as`. -/
def Message.integrityOver (m : Message) (key : Bytes) (as : List Attribute) : Attribute :=
  ⟨.messageIntegrity, hmacSha1 key (wire (encodeType m.method m.cls)
    (UInt16.ofNat ((tlvs as).length + 24)) m.transactionID as)⟩

def Message.integrityAttributes (m : Message) (password : Option Bytes)
    (creds : Option Credentials) (as : List Attribute) : List Attribute :=
  match password with
  | some p => if m.cls = .indication then [] else [m.integrityOver (integrityKey p creds) as]
  | none => []

/-- FINGERPRINT over the attributes `as`. -/
def Message.fingerprintOver (m : Message) (as : List Attribute) : Attribute :=
  ⟨.fingerprint, be32 (crc32 (wire (encodeType m.method m.cls)
    (UInt16.ofNat ((tlvs as).length + 8)) m.transactionID as) ^^^ fingerprintXor)⟩

def Message.signedAttributes (m : Message) (password : Option Bytes) (creds : Option Credentials)
    (software : Option Bytes) : List Attribute :=
  m.coveredAttributes password creds software ++
    m.integrityAttributes password creds (m.coveredAttributes password creds software)

def Message.encodedAttributes (m : Message) (password : Option Bytes) (creds : Option Credentials)
    (software : Option Bytes) : List Attribute :=
  m.signedAttributes password creds software ++
    [m.fingerprintOver (m.signedAttributes password creds software)]

section Encode
variable (type len : UInt16) (tid : TransactionID) (as : List Attribute)

theorem appendNonEmpty_wire (t : AttrType) (v : Bytes) :
    appendNonEmpty (wire type len tid as) t v =
      wire type len tid (as ++ nonEmptyAttribute t v) := by
  unfold appendNonEmpty nonEmptyAttribute
  split
  · rw [List.append_nil]
  · exact appendAttr_wire type len tid as t v

theorem appendCredentials_wire (cls : Class) (password : Option Bytes)
    (creds : Option Credentials) :
    appendCredentials (wire type len tid as) cls password creds =
      wire type len tid (as ++ credentialAttributes cls password creds) := by
  cases creds with
  | none => simp [appendCredentials, credentialAttributes]
  | some c =>
    cases password with
    | none => simp [appendCredentials, credentialAttributes]
    | some p =>
      simp only [appendCredentials, credentialAttributes]
      split
      · rw [List.append_nil]
      · simp only [appendNonEmpty_wire, List.append_assoc]

theorem foldl_appendAttr_wire (bs : List Attribute) :
    bs.foldl (fun raw a => appendAttr raw a.type a.value) (wire type len tid as) =
      wire type len tid (as ++ bs) := by
  induction bs generalizing as with
  | nil => rw [List.append_nil, List.foldl_nil]
  | cons b bs ih =>
    rw [List.foldl_cons, appendAttr_wire, ih, List.append_assoc]
    rfl

theorem appendSoftware_wire (software : Option Bytes) :
    appendSoftware (wire type len tid as) software =
      wire type len tid (as ++ softwareAttributes software) := by
  cases software with
  | none => simp [appendSoftware, softwareAttributes]
  | some s => exact appendNonEmpty_wire type len tid as .software s

theorem length_tlv_integrityOver (m : Message) (key : Bytes) :
    (tlv (m.integrityOver key as)).length = 24 := by
  rw [length_tlv, Message.integrityOver, length_hmacSha1]
  rfl

theorem length_tlv_fingerprintOver (m : Message) : (tlv (m.fingerprintOver as)).length = 8 := by
  rw [length_tlv, Message.fingerprintOver, length_be32]
  rfl

end Encode

theorem appendIntegrity_wire (key : Bytes) (as : List Attribute) :
    ∃ len', appendIntegrity (wire (encodeType m.method m.cls) len m.transactionID as) key =
      wire (encodeType m.method m.cls) len' m.transactionID (as ++ [m.integrityOver key as]) := by
  refine ⟨UInt16.ofNat ((tlvs as).length + 24), ?_⟩
  simp only [appendIntegrity, length_wire, messageHeaderSize, Nat.add_sub_cancel_left,
    writeU16Be_wire, attributeHeaderSize, hmacSha1Size, Nat.add_assoc, Nat.reduceAdd]
  generalize hw : wire _ _ _ as = w
  rw [show wire _ _ _ (as ++ _) = w ++ tlv (m.integrityOver key as) by simp [← hw, wire],
    tlv_eq, Message.integrityOver, length_hmacSha1, hw]
  simp [paddedSize]

theorem appendFingerprint_wire :
    ∃ len', appendFingerprint (wire (encodeType m.method m.cls) len m.transactionID as) =
      wire (encodeType m.method m.cls) len' m.transactionID (as ++ [m.fingerprintOver as]) := by
  refine ⟨UInt16.ofNat ((tlvs as).length + 8), ?_⟩
  simp only [appendFingerprint, length_wire, messageHeaderSize, Nat.add_sub_cancel_left,
    writeU16Be_wire, attributeHeaderSize, Nat.add_assoc, Nat.reduceAdd]
  generalize hw : wire _ _ _ as = w
  rw [show wire _ _ _ (as ++ _) = w ++ tlv (m.fingerprintOver as) by simp [← hw, wire],
    tlv_eq, Message.fingerprintOver, length_be32, hw]
  simp [paddedSize]

theorem sign_wire :
    ∃ len', sign (wire (encodeType m.method m.cls) len m.transactionID as) m.cls password creds =
      wire (encodeType m.method m.cls) len' m.transactionID
        (as ++ m.integrityAttributes password creds as) := by
  cases password with
  | none => exact ⟨len, by simp [sign, Message.integrityAttributes]⟩
  | some p =>
    simp only [sign, Message.integrityAttributes]
    split
    · exact ⟨len, by rw [List.append_nil]⟩
    · exact appendIntegrity_wire m len (integrityKey p creds) as

theorem encode_raw :
    (m.encode password creds software).raw = wire (encodeType m.method m.cls)
      (UInt16.ofNat (tlvs (m.encodedAttributes password creds software)).length)
      m.transactionID (m.encodedAttributes password creds software) := by
  have hheader : header (encodeType m.method m.cls) 0 m.transactionID =
      wire (encodeType m.method m.cls) 0 m.transactionID [] := by simp [wire]
  obtain ⟨len, hlen⟩ := sign_wire m 0 password creds (m.coveredAttributes password creds software)
  obtain ⟨len', hlen'⟩ := appendFingerprint_wire m len (m.signedAttributes password creds software)
  simp only [Message.encode, hheader, appendCredentials_wire, foldl_appendAttr_wire,
    appendSoftware_wire, List.nil_append]
  rw [Message.coveredAttributes] at hlen
  rw [Message.signedAttributes, Message.coveredAttributes] at hlen'
  rw [hlen, hlen', writeU16Be_wire, length_wire, messageHeaderSize, Nat.add_sub_cancel_left]
  rfl

/-! ## Both checks accept -/

theorem coveredPrefix_wire (type len : UInt16) (tid : TransactionID) (as bs : List Attribute)
    (extra : Nat) :
    coveredPrefix (wire type len tid (as ++ bs)) (20 + (tlvs as).length) extra =
      wire type (UInt16.ofNat ((tlvs as).length + (4 + extra))) tid as := by
  have htake : (wire type len tid (as ++ bs)).take (20 + (tlvs as).length) =
      wire type len tid as := by
    rw [wire, tlvs_append, ← List.append_assoc, List.take_left']
    · rfl
    · simp
  rw [coveredPrefix, htake, writeU16Be_wire, messageHeaderSize, attributeHeaderSize,
    Nat.add_sub_cancel_left, Nat.add_assoc]

theorem drop_wire_after (type len : UInt16) (tid : TransactionID) (as : List Attribute)
    (a : Attribute) (bs : List Attribute) :
    (wire type len tid (as ++ a :: bs)).drop (20 + (tlvs as).length) = tlv a ++ tlvs bs := by
  rw [wire, tlvs_append, ← List.append_assoc, List.drop_left']
  · rfl
  · simp

theorem checkIntegrity_wire (m d : Message) (key : Bytes) (as bs : List Attribute)
    (hraw : d.raw = wire (encodeType m.method m.cls)
      (UInt16.ofNat (tlvs (as ++ m.integrityOver key as :: bs)).length) m.transactionID
      (as ++ m.integrityOver key as :: bs))
    (hlen : (tlvs (as ++ m.integrityOver key as :: bs)).length < 65536)
    (has : ∀ a ∈ as, a.type ≠ .messageIntegrity) : d.checkIntegrity key false = true := by
  have hmi := length_tlv_integrityOver as m key
  have hsplit : (tlvs (as ++ m.integrityOver key as :: bs)).length =
      (tlvs as).length + (24 + (tlvs bs).length) := by simp [hmi]
  have hcount := length_le_length_tlvs as
  have hfits : Fits (as ++ [m.integrityOver key as]) := by
    apply fits_of_length
    simp only [tlvs_append, tlvs_cons, tlvs_nil, List.length_append, hmi, List.length_nil]
    omega
  have hfound : d.findIntegrityOffset = some (20 + (tlvs as).length) := by
    simp only [Message.findIntegrityOffset, Message.stop, hraw, readU16Be_wire_length, length_wire,
      UInt16.toNat_ofNat', Nat.reducePow, Nat.mod_eq_of_lt hlen]
    apply @integrityWalk_layout _ [] messageHeaderSize _ _ as bs (m.integrityOver key as)
    · rw [drop_wire, List.append_nil]
    · exact hfits
    · exact has
    · rfl
    · simp only [messageHeaderSize]
      omega
    · omega
  have hval : slice d.raw (20 + (tlvs as).length + 4) 20 = (m.integrityOver key as).value := by
    rw [hraw]
    exact (tlv_head (drop_wire_after _ _ _ as _ bs)
      (by rw [Message.integrityOver, length_hmacSha1]; omega)).2.2.1
  simp only [Message.checkIntegrity, hfound, attributeHeaderSize, hmacSha1Size, hval]
  rw [if_neg (by rw [hraw, length_wire]; omega), hraw, coveredPrefix_wire]
  simp [Message.integrityOver]

theorem checkFingerprint_wire (m d : Message) (as : List Attribute)
    (hraw : d.raw = wire (encodeType m.method m.cls)
      (UInt16.ofNat (tlvs (as ++ [m.fingerprintOver as])).length) m.transactionID
      (as ++ [m.fingerprintOver as]))
    (hlen : (tlvs (as ++ [m.fingerprintOver as])).length < 65536) :
    d.checkFingerprint false = true := by
  have hfp := length_tlv_fingerprintOver as m
  have hsplit : (tlvs (as ++ [m.fingerprintOver as])).length = (tlvs as).length + 8 := by
    simp [hfp]
  have hcount := length_le_length_tlvs as
  have hfound : fingerprintWalk d.raw d.stop d.raw.length messageHeaderSize 0 =
      20 + (tlvs as).length := by
    simp only [Message.stop, hraw, readU16Be_wire_length, length_wire,
      UInt16.toNat_ofNat', Nat.reducePow, Nat.mod_eq_of_lt hlen]
    apply @fingerprintWalk_layout _ [] messageHeaderSize _ _ 0 as (m.fingerprintOver as)
    · rw [drop_wire, List.append_nil]
    · exact fits_of_length hlen
    · rfl
    · rfl
    · omega
  have hval : readU32Be d.raw (20 + (tlvs as).length + 4) = crc32 (wire
      (encodeType m.method m.cls) (UInt16.ofNat ((tlvs as).length + 8)) m.transactionID as) ^^^
        fingerprintXor := by
    apply @readU32Be_of_drop _ _ _ []
    rw [hraw, ← List.drop_drop, drop_wire_after, tlvs_nil, List.append_nil, tlv_eq,
      Message.fingerprintOver, length_be32]
    simp [be16, paddedSize]
  simp only [Message.checkFingerprint, hfound, attributeHeaderSize, hval]
  rw [if_neg (by omega), if_neg (by rw [hraw, length_wire]; omega), hraw, coveredPrefix_wire]
  simp

/-! ## Round trip -/

theorem mem_nonEmptyAttribute {t : AttrType} {v : Bytes} {a : Attribute}
    (h : a ∈ nonEmptyAttribute t v) : a.type = t := by
  unfold nonEmptyAttribute at h
  split at h
  · simp at h
  · rw [List.mem_singleton.mp h]

theorem credentialAttributes_type {cls : Class} {password : Option Bytes}
    {creds : Option Credentials} {a : Attribute} (h : a ∈ credentialAttributes cls password creds) :
    a.type = .username ∨ a.type = .realm ∨ a.type = .nonce := by
  unfold credentialAttributes at h
  split at h
  · split at h
    · simp at h
    · simp only [List.mem_append] at h
      rcases h with (h | h) | h
      · exact .inl (mem_nonEmptyAttribute h)
      · exact .inr (.inl (mem_nonEmptyAttribute h))
      · exact .inr (.inr (mem_nonEmptyAttribute h))
  · simp at h

theorem softwareAttributes_type {software : Option Bytes} {a : Attribute}
    (h : a ∈ softwareAttributes software) : a.type = .software := by
  cases software with
  | none => simp [softwareAttributes] at h
  | some s => exact mem_nonEmptyAttribute h

/-- `encode` puts no second MESSAGE-INTEGRITY before its own. -/
theorem coveredAttributes_type {m : Message} (password : Option Bytes) (creds : Option Credentials)
    (software : Option Bytes) (h : ∀ a ∈ m.attributes, a.type ≠ .messageIntegrity) :
    ∀ a ∈ m.coveredAttributes password creds software, a.type ≠ .messageIntegrity := by
  intro a ha
  simp only [Message.coveredAttributes, List.mem_append] at ha
  rcases ha with (ha | ha) | ha
  · rcases credentialAttributes_type ha with hT | hT | hT <;> rw [hT] <;> decide
  · exact h a ha
  · rw [softwareAttributes_type ha]
    decide

theorem decode_raw (hmethod : m.method.toNat < 4096)
    (hbody : (tlvs (m.encodedAttributes password creds software)).length < 65536) :
    decode (m.encode password creds software).raw =
      some ⟨m.method, m.cls, m.transactionID, m.encodedAttributes password creds software,
        (m.encode password creds software).raw⟩ := by
  rw [encode_raw, decode_wire m.transactionID (encodeType_lt m.method m.cls) hbody,
    decodeType_encodeType m.method m.cls hmethod]

/-- The integrity of a message with the bytes `encode` wrote. -/
theorem checkIntegrity_raw (m d : Message) (p : Bytes) (creds : Option Credentials)
    (software : Option Bytes) (hcls : m.cls ≠ .indication)
    (hattrs : ∀ a ∈ m.attributes, a.type ≠ .messageIntegrity)
    (hbody : (tlvs (m.encodedAttributes (some p) creds software)).length < 65536)
    (hraw : d.raw = (m.encode (some p) creds software).raw) :
    d.checkIntegrity (integrityKey p creds) false = true := by
  have hsigned : m.encodedAttributes (some p) creds software =
      m.coveredAttributes (some p) creds software ++
        m.integrityOver (integrityKey p creds) (m.coveredAttributes (some p) creds software) ::
          [m.fingerprintOver (m.signedAttributes (some p) creds software)] := by
    simp [Message.encodedAttributes, Message.signedAttributes, Message.integrityAttributes, hcls]
  rw [encode_raw, hsigned] at hraw
  rw [hsigned] at hbody
  exact checkIntegrity_wire m d _ _ _ hraw hbody
    (coveredAttributes_type (some p) creds software hattrs)

/-- Decoding what `encode` wrote returns the message with the attributes
`encode` adds, and both checks accept it. -/
theorem decode_encode (m : Message) (password : Option Bytes) (creds : Option Credentials)
    (software : Option Bytes) (hmethod : m.method.toNat < 4096)
    (hattrs : ∀ a ∈ m.attributes, a.type ≠ .messageIntegrity)
    (hbody : (m.encode password creds software).raw.length - messageHeaderSize < 65536) :
    ∃ d hmac fp, decode (m.encode password creds software).raw = some d ∧
      d.method = m.method ∧ d.cls = m.cls ∧ d.transactionID = m.transactionID ∧
      d.attributes =
        (if creds.isSome ∧ password.isSome ∧ m.cls ≠ .indication then
          nonEmptyAttribute .username (creds.elim [] Credentials.username) ++
          nonEmptyAttribute .realm (creds.elim [] Credentials.realm) ++
          nonEmptyAttribute .nonce (creds.elim [] Credentials.nonce)
        else []) ++
        m.attributes ++
        nonEmptyAttribute .software (software.getD []) ++
        (if password.isSome ∧ m.cls ≠ .indication then [⟨.messageIntegrity, hmac⟩] else []) ++
        [⟨.fingerprint, fp⟩] ∧
      d.checkFingerprint false = true ∧
      (∀ p, password = some p → m.cls ≠ .indication →
        d.checkIntegrity (integrityKey p creds) false = true) := by
  rw [encode_raw, length_wire, messageHeaderSize, Nat.add_sub_cancel_left] at hbody
  refine ⟨_, ((m.integrityAttributes password creds
    (m.coveredAttributes password creds software)).head?.elim [] Attribute.value),
    (m.fingerprintOver (m.signedAttributes password creds software)).value,
    decode_raw m password creds software hmethod hbody, rfl, rfl, rfl, ?_, ?_, ?_⟩
  · simp only [Message.encodedAttributes, Message.signedAttributes, Message.coveredAttributes]
    congr 1
    congr 1
    · congr 1
      · congr 1
        cases creds <;> cases password <;> simp [credentialAttributes]
      · cases software <;> rfl
    · cases password with
      | none => rfl
      | some p => by_cases hc : m.cls = .indication <;> simp [Message.integrityAttributes, hc,
          Message.integrityOver]
  · exact checkFingerprint_wire m _ (m.signedAttributes password creds software)
      (encode_raw m password creds software) hbody
  · rintro p rfl hc
    exact checkIntegrity_raw m _ p creds software hc hattrs hbody rfl

/-- A signed REFRESH with credentials without a realm. -/
theorem decode_encode_refresh :
    let m : Message := ⟨Method.refresh, .request, ⟨List.replicate 12 7, rfl⟩,
      [⟨.lifetime, [0, 0, 2, 88]⟩], []⟩
    let creds : Credentials := ⟨[117], [], [110, 111], [5, 5]⟩
    ∃ d hmac fp, decode (m.encode (some [112]) (some creds) (some [115])).raw = some d ∧
      d.attributes = [⟨.username, [117]⟩, ⟨.nonce, [110, 111]⟩, ⟨.lifetime, [0, 0, 2, 88]⟩,
        ⟨.software, [115]⟩, ⟨.messageIntegrity, hmac⟩, ⟨.fingerprint, fp⟩] ∧
      d.checkIntegrity [5, 5] false = true := by
  intro m creds
  obtain ⟨d, hmac, fp, hd, -, -, -, has, -, hi⟩ := decode_encode m (some [112]) (some creds)
    (some [115]) (by decide) (by decide) (by decide +kernel)
  exact ⟨d, hmac, fp, hd, has, hi [112] rfl (by decide)⟩

end Stice.Stun
