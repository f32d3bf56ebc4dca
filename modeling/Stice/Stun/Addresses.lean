import Stice.Stun.Attributes
import Stice.Stun.RoundTrip

/-! Addresses over the wire: what `writeXorAddress` and `writeMappedAddress` put into a
message is what their readers find after `encode` and `decode`. -/
namespace Stice.Stun
open Net

/-- The address bytes in network order. -/
def octets : Ip → Bytes
  | .v4 b0 b1 b2 b3 => [b0, b1, b2, b3]
  | .v6 addr _ => addr.1

/-- Two records of one family, address and port. -/
def SameAddress (a b : AddrRecord) : Prop :=
  a.ip.family = b.ip.family ∧ octets a.ip = octets b.ip ∧ a.port = b.port

/-- A value that is too short for its family, or of an unknown one. -/
def Malformed (v : Bytes) : Prop :=
  byteAt v 1 = familyIPv4 ∧ v.length < 8 ∨ byteAt v 1 = familyIPv6 ∧ v.length < 20 ∨
    byteAt v 1 ≠ familyIPv4 ∧ byteAt v 1 ≠ familyIPv6

instance (v : Bytes) : Decidable (Malformed v) := inferInstanceAs (Decidable (_ ∨ _))

variable {m : Message} {type : AttrType} {a : AddrRecord} {v : Bytes}

theorem sameAddress_carried (a : AddrRecord) : SameAddress (carried a) a := by
  obtain ⟨ip, port, socktype⟩ := a
  cases ip <;> exact ⟨rfl, rfl, rfl⟩

theorem readMappedAddress_mappedValue (h : m.find .mappedAddress = some (mappedValue a)) :
    readMappedAddress m = some (carried a) := by
  obtain ⟨ip, port, socktype⟩ := a
  cases ip with
  | v4 b0 b1 b2 b3 =>
    obtain ⟨hfamily, hread, hbyte, hlen⟩ := addr_fields familyIPv4 port [b0, b1, b2, b3]
    simp only [readMappedAddress, h, mappedValue, Option.bind_some, hfamily, hread, hlen]
    rfl
  | v6 addr scope =>
    obtain ⟨hfamily, hread, hbyte, hlen⟩ := addr_fields familyIPv6 port addr.1
    have hbytes : (List.range 16).map (byteAt addr.1) = addr.1 := by
      refine List.ext_getElem (by simp [addr.2]) fun i _ hi => ?_
      simp [byteAt, hi]
    simp only [readMappedAddress, h, mappedValue, Option.bind_some, hfamily, hread, hbyte, hlen,
      addr.2]
    rw [if_neg (by decide), if_neg (by decide), if_pos trivial, if_neg (by decide)]
    simp only [carried, Option.some.injEq, AddrRecord.mk.injEq, Ip.v6.injEq, and_true]
    exact Subtype.ext hbytes

theorem decodeXorAddr_malformed (h : Malformed v) (tid : TransactionID) :
    decodeXorAddr v tid = none := by
  unfold decodeXorAddr
  rcases h with ⟨hfamily, hlen⟩ | ⟨hfamily, hlen⟩ | ⟨hv4, hv6⟩
  · simp [hfamily, hlen]
  · simp [hfamily, hlen, familyIPv4, familyIPv6]
  · simp [hv4, hv6]

theorem readMappedAddress_malformed (hm : m.find .mappedAddress = some v) (h : Malformed v) :
    readMappedAddress m = none := by
  unfold readMappedAddress
  rw [hm]
  rcases h with ⟨hfamily, hlen⟩ | ⟨hfamily, hlen⟩ | ⟨hv4, hv6⟩
  · simp [hfamily, hlen]
  · simp [hfamily, hlen, familyIPv4, familyIPv6]
  · simp [hv4, hv6]

/-- An attribute added last is found after the message went over the wire. -/
theorem find_encoded {password : Option Bytes} {creds : Option Credentials}
    {software : Option Bytes}
    (hother : ∀ b ∈ credentialAttributes m.cls password creds ++ m.attributes, b.type ≠ type)
    (hbody : ((m.addAttribute type v).encode password creds software).raw.length -
      messageHeaderSize < 65536) :
    ∃ d, decode ((m.addAttribute type v).encode password creds software).raw = some d ∧
      d.transactionID = m.transactionID ∧ d.find type = some v := by
  rw [encode_raw, length_wire, messageHeaderSize, Nat.add_sub_cancel_left] at hbody
  rw [encode_raw, decode_wire _ (encodeType_lt _ _) hbody]
  refine ⟨_, rfl, rfl, ?_⟩
  have hnone : (credentialAttributes m.cls password creds ++ m.attributes).find?
      (fun b => b.type = type) = none :=
    List.find?_eq_none.mpr fun b hb => by simpa using hother b hb
  have hattrs : (m.addAttribute type v).encodedAttributes password creds software =
      credentialAttributes m.cls password creds ++ m.attributes ++ ([⟨type, v⟩] ++
        (softwareAttributes software ++ (m.addAttribute type v).integrityAttributes password creds
          ((m.addAttribute type v).coveredAttributes password creds software) ++
        [(m.addAttribute type v).fingerprintOver
          ((m.addAttribute type v).signedAttributes password creds software)])) := by
    simp [Message.encodedAttributes, Message.signedAttributes, Message.coveredAttributes,
      Message.addAttribute]
  rw [Message.find, hattrs, List.find?_append, hnone]
  simp

/-- What was written is read after the message went over the wire, as long as its body
fits the length field; a malformed value is rejected. -/
theorem address_round_trip (m : Message) (a : AddrRecord) (password : Option Bytes)
    (creds : Option Credentials) (software : Option Bytes) :
    (∀ type, (∀ b ∈ credentialAttributes m.cls password creds ++ m.attributes, b.type ≠ type) →
      ((writeXorAddress m type a m.transactionID).encode password creds software).raw.length -
        messageHeaderSize < 65536 →
      ∃ d r, decode ((writeXorAddress m type a m.transactionID).encode password creds
          software).raw = some d ∧
        readXorAddress d type d.transactionID = some r ∧ SameAddress r a) ∧
    ((∀ b ∈ credentialAttributes m.cls password creds ++ m.attributes,
        b.type ≠ .mappedAddress) →
      ((writeMappedAddress m a).encode password creds software).raw.length -
        messageHeaderSize < 65536 →
      ∃ d r, decode ((writeMappedAddress m a).encode password creds software).raw = some d ∧
        readMappedAddress d = some r ∧ SameAddress r a) ∧
    ∀ v, Malformed v →
      (∀ type tid, m.find type = some v → readXorAddress m type tid = none) ∧
      (m.find .mappedAddress = some v → readMappedAddress m = none) := by
  refine ⟨fun type hother hbody => ?_, fun hother hbody => ?_, fun v hv => ⟨?_, ?_⟩⟩
  · obtain ⟨d, hd, htid, hfind⟩ := find_encoded hother hbody
    refine ⟨d, carried a, hd, ?_, sameAddress_carried a⟩
    rw [readXorAddress, hfind, htid]
    exact decodeXorAddr_encodeXorAddr a m.transactionID
  · obtain ⟨d, hd, -, hfind⟩ := find_encoded hother hbody
    exact ⟨d, carried a, hd, readMappedAddress_mappedValue hfind, sameAddress_carried a⟩
  · intro type tid hfind
    rw [readXorAddress, hfind]
    exact decodeXorAddr_malformed hv tid
  · exact fun hfind => readMappedAddress_malformed hfind hv

/-- A request that carries 2001:db8::9 under XOR-MAPPED-ADDRESS. -/
theorem address_round_trip_v6 :
    let m : Message := ⟨Method.binding, .successResponse, ⟨List.replicate 12 7, rfl⟩, [], []⟩
    let a : AddrRecord := ⟨.v6 ⟨[0x20, 0x01, 0x0d, 0xb8, 0, 0, 0, 0, 0, 0, 0, 0, 0, 0, 0, 9], rfl⟩
      0,
      6000, .stream⟩
    (∃ d r, decode ((writeXorAddress m .xorMappedAddress a m.transactionID).encode none none
        none).raw = some d ∧
      readXorAddress d .xorMappedAddress d.transactionID = some r ∧ SameAddress r a) ∧
    (∃ d r, decode ((writeMappedAddress m a).encode none none none).raw = some d ∧
      readMappedAddress d = some r ∧ SameAddress r a) := by
  intro m a
  obtain ⟨hxor, hmapped, -⟩ := address_round_trip m a none none none
  exact ⟨hxor .xorMappedAddress (by decide) (by decide +kernel),
    hmapped (by decide) (by decide +kernel)⟩

/-- A response with the data `v`. -/
def responseWith (v : Bytes) : Message :=
  ⟨Method.binding, .successResponse, ⟨List.replicate 12 7, rfl⟩, [⟨.data, v⟩], []⟩

/-- A body of 65536 bytes overflows the length field to zero. -/
theorem readXorAddress_overflow (hv : v.length = 65512) :
    ((decode ((writeXorAddress (responseWith v) .xorMappedAddress ⟨.v4 10 0 0 1, 6000, .dgram⟩
      (responseWith v).transactionID).encode none none none).raw).bind fun d =>
        readXorAddress d .xorMappedAddress d.transactionID) = none := by
  have hlen : (tlvs ((writeXorAddress (responseWith v) .xorMappedAddress
      ⟨.v4 10 0 0 1, 6000, .dgram⟩ (responseWith v).transactionID).encodedAttributes none none
        none)).length = 65536 := by
    simp only [Message.encodedAttributes, tlvs_append, tlvs_cons, tlvs_nil, List.length_append,
      length_tlv_fingerprintOver]
    change (tlvs ([] ++ [⟨.data, v⟩, ⟨.xorMappedAddress, _⟩] ++ [] ++ [])).length + 8 = 65536
    simp only [List.nil_append, List.append_nil, tlvs_cons, tlvs_nil, List.length_append,
      length_tlv,
      hv]
    rw [show (encodeXorAddr ⟨.v4 10 0 0 1, 6000, .dgram⟩ (responseWith v).transactionID).length = 8
      from rfl, paddedSize, paddedSize]
  rw [encode_raw, hlen, show UInt16.ofNat 65536 = 0 from rfl,
    decode_wire_overflow _ _ (encodeType_lt _ _)]
  rfl

/-- An address that is lost in an oversized message. -/
theorem address_lost_oversized :
    ((decode ((writeXorAddress (responseWith (List.replicate 65512 0)) .xorMappedAddress
      ⟨.v4 10 0 0 1, 6000, .dgram⟩ (responseWith (List.replicate 65512 0)).transactionID).encode
        none none none).raw).bind fun d =>
          readXorAddress d .xorMappedAddress d.transactionID) = none :=
  readXorAddress_overflow List.length_replicate

end Stice.Stun
