import Stice.Net.Addr
import Stice.Stun.Message

/-! Typed access to attributes (`stun/attributes.hpp`, `stun/attributes.cpp`),
as far as the TURN server and the TURN client read and write them. -/
namespace Stice.Stun
open Net

def ascii (s : String) : Bytes := s.toList.map fun c => c.toNat.toUInt8

def familyIPv4 : UInt8 := 0x01
def familyIPv6 : UInt8 := 0x02

def xorMask (tid : TransactionID) : Bytes := [0x21, 0x12, 0xA4, 0x42] ++ tid.1

def xorBytes (a b : Bytes) : Bytes := List.zipWith (· ^^^ ·) a b

def encodeXorAddr (rec : AddrRecord) (tid : TransactionID) : Bytes :=
  let mask := xorMask tid
  let xport := rec.port ^^^ readU16Be mask 0
  match rec.ip with
  | .v4 b0 b1 b2 b3 => [0, familyIPv4] ++ be16 xport ++ xorBytes [b0, b1, b2, b3] mask
  | .v6 addr _ => [0, familyIPv6] ++ be16 xport ++ xorBytes addr.1 mask

def decodeXorAddr (value : Bytes) (tid : TransactionID) : Option AddrRecord :=
  if value.length < 4 then none
  else
    let mask := xorMask tid
    let port := readU16Be value 2 ^^^ readU16Be mask 0
    let ip (i : Nat) := byteAt value (4 + i) ^^^ byteAt mask i
    if byteAt value 1 = familyIPv4 then
      if value.length < 8 then none
      else some ⟨.v4 (ip 0) (ip 1) (ip 2) (ip 3), port, .dgram⟩
    else if byteAt value 1 = familyIPv6 then
      if value.length < 20 then none
      else some ⟨.v6 ⟨(List.range 16).map ip, by simp⟩ 0, port, .dgram⟩
    else none

def Message.addAttribute (m : Message) (type : AttrType) (value : Bytes) : Message :=
  { m with attributes := m.attributes ++ [⟨type, value⟩] }

def writeXorAddress (m : Message) (type : AttrType) (addr : AddrRecord) (tid : TransactionID) :
    Message :=
  m.addAttribute type (encodeXorAddr addr tid)

def readXorAddress (m : Message) (type : AttrType) (tid : TransactionID) : Option AddrRecord :=
  (m.find type).bind fun v => decodeXorAddr v tid

/-- `getString`: an absent attribute reads as the empty string. -/
def getString (m : Message) (type : AttrType) : Bytes := (m.find type).getD []

def errorReason (code : Nat) : Bytes :=
  if code = 300 then ascii "Try Alternate"
  else if code = 400 then ascii "Bad Request"
  else if code = 401 then ascii "Unauthenticated"
  else if code = 403 then ascii "Forbidden"
  else if code = 420 then ascii "Unknown Attribute"
  else if code = 437 then ascii "Allocation Mismatch"
  else if code = 438 then ascii "Stale Nonce"
  else if code = 440 then ascii "Address Family not Supported"
  else if code = 441 then ascii "Wrong credentials"
  else if code = 442 then ascii "Unsupported Transport Protocol"
  else if code = 443 then ascii "Peer Address Family Mismatch"
  else if code = 486 then ascii "Allocation Quota Reached"
  else if code = 500 then ascii "Server Error"
  else if code = 508 then ascii "Insufficient Capacity"
  else ascii "Unknown Error"

def addErrorCode (m : Message) (code : Nat) : Message :=
  m.addAttribute .errorCode
    ([0, 0, UInt8.ofNat (code / 100) &&& 0x07, UInt8.ofNat (code % 100)] ++ errorReason code)

/-- The code and the reason of an error response. -/
def readErrorCode (m : Message) : Option (Nat × Bytes) :=
  (m.find .errorCode).bind fun v =>
    if v.length < 4 then none
    else some ((byteAt v 2 &&& 0x07).toNat * 100 + (byteAt v 3).toNat, v.drop 4)

def addChannelNumber (m : Message) (channel : UInt16) : Message :=
  m.addAttribute .channelNumber (be16 channel ++ [0, 0])

def addRequestedTransport (m : Message) (protocol : UInt8) : Message :=
  m.addAttribute .requestedTransport [protocol, 0, 0, 0]

def addData (m : Message) (data : Bytes) : Message := m.addAttribute .data data

def readChannelNumber (m : Message) : Option UInt16 :=
  (m.find .channelNumber).bind fun v => if v.length = 4 then some (readU16Be v 0) else none

def addLifetime (m : Message) (seconds : UInt32) : Message :=
  m.addAttribute .lifetime (be32 seconds)

def readLifetime (m : Message) : Option UInt32 :=
  (m.find .lifetime).bind fun v => if v.length = 4 then some (readU32Be v 0) else none

def addConnectionId (m : Message) (connId : UInt32) : Message :=
  m.addAttribute .connectionId (be32 connId)

def readConnectionId (m : Message) : Option UInt32 :=
  (m.find .connectionId).bind fun v => if v.length < 4 then none else some (readU32Be v 0)

/-- The value `writeMappedAddress` builds. -/
def mappedValue (rec : AddrRecord) : Bytes :=
  match rec.ip with
  | .v4 b0 b1 b2 b3 => [0, familyIPv4] ++ be16 rec.port ++ [b0, b1, b2, b3]
  | .v6 addr _ => [0, familyIPv6] ++ be16 rec.port ++ addr.1

def writeMappedAddress (m : Message) (addr : AddrRecord) : Message :=
  m.addAttribute .mappedAddress (mappedValue addr)

/-- The address of a server that predates XOR-MAPPED-ADDRESS. -/
def readMappedAddress (m : Message) : Option AddrRecord :=
  (m.find .mappedAddress).bind fun v =>
    if v.length < 4 then none
    else if byteAt v 1 = familyIPv4 then
      if v.length < 8 then none
      else some ⟨.v4 (byteAt v 4) (byteAt v 5) (byteAt v 6) (byteAt v 7), readU16Be v 2, .dgram⟩
    else if byteAt v 1 = familyIPv6 then
      if v.length < 20 then none
      else some ⟨.v6 ⟨(List.range 16).map fun i => byteAt v (4 + i), by simp⟩ 0, readU16Be v 2,
        .dgram⟩
    else none

/-! ## ICE -/

def addPriority (m : Message) (priority : UInt32) : Message :=
  m.addAttribute .priority (be32 priority)

def readPriority (m : Message) : Option UInt32 :=
  (m.find .priority).bind fun v => if v.length = 4 then some (readU32Be v 0) else none

def addUseCandidate (m : Message) : Message := m.addAttribute .useCandidate []

def hasUseCandidate (m : Message) : Bool := (m.find .useCandidate).isSome

def addNomination (m : Message) (value : UInt32) : Message :=
  m.addAttribute .nomination (be32 value)

def readNomination (m : Message) : Option UInt32 :=
  (m.find .nomination).bind fun v => if v.length < 4 then none else some (readU32Be v 0)

/-- The 8 bytes of a tiebreaker, the most significant one first. -/
def encodeTiebreaker (tiebreaker : UInt64) : Bytes :=
  [(tiebreaker >>> 56).toUInt8, (tiebreaker >>> 48).toUInt8, (tiebreaker >>> 40).toUInt8,
    (tiebreaker >>> 32).toUInt8, (tiebreaker >>> 24).toUInt8, (tiebreaker >>> 16).toUInt8,
    (tiebreaker >>> 8).toUInt8, tiebreaker.toUInt8]

def addIceControlling (m : Message) (tiebreaker : UInt64) : Message :=
  m.addAttribute .iceControlling (encodeTiebreaker tiebreaker)

def addIceControlled (m : Message) (tiebreaker : UInt64) : Message :=
  m.addAttribute .iceControlled (encodeTiebreaker tiebreaker)

/-- The 8 bytes of a tiebreaker, read one after the other. -/
def readTiebreaker (m : Message) (type : AttrType) : Option UInt64 :=
  (m.find type).bind fun v =>
    if v.length = 8 then some (v.foldl (fun out b => (out <<< 8) ||| b.toUInt64) 0) else none

def readIceControlling (m : Message) : Option UInt64 := readTiebreaker m .iceControlling

def readIceControlled (m : Message) : Option UInt64 := readTiebreaker m .iceControlled

def addTcpType (m : Message) (tcpType : UInt32) : Message := m.addAttribute .tcpType (be32 tcpType)

/-! ## Addresses read back -/

theorem byteAt_xorBytes {a mask : Bytes} {i : Nat} (hi : i < a.length)
    (hm : a.length ≤ mask.length) : byteAt (xorBytes a mask) i ^^^ byteAt mask i = byteAt a i := by
  have hi' : i < mask.length := by omega
  simp only [byteAt, xorBytes, List.getD_eq_getElem?_getD, List.getElem?_zipWith,
    List.getElem?_eq_getElem hi, List.getElem?_eq_getElem hi', Option.getD_some]
  rw [UInt8.xor_assoc, UInt8.xor_self, UInt8.xor_zero]

/-- The fields of an address attribute. -/
theorem addr_fields (family : UInt8) (port : UInt16) (body : Bytes) :
    byteAt ([0, family] ++ be16 port ++ body) 1 = family ∧
      readU16Be ([0, family] ++ be16 port ++ body) 2 = port ∧
      (∀ i, byteAt ([0, family] ++ be16 port ++ body) (4 + i) = byteAt body i) ∧
      ([0, family] ++ be16 port ++ body).length = 4 + body.length := by
  refine ⟨rfl, ?_, fun i => ?_, ?_⟩
  · exact @readU16Be_of_drop _ _ _ body (by simp)
  · rw [Nat.add_comm]
    simp [byteAt, be16]
  · simp [be16]
    omega

/-- What an attribute keeps of an address: neither the scope nor the socket type. -/
def carried (a : AddrRecord) : AddrRecord :=
  match a.ip with
  | .v4 b0 b1 b2 b3 => ⟨.v4 b0 b1 b2 b3, a.port, .dgram⟩
  | .v6 addr _ => ⟨.v6 addr 0, a.port, .dgram⟩

theorem addrEqual_carried (a : AddrRecord) : addrEqual (carried a) a true = true := by
  obtain ⟨ip, port, socktype⟩ := a
  cases ip <;> simp [addrEqual, carried, Ip.normalize]

theorem decodeXorAddr_encodeXorAddr (a : AddrRecord) (tid : TransactionID) :
    decodeXorAddr (encodeXorAddr a tid) tid = some (carried a) := by
  obtain ⟨ip, port, socktype⟩ := a
  have hport (k : UInt16) : port ^^^ k ^^^ k = port := by
    rw [UInt16.xor_assoc, UInt16.xor_self, UInt16.xor_zero]
  have hmask : (xorMask tid).length = 16 := by simp [xorMask, tid.2]
  cases ip with
  | v4 b0 b1 b2 b3 =>
    obtain ⟨hfamily, hread, hbyte, hlen⟩ := addr_fields familyIPv4
      (port ^^^ readU16Be (xorMask tid) 0) (xorBytes [b0, b1, b2, b3] (xorMask tid))
    have hbody (i : Nat) (hi : i < 4) : byteAt (xorBytes [b0, b1, b2, b3] (xorMask tid)) i ^^^
        byteAt (xorMask tid) i = byteAt [b0, b1, b2, b3] i := byteAt_xorBytes hi (by simp [hmask])
    have hsize : (xorBytes [b0, b1, b2, b3] (xorMask tid)).length = 4 := by simp [xorBytes, hmask]
    unfold decodeXorAddr encodeXorAddr
    dsimp only
    rw [hfamily, hread, hport, hlen, hsize, if_neg (by omega), if_pos rfl, if_neg (by omega)]
    simp only [hbyte, hbody 0 (by omega), hbody 1 (by omega), hbody 2 (by omega),
      hbody 3 (by omega)]
    rfl
  | v6 addr scope =>
    obtain ⟨hfamily, hread, hbyte, hlen⟩ := addr_fields familyIPv6
      (port ^^^ readU16Be (xorMask tid) 0) (xorBytes addr.1 (xorMask tid))
    have hsize : (xorBytes addr.1 (xorMask tid)).length = 16 := by
      simp [xorBytes, hmask, addr.2]
    have hbytes : ((List.range 16).map fun i => byteAt (xorBytes addr.1 (xorMask tid)) i ^^^
        byteAt (xorMask tid) i) = addr.1 := by
      refine List.ext_getElem (by simp [addr.2]) fun i hi hi' => ?_
      have hi16 : i < 16 := by simpa using hi
      rw [List.getElem_map, List.getElem_range,
        byteAt_xorBytes (by rw [addr.2]; exact hi16) (Nat.le_of_eq (addr.2.trans hmask.symm))]
      simp [byteAt, hi']
    unfold decodeXorAddr encodeXorAddr
    dsimp only
    rw [hfamily, hread, hport, hlen, hsize, if_neg (by omega), if_neg (by decide), if_pos rfl,
      if_neg (by omega)]
    simp only [hbyte, hbytes]
    rfl

end Stice.Stun
