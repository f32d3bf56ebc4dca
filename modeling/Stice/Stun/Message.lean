import Stice.Types
import Stice.Crypto

/-! The STUN message codec (`stun/message.hpp`, `stun/message.cpp`): a 20-byte
header followed by attributes padded to 4 bytes. `encode` patches the header
length before it computes MESSAGE-INTEGRITY and FINGERPRINT; `decode`,
`findIntegrityOffset` and `checkFingerprint` each walk the raw bytes on their
own. The walks carry fuel: a walk over `n` bytes takes fewer than `n` steps. -/
namespace Stice.Stun
open Crypto

def transactionIDSize : Nat := 12
def messageHeaderSize : Nat := 20
def attributeHeaderSize : Nat := 4
def magicCookie : UInt32 := 0x2112A442
def fingerprintXor : UInt32 := 0x5354554E
def hmacSha1Size : Nat := 20

/-! ## Types -/

/-- A 12-bit method in a 16-bit enumeration: `decode` produces values that are
not enumerators. -/
abbrev Method := UInt16

namespace Method
def binding : Method := 0x001
def allocate : Method := 0x003
def refresh : Method := 0x004
def send : Method := 0x006
def data : Method := 0x007
def createPermission : Method := 0x008
def channelBind : Method := 0x009
def connect : Method := 0x00A
def connectionBind : Method := 0x00B
def connectionAttempt : Method := 0x00C
end Method

inductive Class
  | request | indication | successResponse | errorResponse
  deriving DecidableEq, Repr

def Class.code : Class → UInt16
  | .request => 0
  | .indication => 1
  | .successResponse => 2
  | .errorResponse => 3

def Class.ofCode (c : UInt16) : Class :=
  if c = 0 then .request
  else if c = 1 then .indication
  else if c = 2 then .successResponse
  else .errorResponse

abbrev AttrType := UInt16

namespace AttrType
def mappedAddress : AttrType := 0x0001
def username : AttrType := 0x0006
def messageIntegrity : AttrType := 0x0008
def errorCode : AttrType := 0x0009
def channelNumber : AttrType := 0x000C
def lifetime : AttrType := 0x000D
def xorPeerAddress : AttrType := 0x0012
def data : AttrType := 0x0013
def realm : AttrType := 0x0014
def nonce : AttrType := 0x0015
def xorRelayedAddress : AttrType := 0x0016
def requestedTransport : AttrType := 0x0019
def xorMappedAddress : AttrType := 0x0020
def priority : AttrType := 0x0024
def useCandidate : AttrType := 0x0025
def tcpType : AttrType := 0x0026
def connectionId : AttrType := 0x002A
def software : AttrType := 0x8022
def fingerprint : AttrType := 0x8028
def iceControlled : AttrType := 0x8029
def iceControlling : AttrType := 0x802A
def nomination : AttrType := 0xC001
end AttrType

structure Attribute where
  type : AttrType
  value : Bytes
  deriving DecidableEq, Repr

/-- Long-term credentials; `key` is the derived HMAC key. -/
structure Credentials where
  username : Bytes
  realm : Bytes
  nonce : Bytes
  key : Bytes
  deriving DecidableEq, Repr

abbrev TransactionID := { b : Bytes // b.length = 12 }

structure Message where
  method : Method
  cls : Class
  transactionID : TransactionID
  attributes : List Attribute
  raw : Bytes
  deriving DecidableEq, Repr

def encodeType (method : Method) (cls : Class) : UInt16 :=
  let m := method
  let c := cls.code
  let a := m &&& 0x000F
  let b := m &&& 0x0070
  let d := m &&& 0x0F80
  let msgBits := a + (b <<< 1) + (d <<< 2)
  let c0 := (c &&& 0x0001) <<< 4
  let c1 := (c &&& 0x0002) <<< 7
  msgBits + c0 + c1

def decodeType (type : UInt16) : Method × Class :=
  let c0 := (type >>> 4) &&& 0x0001
  let c1 := (type >>> 7) &&& 0x0002
  let a := type &&& 0x000F
  let b := (type >>> 1) &&& 0x0070
  let d := (type >>> 2) &&& 0x0F80
  (a ||| b ||| d, Class.ofCode (c0 ||| c1))

/-! ## Encoding -/

def appendAttr (raw : Bytes) (type : AttrType) (value : Bytes) : Bytes :=
  raw ++ be16 type ++ be16 (UInt16.ofNat value.length) ++ value ++
    List.replicate (paddedSize value.length - value.length) 0

def appendNonEmpty (raw : Bytes) (type : AttrType) (value : Bytes) : Bytes :=
  if value.isEmpty then raw else appendAttr raw type value

def header (type len : UInt16) (tid : TransactionID) : Bytes :=
  be16 type ++ be16 len ++ be32 magicCookie ++ tid.1

/-- The HMAC key of `encode`: the derived key if there is one, else the
password. -/
def integrityKey (password : Bytes) (creds : Option Credentials) : Bytes :=
  match creds with
  | some c => if c.key.isEmpty then password else c.key
  | none => password

/-- MESSAGE-INTEGRITY covers what precedes it, with a header length that already
counts its own 24 bytes. -/
def appendIntegrity (raw key : Bytes) : Bytes :=
  let bodyLen := raw.length - messageHeaderSize
  let raw := writeU16Be raw 2 (UInt16.ofNat (bodyLen + attributeHeaderSize + hmacSha1Size))
  let hmac := hmacSha1 key raw
  raw ++ be16 AttrType.messageIntegrity ++ be16 (UInt16.ofNat hmacSha1Size) ++ hmac

/-- FINGERPRINT likewise counts its own 8 bytes. -/
def appendFingerprint (raw : Bytes) : Bytes :=
  let bodyLen := raw.length - messageHeaderSize
  let raw := writeU16Be raw 2 (UInt16.ofNat (bodyLen + attributeHeaderSize + 4))
  let fp := crc32 raw ^^^ fingerprintXor
  raw ++ be16 AttrType.fingerprint ++ be16 4 ++ be32 fp

/-- USERNAME, REALM and NONCE precede the caller's attributes in authenticated
messages. -/
def appendCredentials (raw : Bytes) (cls : Class) (password : Option Bytes)
    (creds : Option Credentials) : Bytes :=
  match creds, password with
  | some c, some _ =>
      if cls = .indication then raw
      else
        let raw := appendNonEmpty raw .username c.username
        let raw := appendNonEmpty raw .realm c.realm
        appendNonEmpty raw .nonce c.nonce
  | _, _ => raw

def appendSoftware (raw : Bytes) (software : Option Bytes) : Bytes :=
  match software with
  | some s => appendNonEmpty raw .software s
  | none => raw

/-- Indications are never signed. -/
def sign (raw : Bytes) (cls : Class) (password : Option Bytes) (creds : Option Credentials) :
    Bytes :=
  match password with
  | some p => if cls = .indication then raw else appendIntegrity raw (integrityKey p creds)
  | none => raw

/-- `Message::encode`, which always returns true. A C string is the list of its
characters; `none` is the null pointer. -/
def Message.encode (m : Message) (password : Option Bytes) (creds : Option Credentials)
    (software : Option Bytes) : Message :=
  let raw := header (encodeType m.method m.cls) 0 m.transactionID
  let raw := appendCredentials raw m.cls password creds
  let raw := m.attributes.foldl (fun raw a => appendAttr raw a.type a.value) raw
  let raw := appendSoftware raw software
  let raw := sign raw m.cls password creds
  let raw := appendFingerprint raw
  { m with raw := writeU16Be raw 2 (UInt16.ofNat (raw.length - messageHeaderSize)) }

/-! ## Decoding -/

def isMessage (data : Bytes) : Bool :=
  let length := (readU16Be data 2).toNat
  messageHeaderSize ≤ data.length && byteAt data 0 &&& 0xC0 = 0 &&
    readU32Be data 4 = magicCookie && length % 4 = 0 && messageHeaderSize + length ≤ data.length

/-- The attribute loop of `decode`: `none` where the source returns false. -/
def decodeAttrs (data : Bytes) (stop : Nat) : Nat → Nat → Option (List Attribute)
  | 0, _ => some []
  | fuel + 1, off =>
      if off + attributeHeaderSize ≤ stop then
        let type := readU16Be data off
        let vlen := (readU16Be data (off + 2)).toNat
        let off := off + attributeHeaderSize
        if stop < off + vlen then none
        else (decodeAttrs data stop fuel (off + paddedSize vlen)).map
          (⟨type, slice data off vlen⟩ :: ·)
      else some []

/-- The 12 bytes copied from a buffer, zero where it ends. -/
def tidAt (data : Bytes) (off : Nat) : TransactionID :=
  ⟨(List.range 12).map fun i => byteAt data (off + i), by simp⟩

/-- `Message::decode`; what it leaves in the message when it fails is dropped by
every caller. -/
def decode (data : Bytes) : Option Message :=
  if isMessage data then
    let (method, cls) := decodeType (readU16Be data 0)
    let stop := messageHeaderSize + (readU16Be data 2).toNat
    if data.length < stop then none
    else (decodeAttrs data stop data.length messageHeaderSize).map fun attributes =>
      ⟨method, cls, tidAt data 8, attributes, data⟩
  else none

def Message.find (m : Message) (type : AttrType) : Option Bytes :=
  (m.attributes.find? fun a => a.type = type).map Attribute.value

/-! ## Integrity and fingerprint -/

/-- The walk of `findIntegrityOffset`: the offset of the first
MESSAGE-INTEGRITY header. -/
def integrityWalk (raw : Bytes) (stop : Nat) : Nat → Nat → Option Nat
  | 0, _ => none
  | fuel + 1, off =>
      if off + attributeHeaderSize ≤ stop then
        let vlen := (readU16Be raw (off + 2)).toNat
        if readU16Be raw off = AttrType.messageIntegrity then some off
        else integrityWalk raw stop fuel (off + (attributeHeaderSize + paddedSize vlen))
      else none

def Message.stop (m : Message) : Nat := messageHeaderSize + (readU16Be m.raw 2).toNat

/-- `findIntegrityOffset`: the value starts 4 bytes after the returned offset. -/
def Message.findIntegrityOffset (m : Message) : Option Nat :=
  integrityWalk m.raw m.stop m.raw.length messageHeaderSize

/-- The bytes both checks recompute over: header and body up to `start`, with a
header length that ends `extra` bytes later. -/
def coveredPrefix (raw : Bytes) (start extra : Nat) : Bytes :=
  writeU16Be (raw.take start) 2
    (UInt16.ofNat (start - messageHeaderSize + attributeHeaderSize + extra))

def Message.checkIntegrity (m : Message) (key : Bytes) (allowMissing : Bool) : Bool :=
  match m.findIntegrityOffset with
  | none => allowMissing
  | some start =>
      let valueOff := start + attributeHeaderSize
      if m.raw.length < valueOff + hmacSha1Size then false
      else hmacSha1 key (coveredPrefix m.raw start hmacSha1Size) =
        slice m.raw valueOff hmacSha1Size

/-- The walk of `checkFingerprint`: the offset of the last FINGERPRINT header,
zero if there is none. -/
def fingerprintWalk (raw : Bytes) (stop : Nat) : Nat → Nat → Nat → Nat
  | 0, _, found => found
  | fuel + 1, off, found =>
      if off + attributeHeaderSize ≤ stop then
        let vlen := (readU16Be raw (off + 2)).toNat
        let found := if readU16Be raw off = AttrType.fingerprint then off else found
        fingerprintWalk raw stop fuel (off + (attributeHeaderSize + paddedSize vlen)) found
      else found

def Message.checkFingerprint (m : Message) (allowMissing : Bool) : Bool :=
  let start := fingerprintWalk m.raw m.stop m.raw.length messageHeaderSize 0
  let valueOff := start + attributeHeaderSize
  if start = 0 then allowMissing
  else if m.raw.length < valueOff + 4 then false
  else crc32 (coveredPrefix m.raw start 4) = readU32Be m.raw valueOff ^^^ fingerprintXor

end Stice.Stun
