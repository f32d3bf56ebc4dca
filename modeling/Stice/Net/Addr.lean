import Stice.Types

/-! Transport addresses (`net/addr.hpp`, `net/addr.cpp`). Two spellings of one
peer, an IPv4 address and its v4-mapped IPv6 form, compare equal; `key` is the
normal form that equality compares, so a hash map keyed by addresses is a map
keyed by `key`. -/
namespace Stice.Net

inductive SockType
  | dgram | stream
  deriving DecidableEq, Repr

inductive Ip
  | v4 (b0 b1 b2 b3 : UInt8)
  | v6 (addr : { b : Bytes // b.length = 16 }) (scope : UInt32)
  deriving DecidableEq, Repr

structure AddrRecord where
  ip : Ip
  port : UInt16
  socktype : SockType
  deriving DecidableEq, Repr

/-- `IN6_IS_ADDR_V4MAPPED`. -/
def isV4Mapped (b : Bytes) : Bool := b.take 12 = List.replicate 10 0 ++ [0xFF, 0xFF]

/-- The address bytes `addrEqual` compares: 4 for IPv4 and v4-mapped addresses,
16 otherwise. The scope is not compared. -/
def Ip.normalize : Ip → Bytes
  | .v4 b0 b1 b2 b3 => [b0, b1, b2, b3]
  | .v6 addr _ => if isV4Mapped addr.1 then addr.1.drop 12 else addr.1

def addrEqual (a b : AddrRecord) (comparePorts : Bool) : Bool :=
  a.ip.normalize = b.ip.normalize && (!comparePorts || a.port = b.port)

def AddrRecord.isEqual (a b : AddrRecord) (comparePorts : Bool) : Bool :=
  a.socktype = b.socktype && addrEqual a b comparePorts

/-- `ss_family`; `unspec` is that of an empty record. -/
inductive Family
  | unspec | inet | inet6
  deriving DecidableEq, Repr

def Ip.family : Ip → Family
  | .v4 .. => .inet
  | .v6 .. => .inet6

/-- `addrIsLinkLocal`: 169.254.0.0/16, also as a v4-mapped address, and fe80::/10. -/
def addrIsLinkLocal : Ip → Bool
  | .v4 b0 b1 _ _ => b0 = 169 && b1 = 254
  | .v6 addr _ =>
      if byteAt addr.1 0 = 0xFE && byteAt addr.1 1 &&& 0xC0 = 0x80 then true
      else isV4Mapped addr.1 && byteAt addr.1 12 = 169 && byteAt addr.1 13 = 254

/-- Permissions match on the IP only. -/
def samePeerIP (a b : AddrRecord) : Bool := addrEqual a b false

def SockType.code : SockType → UInt8
  | .dgram => 2
  | .stream => 1

def AddrRecord.key (a : AddrRecord) : Bytes :=
  a.socktype.code :: (be16 a.port ++ a.ip.normalize)

theorem be16_injective {v w : UInt16} (h : be16 v = be16 w) : v = w := by
  rw [← join_be16 v, ← join_be16 w]
  simp only [be16, List.cons.injEq, and_true] at h
  rw [h.1, h.2]

theorem SockType.code_injective {s t : SockType} (h : s.code = t.code) : s = t := by
  cases s <;> cases t <;> first | rfl | exact absurd h (by decide)

/-- Equality of addresses is equality of their keys. -/
theorem AddrRecord.isEqual_iff_key (a b : AddrRecord) :
    a.isEqual b true = true ↔ a.key = b.key := by
  simp only [isEqual, addrEqual, key, Bool.not_true, Bool.false_or, Bool.and_eq_true,
    decide_eq_true_eq, List.cons.injEq]
  constructor
  · rintro ⟨hs, hip, hp⟩
    rw [hs, hip, hp]
    exact ⟨rfl, rfl⟩
  · rintro ⟨hs, h⟩
    obtain ⟨hp, hip⟩ := List.append_inj h rfl
    exact ⟨SockType.code_injective hs, hip, be16_injective hp⟩

/-! ## Texts -/

def digits (base n : Nat) : Bytes := (Nat.toDigits base n).map fun c => c.toNat.toUInt8

/-- `a.b.c.d`. -/
def text4 (b : Bytes) : Bytes := List.intercalate [46] (b.map fun x => digits 10 x.toNat)

/-- Eight groups, none of them left out. -/
def text6 (b : Bytes) : Bytes :=
  List.intercalate [58] ((List.range 8).map fun i => digits 16 (readU16Be b (2 * i)).toNat)

end Stice.Net
