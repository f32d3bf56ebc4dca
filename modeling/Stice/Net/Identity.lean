import Stice.Net.Addr

/-! Records of addresses with all their fields (`net/addr.cpp`): equality and hash go by the
normal form of the address, so a record and its v4-mapped form are one key of a table. -/
namespace Stice.Net

/-- `inet_pton`. -/
structure InetPton where
  inet : Bytes → Option { b : Bytes // b.length = 4 }
  inet6 : Bytes → Option { b : Bytes // b.length = 16 }

def readDigits (base : Nat) (s : Bytes) : Nat :=
  s.foldl (fun n c => base * n + (if c < 58 then c.toNat - 48 else c.toNat - 87)) 0

/-- An `inet_pton` that takes an address as `text4` and `text6` write it. -/
def numericPton : InetPton where
  inet s :=
    let b := (s.splitOn 46).map fun d => UInt8.ofNat (readDigits 10 d)
    if h : b.length = 4 ∧ text4 b = s then some ⟨b, h.1⟩ else none
  inet6 s :=
    let b := (s.splitOn 58).flatMap fun d => be16 (UInt16.ofNat (readDigits 16 d))
    if h : b.length = 16 ∧ text6 b = s then some ⟨b, h.1⟩ else none

/-- An `AddrRecord` with its length and any `socktype`. -/
structure SockRecord where
  ip : Ip
  port : UInt16
  len : Nat
  socktype : Int
  deriving DecidableEq, Repr

def sizeofSockaddrIn : Nat := 16
def sizeofSockaddrIn6 : Nat := 28

/-- The bytes of a word in memory, the least significant one first. -/
def storeWord (w : UInt32) : Ip :=
  .v4 w.toUInt8 (w >>> 8).toUInt8 (w >>> 16).toUInt8 (w >>> 24).toUInt8

def addrUnmapInet6V4Mapped (r : SockRecord) : Bool × SockRecord :=
  match r.ip with
  | .v4 .. => (false, r)
  | .v6 addr _ =>
      if isV4Mapped addr.1 then
        let b (i : Nat) : UInt32 := (byteAt addr.1 i).toUInt32
        (true, { r with
          ip := storeWord (b 12 ||| b 13 <<< 8 ||| b 14 <<< 16 ||| b 15 <<< 24)
          len := sizeofSockaddrIn })
      else (false, r)

def mappedBytes (b0 b1 b2 b3 : UInt8) : { b : Bytes // b.length = 16 } :=
  ⟨List.replicate 10 0 ++ [0xFF, 0xFF, b0, b1, b2, b3], rfl⟩

def addrMapInet6V4Mapped (r : SockRecord) : Bool × SockRecord :=
  match r.ip with
  | .v4 b0 b1 b2 b3 =>
      (true, { r with ip := .v6 (mappedBytes b0 b1 b2 b3) 0, len := sizeofSockaddrIn6 })
  | .v6 .. => (false, r)

namespace SockRecord

variable {a b c : SockRecord} {ports : Bool}

/-- `addrEqual` does not look at the type of the socket. -/
def addr (a : SockRecord) : AddrRecord := ⟨a.ip, a.port, .dgram⟩

def isEqual (a b : SockRecord) (comparePorts : Bool) : Bool :=
  a.socktype = b.socktype && addrEqual a.addr b.addr comparePorts

/-- `AF_INET` or `AF_INET6` after normalization. -/
def familyCode (bytes : Bytes) : UInt64 := if bytes.length = 4 then 2 else 10

/-- One step of the hash. -/
def hashStep (h x : UInt64) : UInt64 := ((h <<< 5) + h) + x

def hash (a : SockRecord) (withPort : Bool) : UInt64 :=
  let bytes := a.ip.normalize
  let h := hashStep (hashStep 5381 (familyCode bytes)) (UInt64.ofInt a.socktype)
  let h := bytes.foldl (fun h b => hashStep h b.toUInt64) h
  if withPort then hashStep h a.port.toUInt64 else h

theorem isEqual_iff : a.isEqual b ports = true ↔
    a.socktype = b.socktype ∧ a.ip.normalize = b.ip.normalize ∧
      (ports = true → a.port = b.port) := by
  unfold isEqual addrEqual
  cases ports <;> simp only [Bool.and_eq_true, Bool.or_eq_true, decide_eq_true_eq, Bool.not_false,
    Bool.not_true, reduceCtorEq, true_or, false_or, and_true, forall_const, IsEmpty.forall_iff] <;>
    exact Iff.rfl

theorem normalize_map (a : SockRecord) :
    (addrMapInet6V4Mapped a).2.ip.normalize = a.ip.normalize := by
  unfold addrMapInet6V4Mapped
  split
  · rename_i b0 b1 b2 b3 hip
    rw [hip]
    rfl
  · rfl

theorem storeWord_join (b0 b1 b2 b3 : UInt8) :
    storeWord (b0.toUInt32 ||| b1.toUInt32 <<< 8 ||| b2.toUInt32 <<< 16 ||| b3.toUInt32 <<< 24) =
      .v4 b0 b1 b2 b3 := by
  have h0 := b0.toNat_lt
  have h1 := b1.toNat_lt
  have h2 := b2.toNat_lt
  have h3 := b3.toNat_lt
  have hw : (b0.toUInt32 ||| b1.toUInt32 <<< 8 ||| b2.toUInt32 <<< 16 |||
      b3.toUInt32 <<< 24).toNat =
      b3.toNat * 2 ^ 24 + (b2.toNat * 2 ^ 16 + (b1.toNat * 2 ^ 8 + b0.toNat)) := by
    have hlow : b0.toNat ||| b1.toNat * 2 ^ 8 % 2 ^ 32 = b1.toNat * 2 ^ 8 + b0.toNat := by
      rw [Nat.or_comm, or_eq_add 8] <;> omega
    have hmid : b1.toNat * 2 ^ 8 + b0.toNat ||| b2.toNat * 2 ^ 16 % 2 ^ 32 =
        b2.toNat * 2 ^ 16 + (b1.toNat * 2 ^ 8 + b0.toNat) := by
      rw [Nat.or_comm, or_eq_add 16] <;> omega
    simp only [UInt32.toNat_or, UInt32.toNat_shiftLeft, UInt8.toNat_toUInt32, Nat.shiftLeft_eq,
      UInt32.reduceToNat, Nat.reduceMod, hlow, hmid]
    rw [Nat.or_comm, or_eq_add 24] <;> omega
  unfold storeWord
  congr 1 <;> apply UInt8.toNat_inj.mp <;>
    simp only [UInt32.toNat_toUInt8, UInt32.toNat_shiftRight, hw, Nat.shiftRight_eq_div_pow] <;>
    simp <;> omega

theorem normalize_unmap (a : SockRecord) :
    (addrUnmapInet6V4Mapped a).2.ip.normalize = a.ip.normalize := by
  unfold addrUnmapInet6V4Mapped
  split
  · rfl
  · rename_i addr scope hip
    dsimp only
    split
    · rename_i hmapped
      rw [storeWord_join, hip]
      unfold Ip.normalize
      dsimp only
      rw [if_pos hmapped]
      refine List.ext_getElem? fun i => ?_
      rw [List.getElem?_drop]
      rcases i with _ | _ | _ | _ | i
      · simp [byteAt, addr.2]
      · simp [byteAt, addr.2]
      · simp [byteAt, addr.2]
      · simp [byteAt, addr.2]
      · rw [List.getElem?_eq_none (by simp), List.getElem?_eq_none (by rw [addr.2]; omega)]
    · rfl

/-- A change of the spelling of an address. -/
structure Respelled (a b : SockRecord) : Prop where
  ip : b.ip.normalize = a.ip.normalize
  port : b.port = a.port
  socktype : b.socktype = a.socktype

theorem Respelled.map (a : SockRecord) : Respelled a (addrMapInet6V4Mapped a).2 := by
  refine ⟨normalize_map a, ?_, ?_⟩ <;> unfold addrMapInet6V4Mapped <;> split <;> rfl

theorem Respelled.unmap (a : SockRecord) : Respelled a (addrUnmapInet6V4Mapped a).2 := by
  refine ⟨normalize_unmap a, ?_, ?_⟩ <;> unfold addrUnmapInet6V4Mapped <;> split <;>
    first | rfl | (dsimp only; split <;> rfl)

theorem Respelled.isEqual (h : Respelled a b) (c : SockRecord) (ports : Bool) :
    b.isEqual c ports = a.isEqual c ports ∧ c.isEqual b ports = c.isEqual a ports := by
  constructor <;> refine Bool.eq_iff_iff.mpr ?_ <;>
    rw [isEqual_iff, isEqual_iff, h.ip, h.port, h.socktype]

theorem Respelled.hash (h : Respelled a b) (withPort : Bool) :
    b.hash withPort = a.hash withPort := by
  unfold SockRecord.hash
  rw [h.ip, h.port, h.socktype]

theorem hash_of_isEqual (h : a.isEqual b ports = true) : a.hash ports = b.hash ports := by
  obtain ⟨hsock, hip, hport⟩ := isEqual_iff.mp h
  unfold hash
  rw [hip, hsock]
  cases ports with
  | false => rfl
  | true => rw [hport rfl]

theorem isEqual_equivalence (ports : Bool) : Equivalence fun a b => isEqual a b ports = true where
  refl _ := isEqual_iff.mpr ⟨rfl, rfl, fun _ => rfl⟩
  symm h := by
    obtain ⟨hsock, hip, hport⟩ := isEqual_iff.mp h
    exact isEqual_iff.mpr ⟨hsock.symm, hip.symm, fun hp => (hport hp).symm⟩
  trans h h' := by
    obtain ⟨hsock, hip, hport⟩ := isEqual_iff.mp h
    obtain ⟨hsock', hip', hport'⟩ := isEqual_iff.mp h'
    exact isEqual_iff.mpr
      ⟨hsock.trans hsock', hip.trans hip', fun hp => (hport hp).trans (hport' hp)⟩

/-- Equality of records is an equivalence that the hash and both spellings of an address respect,
and mapping an IPv4 address into IPv6 can be undone. -/
theorem address_identity :
    (∀ ports, Equivalence fun a b => isEqual a b ports = true) ∧
    (∀ a b, isEqual a b true = true → isEqual a b false = true) ∧
    (∀ a b ports, isEqual a b ports = true → hash a ports = hash b ports) ∧
    (∀ a b c ports, b = (addrMapInet6V4Mapped a).2 ∨ b = (addrUnmapInet6V4Mapped a).2 →
      b.isEqual c ports = a.isEqual c ports ∧ c.isEqual b ports = c.isEqual a ports ∧
        b.hash ports = a.hash ports) ∧
    ∀ b0 b1 b2 b3 port socktype,
      addrUnmapInet6V4Mapped (addrMapInet6V4Mapped
        ⟨.v4 b0 b1 b2 b3, port, sizeofSockaddrIn, socktype⟩).2 =
        (true, ⟨.v4 b0 b1 b2 b3, port, sizeofSockaddrIn, socktype⟩) := by
  refine ⟨isEqual_equivalence, ?_, fun _ _ _ => hash_of_isEqual, ?_, ?_⟩
  · intro a b h
    obtain ⟨hsock, hip, -⟩ := isEqual_iff.mp h
    exact isEqual_iff.mpr ⟨hsock, hip, fun hp => absurd hp (by decide)⟩
  · intro a b c ports hb
    have hspelled : Respelled a b := by
      rcases hb with rfl | rfl
      · exact .map a
      · exact .unmap a
    exact ⟨(hspelled.isEqual c ports).1, (hspelled.isEqual c ports).2, hspelled.hash ports⟩
  · intro b0 b1 b2 b3 port socktype
    have hjoin := storeWord_join b0 b1 b2 b3
    simpa [addrMapInet6V4Mapped, addrUnmapInet6V4Mapped, isV4Mapped, mappedBytes, byteAt]
      using hjoin

end SockRecord

end Stice.Net
