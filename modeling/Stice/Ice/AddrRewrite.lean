import Stice.Ice.Candidate
import Stice.Net.Identity

/-! The rules that rewrite the addresses of candidates (`ice/addr_rewrite.cpp`). Addresses are
texts, read by `inet_pton` up to the first zero byte. -/
namespace Stice.Ice
open Net Stun

def cString (s : Bytes) : Bytes := s.takeWhile (· ≠ 0)

/-- Whether the text is an address, and one of IPv4. -/
def validateIPString (pton : InetPton) (s : Bytes) : Option Bool :=
  if s = [] then none
  else if (pton.inet (cString s)).isSome then some true
  else if (pton.inet6 (cString s)).isSome then some false
  else none

def isDigit (c : UInt8) : Bool := 48 ≤ c ∧ c ≤ 57

def decimal (digits : Bytes) : Nat := digits.foldl (fun n c => 10 * n + (c.toNat - 48)) 0

/-- `std::atoi`, as far as the number fits an `int`. -/
def atoi (s : Bytes) : Int :=
  match s.dropWhile fun c => c = 32 ∨ 9 ≤ c ∧ c ≤ 13 with
  | 45 :: s => - (decimal (s.takeWhile isDigit) : Int)
  | 43 :: s => decimal (s.takeWhile isDigit)
  | s => decimal (s.takeWhile isDigit)

def mask4 (plen : Nat) : UInt32 :=
  if plen = 0 then 0 else ~~~((1 <<< UInt32.ofNat (32 - plen)) - 1)

def mask8 (r : Nat) : UInt8 := ~~~((1 <<< UInt8.ofNat (8 - r)) - 1)

/-- The comparison of two IPv4 addresses, byte by byte as they stand in memory. -/
def sameNet4 (net addr : Bytes) (plen : Nat) : Bool :=
  let mask := be32 (mask4 (min plen 32))
  List.zipWith (· &&& ·) net mask = List.zipWith (· &&& ·) addr mask

def sameNet6 (net addr : Bytes) (plen : Nat) : Bool :=
  let fullBytes := plen / 8
  let remainder := plen % 8
  net.take fullBytes = addr.take fullBytes ∧
    (0 < remainder ∧ fullBytes < 16 →
      byteAt net fullBytes &&& mask8 remainder = byteAt addr fullBytes &&& mask8 remainder)

def cidrContains (pton : InetPton) (cidr localIP : Bytes) : Bool :=
  if cidr = [] then true
  else if 47 ∈ cidr then
    let cidrIP := cidr.takeWhile (· ≠ 47)
    let plen := atoi (cString ((cidr.dropWhile (· ≠ 47)).drop 1))
    if plen < 0 ∨ 128 < plen then false
    else match validateIPString pton cidrIP, validateIPString pton localIP with
      | some true, some true =>
        match pton.inet (cString cidrIP), pton.inet (cString localIP) with
        | some net, some addr => sameNet4 net.1 addr.1 plen.toNat
        | _, _ => false
      | some false, some false =>
        match pton.inet6 (cString cidrIP), pton.inet6 (cString localIP) with
        | some net, some addr => sameNet6 net.1 addr.1 plen.toNat
        | _, _ => false
      | _, _ => false
  else false

/-! ## Networks -/

/-- The bits of a byte, the most significant one first. -/
def byteBits (b : UInt8) : List Bool := (List.range 8).map fun i => b.toNat.testBit (7 - i)

def addrBits (addr : Bytes) : List Bool := addr.flatMap byteBits

/-- The bytes of an address text: 4 of them for IPv4, 16 for IPv6. -/
def literal (pton : InetPton) (s : Bytes) : Option Bytes :=
  if s = [] then none
  else ((pton.inet (cString s)).map (·.1)).or ((pton.inet6 (cString s)).map (·.1))

/-- The mask of a byte of which the first `p` bits count. -/
def maskByte (p : Nat) : UInt8 := if 8 ≤ p then 0xFF else if p = 0 then 0 else mask8 p

def maskBytes : Nat → Nat → Bytes
  | 0, _ => []
  | n + 1, p => maskByte p :: maskBytes n (p - 8)

def ofBits (bits : List Bool) : UInt8 :=
  (bits ++ List.replicate (8 - bits.length) false).foldl (fun n b => 2 * n + if b then 1 else 0) 0

theorem maskByte_bits : ∀ n < 256, ∀ p < 9,
    (byteBits (UInt8.ofNat n &&& maskByte p)).take p = (byteBits (UInt8.ofNat n)).take p ∧
      ofBits ((byteBits (UInt8.ofNat n)).take p) = UInt8.ofNat n &&& maskByte p := by
  decide +kernel

theorem byteBits_length (b : UInt8) : (byteBits b).length = 8 := rfl

/-- Bytes that agree under the mask are those that agree in the bits. -/
theorem maskByte_iff (b c : UInt8) (p : Nat) :
    b &&& maskByte p = c &&& maskByte p ↔ (byteBits b).take p = (byteBits c).take p := by
  have hbyte : ∀ b : UInt8, UInt8.ofNat b.toNat = b := fun b => UInt8.ofNat_toNat
  have hmin : ∀ b : UInt8, (byteBits b).take p = (byteBits b).take (min p 8) := by
    intro b
    rw [← byteBits_length b, List.take_eq_take_min]
  have hmask : maskByte p = maskByte (min p 8) := by
    by_cases hp : 8 ≤ p
    · simp [maskByte, hp]
    · rw [Nat.min_eq_left (by omega)]
  have hb := maskByte_bits b.toNat b.toNat_lt (min p 8) (by omega)
  have hc := maskByte_bits c.toNat c.toNat_lt (min p 8) (by omega)
  rw [hbyte] at hb hc
  rw [hmin, hmin, hmask]
  constructor
  · intro h
    rw [← hb.1, ← hc.1, h]
  · intro h
    rw [← hb.2, ← hc.2, h]

theorem take_addrBits (x : UInt8) (xs : Bytes) (p : Nat) :
    (addrBits (x :: xs)).take p = (byteBits x).take p ++ (addrBits xs).take (p - 8) := by
  rw [addrBits, List.flatMap_cons, List.take_append, byteBits_length]
  rfl

theorem take_addrBits_iff {x y : UInt8} {xs ys : Bytes} (p : Nat) :
    (addrBits (x :: xs)).take p = (addrBits (y :: ys)).take p ↔
      x &&& maskByte p = y &&& maskByte p ∧
        (addrBits xs).take (p - 8) = (addrBits ys).take (p - 8) := by
  rw [take_addrBits, take_addrBits, maskByte_iff]
  constructor
  · intro h
    exact List.append_inj h (by simp [byteBits_length])
  · rintro ⟨hx, hxs⟩
    rw [hx, hxs]

theorem maskBytes_iff {xs ys : Bytes} (hlength : xs.length = ys.length) (p : Nat) :
    List.zipWith (· &&& ·) xs (maskBytes xs.length p) =
      List.zipWith (· &&& ·) ys (maskBytes xs.length p) ↔
        (addrBits xs).take p = (addrBits ys).take p := by
  induction xs generalizing ys p with
  | nil =>
    cases List.length_eq_zero_iff.mp hlength.symm
    simp
  | cons x xs ih =>
    cases ys with
    | nil => cases hlength
    | cons y ys =>
      rw [take_addrBits_iff, ← ih (Nat.succ.inj hlength), List.length_cons, maskBytes,
        List.zipWith_cons_cons, List.zipWith_cons_cons, List.cons.injEq]

theorem be32_mask4 : ∀ p < 33, be32 (mask4 p) = maskBytes 4 p := by decide +kernel

theorem sameNet4_iff {net addr : Bytes} (hnet : net.length = 4) (haddr : addr.length = 4)
    (p : Nat) : sameNet4 net addr p ↔ (addrBits net).take p = (addrBits addr).take p := by
  have hbits : ∀ a : Bytes, a.length = 4 → (addrBits a).take (min p 32) = (addrBits a).take p := by
    intro a ha
    have hlength : (addrBits a).length = 32 := by
      simp [addrBits, List.length_flatMap, byteBits_length, ha]
    rw [← hlength, ← List.take_eq_take_min]
  unfold sameNet4
  dsimp only
  rw [decide_eq_true_eq, be32_mask4 _ (by omega), ← hnet, maskBytes_iff (hnet.trans haddr.symm),
    hbits net hnet, hbits addr haddr]

/-- The full bytes and the bits of the one behind them. -/
theorem sameNet6_iff {net addr : Bytes} {n p : Nat} (hnet : net.length = n)
    (haddr : addr.length = n)
    (hp : p ≤ 8 * n) : (net.take (p / 8) = addr.take (p / 8) ∧ (0 < p % 8 ∧ p / 8 < n →
      byteAt net (p / 8) &&& mask8 (p % 8) = byteAt addr (p / 8) &&& mask8 (p % 8))) ↔
      (addrBits net).take p = (addrBits addr).take p := by
  induction n generalizing net addr p with
  | zero =>
    cases List.length_eq_zero_iff.mp hnet
    cases List.length_eq_zero_iff.mp haddr
    simp
  | succ n ih =>
    obtain ⟨x, xs, rfl⟩ := List.exists_cons_of_length_eq_add_one hnet
    obtain ⟨y, ys, rfl⟩ := List.exists_cons_of_length_eq_add_one haddr
    rw [take_addrBits_iff]
    by_cases h8 : 8 ≤ p
    · have hdiv : p / 8 = (p - 8) / 8 + 1 := by omega
      have hmod : p % 8 = (p - 8) % 8 := by omega
      have hfull : maskByte p = 0xFF := if_pos h8
      rw [← ih (Nat.succ.inj hnet) (Nat.succ.inj haddr) (by omega), hdiv, hmod, hfull]
      have hall : ∀ b : UInt8, b &&& 0xFF = b := fun b => UInt8.and_neg_one
      simp only [List.take_succ_cons, List.cons.injEq, byteAt, List.getD_cons_succ,
        Nat.add_lt_add_iff_right, and_assoc, hall]
    · have hdiv : p / 8 = 0 := by omega
      have hmod : p % 8 = p := by omega
      rw [hdiv, hmod, Nat.sub_eq_zero_of_le (by omega)]
      by_cases hzero : p = 0
      · subst hzero
        simp [maskByte]
      · have hmask : maskByte p = mask8 p := by
          rw [maskByte, if_neg h8, if_neg hzero]
        rw [hmask]
        simp [byteAt, Nat.pos_of_ne_zero hzero]

theorem validateIPString_cases (pton : InetPton) (s : Bytes) :
    (∃ a, validateIPString pton s = some true ∧ pton.inet (cString s) = some a ∧
      literal pton s = some a.1) ∨
    (∃ a, validateIPString pton s = some false ∧ pton.inet6 (cString s) = some a ∧
      literal pton s = some a.1) ∨
    (validateIPString pton s = none ∧ literal pton s = none) := by
  unfold literal validateIPString
  by_cases hs : s = []
  · simp [hs]
  · cases h4 : pton.inet (cString s) with
    | some a => simp [hs]
    | none =>
      cases h6 : pton.inet6 (cString s) with
      | some a => simp [hs]
      | none => simp [hs]

/-- Two texts are addresses of one family whose first `p` bits agree. -/
def SameNet (pton : InetPton) (net ip : Bytes) (p : Nat) : Prop :=
  ∃ n a, literal pton net = some n ∧ literal pton ip = some a ∧ n.length = a.length ∧
    (addrBits n).take p = (addrBits a).take p

theorem cidrContains_slash {pton : InetPton} {net ip plen : Bytes} (hnet : 47 ∉ net) :
    cidrContains pton (net ++ 47 :: plen) ip ↔
      0 ≤ atoi (cString plen) ∧ atoi (cString plen) ≤ 128 ∧
        SameNet pton net ip (atoi (cString plen)).toNat := by
  have hin : ∀ c ∈ net, decide (c ≠ 47) = true := by
    intro c hc
    exact decide_eq_true (ne_of_mem_of_not_mem hc hnet)
  have htake : (net ++ 47 :: plen).takeWhile (· ≠ 47) = net := by
    rw [List.takeWhile_append_of_pos hin]
    simp
  have hdrop : ((net ++ 47 :: plen).dropWhile (· ≠ 47)).drop 1 = plen := by
    rw [List.dropWhile_append_of_pos hin]
    simp
  unfold cidrContains
  rw [if_neg (by simp), if_pos (by simp), htake, hdrop]
  dsimp only
  generalize atoi (cString plen) = p
  by_cases hp : p < 0 ∨ 128 < p
  · rw [if_pos hp]
    refine iff_of_false Bool.false_ne_true ?_
    rintro ⟨h0, h128, -⟩
    omega
  · rw [if_neg hp]
    have hrange : 0 ≤ p ∧ p ≤ 128 := by omega
    rw [← and_assoc, and_iff_right hrange, SameNet]
    rcases validateIPString_cases pton net with ⟨n, hvn, hn, hln⟩ | ⟨n, hvn, hn, hln⟩ | ⟨hvn, hln⟩
    · rcases validateIPString_cases pton ip with ⟨a, hva, ha, hla⟩ | ⟨a, hva, ha, hla⟩ | ⟨hva, hla⟩
      · simp [hvn, hva, hn, ha, hln, hla, sameNet4_iff n.2 a.2, n.2, a.2]
      · simp [hvn, hva, hln, hla, n.2, a.2]
      · simp [hvn, hva, hla]
    · rcases validateIPString_cases pton ip with ⟨a, hva, ha, hla⟩ | ⟨a, hva, ha, hla⟩ | ⟨hva, hla⟩
      · simp [hvn, hva, hln, hla, n.2, a.2]
      · have hbits := sameNet6_iff n.2 a.2 (show p.toNat ≤ 8 * 16 by omega)
        simp only [hvn, hva, hn, ha, sameNet6, decide_eq_true_eq, hbits]
        simp [hln, hla, n.2, a.2]
      · simp [hvn, hva, hla]
    · simp [hvn, hln]

/-- A number is read as it is written. -/
theorem atoi_decimal {digits : Bytes} (h : ∀ c ∈ digits, isDigit c) :
    atoi (cString digits) = decimal digits := by
  have hstring : cString digits = digits := by
    refine List.takeWhile_eq_self_iff.mpr ?_
    intro c hc
    refine decide_eq_true ?_
    rintro rfl
    exact absurd (h 0 hc) (by decide)
  cases digits with
  | nil => rfl
  | cons c cs =>
    have hc := h c List.mem_cons_self
    have hspace : ¬ (c = 32 ∨ 9 ≤ c ∧ c ≤ 13) := by
      have := (of_decide_eq_true hc).1
      rintro (rfl | hle)
      · exact absurd hc (by decide)
      · exact absurd (UInt8.le_trans this hle.2) (by decide)
    rw [hstring, atoi, List.dropWhile_cons_of_neg (by simpa using hspace)]
    split
    · rename_i heq
      cases heq
      exact absurd hc (by decide)
    · rename_i heq
      cases heq
      exact absurd hc (by decide)
    · rw [List.takeWhile_eq_self_iff.mpr h]

/-- A filter that is not empty lets through what is in its network. A prefix length above 32
takes all bits of an IPv4 address. -/
theorem cidr_matching (pton : InetPton) (ip : Bytes) :
    cidrContains pton [] ip ∧ (∀ cidr, cidr ≠ [] → 47 ∉ cidr → ¬ cidrContains pton cidr ip) ∧
    ∀ net plen, 47 ∉ net → plen ≠ [] → (∀ c ∈ plen, isDigit c) → decimal plen < 2 ^ 31 →
      (cidrContains pton (net ++ 47 :: plen) ip ↔
        decimal plen ≤ 128 ∧ SameNet pton net ip (decimal plen)) := by
  refine ⟨rfl, ?_, ?_⟩
  · intro cidr hne hslash
    rw [cidrContains, if_neg hne, if_neg hslash]
    exact Bool.false_ne_true
  · intro net plen hnet _ hdigits _
    rw [cidrContains_slash hnet, atoi_decimal hdigits, Int.toNat_natCast]
    constructor
    · rintro ⟨-, h128, hsame⟩
      exact ⟨by omega, hsame⟩
    · rintro ⟨h128, hsame⟩
      exact ⟨by omega, by omega, hsame⟩

/-- What `inet_pton` says of two texts. -/
def twoTexts : InetPton :=
  ⟨fun s => if s = ascii "10.0.0.1" then some ⟨[10, 0, 0, 1], rfl⟩ else none,
    fun s => if s = ascii "::1" then some ⟨List.replicate 15 0 ++ [1], rfl⟩ else none⟩

/-- A prefix length of 33 lets an IPv4 address through. -/
theorem cidr_above_32 : cidrContains twoTexts (ascii "10.0.0.1/33") (ascii "10.0.0.1") := by
  decide +kernel

/-! ## Rules -/

inductive AddressRewriteMode
  | unspecified | replace | append
  deriving DecidableEq, Repr

structure AddressRewriteRule where
  external : List Bytes
  localAddr : Bytes
  iface : Bytes
  cidr : Bytes
  asCandidateType : CandidateType
  mode : AddressRewriteMode
  deriving DecidableEq, Repr

structure RewriteResult where
  externalIPs : List Bytes := []
  matched : Bool := false
  mode : AddressRewriteMode := .unspecified
  deriving DecidableEq, Repr

structure CompiledRule where
  rule : AddressRewriteRule
  mode : AddressRewriteMode
  externalIPv4 : List Bytes := []
  externalIPv6 : List Bytes := []
  catchAllSet : Bool := false
  localMap : List (Bytes × List Bytes) := []
  cidr : Bytes
  deriving DecidableEq, Repr

def defaultRewriteMode : CandidateType → AddressRewriteMode
  | .serverReflexive | .relayed => .append
  | _ => .replace

def isBlank (c : UInt8) : Bool := c = 32 ∨ c = 9 ∨ c = 13 ∨ c = 10

def trim (s : Bytes) : Bytes := ((s.dropWhile isBlank).reverse.dropWhile isBlank).reverse

/-- `v` is added to the list of the first entry of `k`, or to a new one at the end. -/
def pushUnder {κ α : Type} [DecidableEq κ] (k : κ) (v : α) :
    List (κ × List α) → List (κ × List α)
  | [] => [(k, [v])]
  | e :: t => if e.1 = k then (e.1, e.2 ++ [v]) :: t else e :: pushUnder k v t

/-- The family of the addresses a rule takes: that of its local address, of its network or, if it
has neither, any. -/
def targetFamily (pton : InetPton) (cidr : Bytes) (local4 : Option Bool) : Option Bool :=
  local4.or (if cidr = [] then none else validateIPString pton (cidr.takeWhile (· ≠ 47)))

/-- One round of the loop over the external addresses; the flag is `added`. -/
def addExternal (pton : InetPton) (trimmedLocal : Bytes) (local4 : Option Bool)
    (st : CompiledRule × Bool) (raw : Bytes) : CompiledRule × Bool :=
  let extIP := trim raw
  if extIP = [] then st
  else match validateIPString pton extIP with
    | none => st
    | some isExtIPv4 =>
      if (targetFamily pton st.1.cidr local4).getD isExtIPv4 ≠ isExtIPv4 then st
      else if local4.isSome then
        ({ st.1 with localMap := pushUnder trimmedLocal extIP st.1.localMap }, true)
      else if isExtIPv4 then
        ({ st.1 with externalIPv4 := st.1.externalIPv4 ++ [extIP], catchAllSet := true }, true)
      else ({ st.1 with externalIPv6 := st.1.externalIPv6 ++ [extIP], catchAllSet := true }, true)

def AddressRewriteRule.type (rule : AddressRewriteRule) : CandidateType :=
  if rule.asCandidateType = .unknown then .host else rule.asCandidateType

def AddressRewriteRule.effectiveMode (rule : AddressRewriteRule) : AddressRewriteMode :=
  if rule.mode = .unspecified then defaultRewriteMode rule.type else rule.mode

/-- The body of the loop of `build`; `none` where the rule is passed over. -/
def compileRule (pton : InetPton) (rule : AddressRewriteRule) : Option CompiledRule :=
  if rule.type = .peerReflexive then none
  else
    let trimmedLocal := trim rule.localAddr
    let local4 := validateIPString pton trimmedLocal
    if trimmedLocal ≠ [] ∧ local4 = none then none
    else
      let (cr, added) := rule.external.foldl (addExternal pton trimmedLocal local4)
        ({ rule, mode := rule.effectiveMode, cidr := rule.cidr }, false)
      some (if added then cr
        else if trimmedLocal ≠ [] then { cr with localMap := cr.localMap ++ [(trimmedLocal, [])] }
        else { cr with catchAllSet := true })

abbrev AddressRewriteMapper := List (CandidateType × List CompiledRule)

def AddressRewriteMapper.build (pton : InetPton) (rules : List AddressRewriteRule) :
    AddressRewriteMapper × Bool :=
  let table := rules.foldl (fun table rule => match compileRule pton rule with
    | some cr => pushUnder rule.type cr table
    | none => table) []
  (table, table ≠ [])

def AddressRewriteMapper.rulesFor (m : AddressRewriteMapper) (ct : CandidateType) :
    Option (List CompiledRule) := (m.find? (·.1 = ct)).map (·.2)

def AddressRewriteRule.specificity (rule : AddressRewriteRule) : Nat :=
  if rule.iface ≠ [] then if rule.cidr ≠ [] then 3 else 2
  else if rule.cidr ≠ [] then 1 else 0

/-- The loop of `findExternalIPs`, with the best catch-all so far. -/
def scanRules (pton : InetPton) (localIP iface : Bytes) (localIsIPv4 : Bool) :
    Option (List Bytes × AddressRewriteMode × Nat) → List CompiledRule → RewriteResult
  | none, [] => {}
  | some (catchAll, mode, _), [] => ⟨catchAll, true, mode⟩
  | best, rule :: rules =>
    if rule.rule.iface ≠ [] ∧ rule.rule.iface ≠ iface then
      scanRules pton localIP iface localIsIPv4 best rules
    else if rule.cidr ≠ [] ∧ ¬ cidrContains pton rule.cidr localIP then
      scanRules pton localIP iface localIsIPv4 best rules
    else match rule.localMap.find? (·.1 = localIP) with
      | some kv => ⟨kv.2, true, rule.mode⟩
      | none =>
        let spec := rule.rule.specificity
        scanRules pton localIP iface localIsIPv4
          (if rule.catchAllSet ∧ ∀ b ∈ best, b.2.2 < spec then
            some (if localIsIPv4 then rule.externalIPv4 else rule.externalIPv6, rule.mode, spec)
          else best) rules

def AddressRewriteMapper.findExternalIPs (pton : InetPton) (m : AddressRewriteMapper)
    (ct : CandidateType) (localIP iface : Bytes) : RewriteResult :=
  match m.rulesFor ct, validateIPString pton localIP with
  | some rules, some localIsIPv4 => scanRules pton localIP iface localIsIPv4 none rules
  | _, _ => {}

/-! ## The documented choice -/

/-- The addresses of one family a rule is configured with. -/
def externalsOf (pton : InetPton) (isIPv4 : Bool) (external : List Bytes) : List Bytes :=
  (external.map trim).filter fun e => validateIPString pton e = some isIPv4

/-- A rule for the type whose filters let the address through. -/
def AddressRewriteRule.applicable (pton : InetPton) (ct : CandidateType) (localIP iface : Bytes)
    (rule : AddressRewriteRule) : Bool :=
  rule.type = ct ∧ rule.type ≠ .peerReflexive ∧
    (trim rule.localAddr = [] ∨ validateIPString pton (trim rule.localAddr) ≠ none) ∧
    (rule.iface = [] ∨ rule.iface = iface) ∧
    (rule.cidr = [] ∨ cidrContains pton rule.cidr localIP)

/-- The first rule for this address, else the first of the most specific ones for any. -/
def winner (pton : InetPton) (ct : CandidateType) (localIP iface : Bytes)
    (rules : List AddressRewriteRule) : Option AddressRewriteRule :=
  let rules := rules.filter (·.applicable pton ct localIP iface)
  (rules.find? fun r => trim r.localAddr = localIP).or
    ((rules.filter fun r => trim r.localAddr = []).argmax AddressRewriteRule.specificity)

def resultOf (pton : InetPton) (isIPv4 : Bool) : Option AddressRewriteRule → RewriteResult
  | some rule => ⟨externalsOf pton isIPv4 rule.external, true, rule.effectiveMode⟩
  | none => {}

section
variable {pton : InetPton} {rule : AddressRewriteRule} {cr : CompiledRule} {localIP iface : Bytes}
  {ct : CandidateType} {isIPv4 : Bool}

theorem externalsOf_concat (external : List Bytes) (raw : Bytes) :
    externalsOf pton isIPv4 (external ++ [raw]) = externalsOf pton isIPv4 external ++
      if validateIPString pton (trim raw) = some isIPv4 then [trim raw] else [] := by
  simp [externalsOf, List.filter_cons]

theorem validateIPString_nil : validateIPString pton [] = none := if_pos rfl

/-- What a rule for one address has when it takes in `es`. -/
def CompiledRule.mapping (cr : CompiledRule) (key : Bytes) (es : List Bytes) :
    CompiledRule × Bool :=
  ({ cr with localMap := if es = [] then [] else [(key, es)] }, es ≠ [])

/-- What a rule for any address has when it takes in `es4` and `es6`. -/
def CompiledRule.catching (cr : CompiledRule) (es4 es6 : List Bytes) : CompiledRule × Bool :=
  ({ cr with externalIPv4 := es4, externalIPv6 := es6, catchAllSet := es4 ≠ [] ∨ es6 ≠ [] },
    es4 ≠ [] ∨ es6 ≠ [])

theorem CompiledRule.mapping_push (cr : CompiledRule) (key e : Bytes) (es : List Bytes) :
    ({ (cr.mapping key es).1 with localMap := pushUnder key e (cr.mapping key es).1.localMap },
      true) = cr.mapping key (es ++ [e]) := by
  cases es with
  | nil => simp [mapping, pushUnder]
  | cons e' es => simp [mapping, pushUnder]

theorem foldl_addExternal_local {key : Bytes} (external : List Bytes) :
    external.foldl (addExternal pton key (some isIPv4)) (cr.mapping key []) =
      cr.mapping key (externalsOf pton isIPv4 external) := by
  induction external using List.reverseRecOn with
  | nil => rfl
  | append_singleton external raw ih =>
    rw [List.foldl_append, ih, List.foldl_cons, List.foldl_nil, externalsOf_concat]
    unfold addExternal
    by_cases hblank : trim raw = []
    · simp [hblank, validateIPString_nil]
    · cases hvalid : validateIPString pton (trim raw) with
      | none => simp [hblank, hvalid]
      | some is4 =>
        by_cases hsame : isIPv4 = is4
        · subst hsame
          simp [hblank, hvalid, targetFamily, CompiledRule.mapping_push]
        · simp [hblank, hvalid, targetFamily, hsame, Ne.symm hsame]

/-- A rule for any address keeps the addresses of its family, or of both. -/
theorem foldl_addExternal_any {key : Bytes} (external : List Bytes) :
    external.foldl (addExternal pton key none) (cr.catching [] []) =
      cr.catching
        (if targetFamily pton cr.cidr none = some false then [] else externalsOf pton true external)
        (if targetFamily pton cr.cidr none = some true then []
          else externalsOf pton false external) := by
  induction external using List.reverseRecOn with
  | nil => simp [externalsOf]
  | append_singleton external raw ih =>
    rw [List.foldl_append, ih, List.foldl_cons, List.foldl_nil, externalsOf_concat,
      externalsOf_concat]
    unfold addExternal
    by_cases hblank : trim raw = []
    · simp [hblank, validateIPString_nil]
    · cases hvalid : validateIPString pton (trim raw) with
      | none => simp [hblank, hvalid]
      | some is4 =>
        cases hfamily : targetFamily pton cr.cidr none with
        | none =>
          cases is4 <;> simp [hblank, hvalid, hfamily, CompiledRule.catching]
        | some family =>
          cases family <;> cases is4 <;>
            simp [hblank, hvalid, hfamily, CompiledRule.catching]

theorem compileRule_local (htype : rule.type ≠ .peerReflexive)
    (hvalid : validateIPString pton (trim rule.localAddr) = some isIPv4) :
    compileRule pton rule = some {
      rule, mode := rule.effectiveMode, cidr := rule.cidr
      localMap := [(trim rule.localAddr, externalsOf pton isIPv4 rule.external)] } := by
  have hlocal : trim rule.localAddr ≠ [] := by
    intro h
    rw [h, validateIPString_nil] at hvalid
    cases hvalid
  have hfold := @foldl_addExternal_local pton
    { rule, mode := rule.effectiveMode, cidr := rule.cidr } isIPv4 (trim rule.localAddr)
    rule.external
  simp only [CompiledRule.mapping, if_true, ne_eq, not_true_eq_false, decide_false] at hfold
  unfold compileRule
  rw [if_neg htype]
  simp only [hvalid, hfold]
  cases externalsOf pton isIPv4 rule.external <;> simp [hlocal]

theorem compileRule_any (htype : rule.type ≠ .peerReflexive) (hlocal : trim rule.localAddr = []) :
    compileRule pton rule = some {
      rule, mode := rule.effectiveMode, cidr := rule.cidr, catchAllSet := true
      externalIPv4 := if targetFamily pton rule.cidr none = some false then []
        else externalsOf pton true rule.external
      externalIPv6 := if targetFamily pton rule.cidr none = some true then []
        else externalsOf pton false rule.external } := by
  have hfold := @foldl_addExternal_any pton
    { rule, mode := rule.effectiveMode, cidr := rule.cidr } [] rule.external
  simp only [CompiledRule.catching, ne_eq, not_true_eq_false, or_self, decide_false] at hfold
  unfold compileRule
  rw [if_neg htype]
  simp only [hlocal, validateIPString_nil, hfold]
  generalize (if targetFamily pton rule.cidr none = some false then []
    else externalsOf pton true rule.external) = es4
  generalize (if targetFamily pton rule.cidr none = some true then []
    else externalsOf pton false rule.external) = es6
  cases es4 <;> cases es6 <;> simp

/-- A network that an address is in has its family. -/
theorem targetFamily_of_contains {cidr : Bytes} (hcidr : cidr = [] ∨ cidrContains pton cidr localIP)
    (hvalid : validateIPString pton localIP = some isIPv4) :
    targetFamily pton cidr none = none ∨ targetFamily pton cidr none = some isIPv4 := by
  by_cases hempty : cidr = []
  · left
    simp [targetFamily, hempty]
  · right
    have h := hcidr.resolve_left hempty
    unfold cidrContains at h
    rw [if_neg hempty] at h
    split at h
    · dsimp only at h
      split at h
      · cases h
      · rw [hvalid] at h
        simp only [targetFamily, if_neg hempty, Option.none_or]
        split at h
        · rename_i hnet hip
          rw [hnet, hip]
        · rename_i hnet hip
          rw [hnet, hip]
        · cases h
    · cases h

/-- What `findExternalIPs` keeps of a rule for any address. -/
def AddressRewriteRule.offer (pton : InetPton) (isIPv4 : Bool) (rule : AddressRewriteRule) :
    List Bytes × AddressRewriteMode × Nat :=
  (externalsOf pton isIPv4 rule.external, rule.effectiveMode, rule.specificity)

/-- The rule that wins when `best` is the best catch-all so far. -/
def winnerFrom (localIP : Bytes) (best : Option AddressRewriteRule)
    (rules : List AddressRewriteRule) : Option AddressRewriteRule :=
  (rules.find? fun r => trim r.localAddr = localIP).or
    ((rules.filter fun r => trim r.localAddr = []).foldl
      (List.argAux fun b c => AddressRewriteRule.specificity c < AddressRewriteRule.specificity b)
      best)

/-- The compiled rules of a type. -/
def compiledFor (pton : InetPton) (ct : CandidateType) (rules : List AddressRewriteRule) :
    List CompiledRule :=
  rules.filterMap fun r => if r.type = ct then compileRule pton r else none

/-- The filters of a rule. -/
def AddressRewriteRule.passes (pton : InetPton) (localIP iface : Bytes)
    (rule : AddressRewriteRule) : Prop :=
  (rule.iface = [] ∨ rule.iface = iface) ∧ (rule.cidr = [] ∨ cidrContains pton rule.cidr localIP)

theorem scanRules_skip {best : Option (List Bytes × AddressRewriteMode × Nat)}
    {rules : List CompiledRule} (hcidr : cr.cidr = cr.rule.cidr)
    (h : ¬ cr.rule.passes pton localIP iface) :
    scanRules pton localIP iface isIPv4 best (cr :: rules) =
      scanRules pton localIP iface isIPv4 best rules := by
  rw [scanRules]
  split
  · rfl
  · rename_i hiface
    rw [if_pos]
    rw [hcidr]
    rw [not_and_or, not_not, not_not] at hiface
    exact not_or.mp fun hor => h ⟨hiface, hor⟩

theorem scanRules_take {best : Option (List Bytes × AddressRewriteMode × Nat)}
    {rules : List CompiledRule} (hcidr : cr.cidr = cr.rule.cidr)
    (h : cr.rule.passes pton localIP iface) :
    scanRules pton localIP iface isIPv4 best (cr :: rules) =
      match cr.localMap.find? (·.1 = localIP) with
      | some kv => ⟨kv.2, true, cr.mode⟩
      | none => scanRules pton localIP iface isIPv4
          (if cr.catchAllSet ∧ ∀ b ∈ best, b.2.2 < cr.rule.specificity then
            some (if isIPv4 then cr.externalIPv4 else cr.externalIPv6, cr.mode,
              cr.rule.specificity)
          else best) rules := by
  rw [scanRules, if_neg, if_neg]
  · rw [hcidr]
    rintro ⟨hne, hout⟩
    exact h.2.elim hne hout
  · rintro ⟨hne, hother⟩
    exact h.1.elim hne hother

/-- A rule for any address replaces a best one that is less specific. -/
theorem offer_argAux (hvalid : validateIPString pton localIP = some isIPv4)
    (hpasses : rule.passes pton localIP iface) (best : Option AddressRewriteRule) :
    (if true = true ∧ ∀ b ∈ best.map (·.offer pton isIPv4), b.2.2 < rule.specificity then
      some (if isIPv4 then
          if targetFamily pton rule.cidr none = some false then []
          else externalsOf pton true rule.external
        else if targetFamily pton rule.cidr none = some true then []
          else externalsOf pton false rule.external, rule.effectiveMode, rule.specificity)
      else best.map (·.offer pton isIPv4)) =
    (List.argAux (fun b c => AddressRewriteRule.specificity c < AddressRewriteRule.specificity b)
      best rule).map (·.offer pton isIPv4) := by
  have hlist : (if isIPv4 then
        if targetFamily pton rule.cidr none = some false then []
        else externalsOf pton true rule.external
      else if targetFamily pton rule.cidr none = some true then []
        else externalsOf pton false rule.external) = externalsOf pton isIPv4 rule.external := by
    rcases targetFamily_of_contains hpasses.2 hvalid with h | h
    · cases isIPv4 <;> simp [h]
    · cases isIPv4 <;> simp [h]
  rw [hlist]
  cases best with
  | none => simp [List.argAux, AddressRewriteRule.offer]
  | some b =>
    simp only [List.argAux, AddressRewriteRule.offer, Option.map_some, Option.mem_def,
      Option.some.injEq, forall_eq', true_and]
    split <;> rfl

theorem winnerFrom_any (hvalid : validateIPString pton localIP = some isIPv4)
    (hblank : trim rule.localAddr = []) (best : Option AddressRewriteRule)
    (rules : List AddressRewriteRule) :
    winnerFrom localIP best (rule :: rules) = winnerFrom localIP
      (List.argAux (fun b c => AddressRewriteRule.specificity c < AddressRewriteRule.specificity b)
        best rule) rules := by
  have hother : [] ≠ localIP := by
    rintro rfl
    rw [validateIPString_nil] at hvalid
    cases hvalid
  simp [winnerFrom, hblank, hother]

theorem scanRules_eq (hvalid : validateIPString pton localIP = some isIPv4)
    (rules : List AddressRewriteRule) (best : Option AddressRewriteRule) :
    scanRules pton localIP iface isIPv4 (best.map (·.offer pton isIPv4))
      (compiledFor pton ct rules) =
      resultOf pton isIPv4
        (winnerFrom localIP best (rules.filter (·.applicable pton ct localIP iface))) := by
  induction rules generalizing best with
  | nil =>
    cases best <;> rfl
  | cons rule rules ih =>
    by_cases htype : rule.type = ct ∧ rule.type ≠ .peerReflexive
    · have happlicable : rule.applicable pton ct localIP iface ↔
          (trim rule.localAddr = [] ∨ validateIPString pton (trim rule.localAddr) ≠ none) ∧
            rule.passes pton localIP iface := by
        rw [AddressRewriteRule.applicable, decide_eq_true_eq, and_iff_right htype.1,
          and_iff_right htype.2, AddressRewriteRule.passes]
      have hcompiled : ∀ cr, compileRule pton rule = some cr →
          compiledFor pton ct (rule :: rules) = cr :: compiledFor pton ct rules := by
        intro cr hcr
        exact List.filterMap_cons_some (by rw [if_pos htype.1, hcr])
      by_cases hblank : trim rule.localAddr = []
      · rw [hcompiled _ (compileRule_any htype.2 hblank)]
        by_cases hpasses : rule.passes pton localIP iface
        · rw [scanRules_take rfl hpasses,
            List.filter_cons_of_pos (happlicable.mpr ⟨.inl hblank, hpasses⟩),
            winnerFrom_any hvalid hblank, ← ih]
          exact congrArg (scanRules pton localIP iface isIPv4 · _)
            (offer_argAux hvalid hpasses best)
        · rw [scanRules_skip rfl hpasses, ih,
            List.filter_cons_of_neg fun h => hpasses (happlicable.mp h).2]
      · cases hlocal : validateIPString pton (trim rule.localAddr) with
        | none =>
          have hnone : compileRule pton rule = none := by
            rw [compileRule, if_neg htype.2]
            exact if_pos ⟨hblank, hlocal⟩
          have hskip : compiledFor pton ct (rule :: rules) = compiledFor pton ct rules :=
            List.filterMap_cons_none (by rw [if_pos htype.1, hnone])
          have hnot : ¬ rule.applicable pton ct localIP iface := by
            rw [happlicable, hlocal]
            rintro ⟨hor, -⟩
            exact hor.elim hblank fun h => h rfl
          rw [hskip, List.filter_cons_of_neg hnot, ih]
        | some local4 =>
          rw [hcompiled _ (compileRule_local htype.2 hlocal)]
          by_cases hpasses : rule.passes pton localIP iface
          · have hin : rule.applicable pton ct localIP iface :=
              happlicable.mpr ⟨.inr (by rw [hlocal]; exact Option.some_ne_none _), hpasses⟩
            rw [scanRules_take rfl hpasses, List.filter_cons_of_pos hin]
            by_cases hown : trim rule.localAddr = localIP
            · rw [hown, hvalid] at hlocal
              cases hlocal
              simp [winnerFrom, hown, resultOf]
            · have hother : winnerFrom localIP best (rule :: rules.filter
                  (·.applicable pton ct localIP iface)) = winnerFrom localIP best
                    (rules.filter (·.applicable pton ct localIP iface)) := by
                simp [winnerFrom, hown, hblank]
              rw [hother, ← ih]
              simp [hown]
          · rw [scanRules_skip rfl hpasses, ih,
              List.filter_cons_of_neg fun h => hpasses (happlicable.mp h).2]
    · have hcompiled : compiledFor pton ct (rule :: rules) = compiledFor pton ct rules := by
        refine List.filterMap_cons_none ?_
        split
        · rename_i hct
          rw [compileRule, if_pos (not_not.mp fun h => htype ⟨hct, h⟩)]
        · rfl
      have hnot : ¬ rule.applicable pton ct localIP iface := by
        intro h
        have h := of_decide_eq_true h
        exact htype ⟨h.1, h.2.1⟩
      rw [hcompiled, List.filter_cons_of_neg hnot, ih]

end

theorem find?_pushUnder {κ α : Type} [DecidableEq κ] (k k' : κ) (v : α) (t : List (κ × List α)) :
    ((pushUnder k v t).find? (·.1 = k')).map (·.2) =
      if k = k' then some (((t.find? (·.1 = k')).map (·.2)).getD [] ++ [v])
      else (t.find? (·.1 = k')).map (·.2) := by
  induction t with
  | nil => by_cases hk : k = k' <;> simp [pushUnder, hk]
  | cons e t ih =>
    unfold pushUnder
    by_cases he : e.1 = k
    · by_cases hk : k = k' <;> simp [he, hk]
    · by_cases he' : e.1 = k'
      · have hk : k ≠ k' := fun h => he (he'.trans h.symm)
        simp [he', hk, Ne.symm hk]
      · simpa [he, he'] using ih

/-- `build` sorts the compiled rules by their type. -/
theorem rulesFor_build (pton : InetPton) (rules : List AddressRewriteRule) (ct : CandidateType) :
    ((AddressRewriteMapper.build pton rules).1.rulesFor ct).getD [] =
      compiledFor pton ct rules := by
  induction rules using List.reverseRecOn with
  | nil => rfl
  | append_singleton rules rule ih =>
    simp only [AddressRewriteMapper.build, AddressRewriteMapper.rulesFor] at ih ⊢
    rw [List.foldl_append, List.foldl_cons, List.foldl_nil, compiledFor, List.filterMap_append,
      ← compiledFor, ← ih]
    cases hcr : compileRule pton rule with
    | none => simp [hcr]
    | some cr =>
      simp only [find?_pushUnder]
      by_cases htype : rule.type = ct <;> simp [htype, hcr]

/-- The choice is the documented one. An empty list is reported for rules with an empty list
alone exactly if the winner, where it has a list, has an address of the right family in it. -/
theorem address_rewriting (pton : InetPton) (rules : List AddressRewriteRule) (ct : CandidateType)
    {localIP : Bytes} (iface : Bytes) {isIPv4 : Bool}
    (hvalid : validateIPString pton localIP = some isIPv4) :
    let result := (AddressRewriteMapper.build pton rules).1.findExternalIPs pton ct localIP iface
    let won := winner pton ct localIP iface rules
    result = resultOf pton isIPv4 won ∧
    ((result.matched ∧ result.externalIPs = [] → ∃ rule, won = some rule ∧ rule.external = []) ↔
      ∀ rule, won = some rule → rule.external = [] ∨
        ∃ e ∈ rule.external, validateIPString pton (trim e) = some isIPv4) := by
  dsimp only
  have hresult : (AddressRewriteMapper.build pton rules).1.findExternalIPs pton ct localIP iface =
      resultOf pton isIPv4 (winner pton ct localIP iface rules) := by
    have hscan : scanRules pton localIP iface isIPv4 none (compiledFor pton ct rules) =
        resultOf pton isIPv4 (winner pton ct localIP iface rules) := scanRules_eq hvalid rules none
    rw [← hscan, ← rulesFor_build, AddressRewriteMapper.findExternalIPs, hvalid]
    cases (AddressRewriteMapper.build pton rules).1.rulesFor ct <;> rfl
  refine ⟨hresult, ?_⟩
  rw [hresult]
  cases winner pton ct localIP iface rules with
  | none => simp [resultOf]
  | some rule =>
    have hnil : externalsOf pton isIPv4 rule.external = [] ↔
        ¬ ∃ e ∈ rule.external, validateIPString pton (trim e) = some isIPv4 := by
      simp [externalsOf, List.filter_eq_nil_iff]
    simp only [resultOf, true_and, hnil, Option.some.injEq, exists_eq_left', forall_eq']
    rw [← or_iff_not_imp_left, or_comm]

/-- A rule for any host candidate. -/
def hostRule (external : List Bytes) : AddressRewriteRule :=
  ⟨external, [], [], [], .host, .unspecified⟩

theorem address_rewriting_mapped :
    (AddressRewriteMapper.build twoTexts [hostRule [ascii " 10.0.0.1"]]).1.findExternalIPs twoTexts
      .host (ascii "10.0.0.1") [] = resultOf twoTexts true
        (winner twoTexts .host (ascii "10.0.0.1") [] [hostRule [ascii " 10.0.0.1"]]) :=
  (@address_rewriting twoTexts [hostRule [ascii " 10.0.0.1"]] .host (ascii "10.0.0.1") [] true
    (by decide +kernel)).1

/-- A rule with an IPv6 address drops the IPv4 candidates. -/
theorem other_family_drops :
    (AddressRewriteMapper.build twoTexts [hostRule [ascii "::1"]]).1.findExternalIPs twoTexts
      .host (ascii "10.0.0.1") [] = ⟨[], true, .replace⟩ := by
  decide +kernel

end Stice.Ice
