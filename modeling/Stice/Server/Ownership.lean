import Stice.Server.Connections
import Stice.Server.Ports

/-! Ownership of allocations. Every pointer in a lookup map points to a live
allocation that `allocations_` owns under its own key and that knows the entry, so
that `destroyAllocation` finds every entry to erase. Each operation on the tables
keeps this. -/
namespace Stice.Server
open Std Net Stun Turn Lib

/-- `p` points to a live allocation with the property `Q`. -/
def Tables.Holds (t : Tables) (p : Ptr) (Q : Allocation → Prop) : Prop :=
  ∃ a, t.heap[p]? = some a ∧ Q a

/-- The invariant, with at most one port reserved for an allocation that is being
made. -/
structure Owned (cfg : Config) (reserved : Option UInt16) (t : Tables) : Prop where
  own : ∀ {p : Ptr} {a : Allocation}, t.heap[p]? = some a →
    t.allocations[a.key cfg]? = some p ∧ t.usedRelayPorts[a.relayPort]? = some (some p) ∧
      p < t.nextPtr
  control : ∀ {p : Ptr} {a : Allocation}, t.heap[p]? = some a → a.controlSock ≠ invalidSocket →
    t.allocByControlSock[a.controlSock]? = some p
  entry : ∀ {k : Bytes} {p : Ptr}, t.allocations[k]? = some p → t.Holds p fun a => a.key cfg = k
  relaySock : ∀ {h : Socket} {p : Ptr}, t.allocByRelaySock[h]? = some p →
    t.Holds p fun a => a.relaySock = h
  relayAddr : ∀ {k : Bytes} {p : Ptr}, t.allocByRelayAddr[k]? = some p →
    t.Holds p fun a => a.relayedAddr.key = k
  clientAddr : ∀ {k : Bytes} {p : Ptr}, t.allocByClientAddr[k]? = some p →
    t.Holds p fun a => a.clientAddr.key = k
  controlSock : ∀ {h : Socket} {p : Ptr}, t.allocByControlSock[h]? = some p → h ≠ invalidSocket →
    t.Holds p fun a => a.controlSock = h
  invalid : t.allocByControlSock[invalidSocket]? = none
  pending : ∀ {id : UInt32} {p : Ptr}, t.pendingByConnId[id]? = some p →
    t.Holds p fun a => id ∈ a.pendingConnects.map PendingConnect.connId
  port : ∀ {n : UInt16} {o : Option Ptr}, t.usedRelayPorts[n]? = some o →
    o = none ∧ reserved = some n ∨ ∃ p, o = some p ∧ t.Holds p fun a => a.relayPort = n
  reservation : ∀ {n : UInt16}, reserved = some n → t.usedRelayPorts[n]? = some none

/-- What the tables know an allocation by. -/
structure SameIdentity (a b : Allocation) : Prop where
  transport : b.transport = a.transport
  clientAddr : b.clientAddr = a.clientAddr
  controlSock : b.controlSock = a.controlSock
  relaySock : b.relaySock = a.relaySock
  relayedAddr : b.relayedAddr = a.relayedAddr
  relayPort : b.relayPort = a.relayPort

theorem SameIdentity.refl (a : Allocation) : SameIdentity a a := ⟨rfl, rfl, rfl, rfl, rfl, rfl⟩

theorem SameIdentity.key {a b : Allocation} (h : SameIdentity a b) (cfg : Config) :
    b.key cfg = a.key cfg := by
  rw [Allocation.key, Allocation.key, h.transport, h.clientAddr]

variable {cfg : Config} {t : Tables} {r : Option UInt16} {p q : Ptr}

theorem Tables.Holds.modify {Q R : Allocation → Prop} (h : t.Holds q Q)
    {f : Allocation → Allocation}
    (hother : ∀ a, q ≠ p → Q a → R a) (hf : ∀ a, q = p → Q a → R (f a)) :
    Tables.Holds { t with heap := t.heap.modify p f } q R := by
  obtain ⟨a, ha, hQ⟩ := h
  exact getElem?_modify_of_some ha p f (fun hq => hother a hq hQ) (fun hq => hf a hq hQ)

theorem Tables.deref_of_holds {Q : Allocation → Prop} (h : t.Holds p Q) :
    (t.deref (some p)).map Prod.fst = some p := by
  obtain ⟨a, ha, -⟩ := h
  simp [deref, ha]

/-- Changing what an allocation holds keeps the tables, as long as the ids that
`pendingByConnId_` maps to it stay among its pending connects. -/
theorem Owned.modify (h : Owned cfg r t) (p : Ptr) {f : Allocation → Allocation}
    {pending : TreeMap UInt32 Ptr} (hf : ∀ a, SameIdentity a (f a))
    (hpending : ∀ id q, pending[id]? = some q →
      Tables.Holds { t with heap := t.heap.modify p f } q
        fun a => id ∈ a.pendingConnects.map PendingConnect.connId) :
    Owned cfg r { t with heap := t.heap.modify p f, pendingByConnId := pending } := by
  constructor
  case own =>
    intro q b hb
    obtain ⟨a, ha, ⟨-, rfl⟩ | ⟨-, rfl⟩⟩ := getElem?_modify_some hb
    · rw [(hf a).key cfg, (hf a).relayPort]
      exact h.own ha
    · exact h.own ha
  case control =>
    intro q b hb
    obtain ⟨a, ha, ⟨-, rfl⟩ | ⟨-, rfl⟩⟩ := getElem?_modify_some hb
    · rw [(hf a).controlSock]
      exact h.control ha
    · exact h.control ha
  case entry =>
    exact fun hk => (h.entry hk).modify (fun _ _ e => e) fun a _ e => ((hf a).key cfg).trans e
  case relaySock =>
    exact fun hk => (h.relaySock hk).modify (fun _ _ e => e) fun a _ e => (hf a).relaySock.trans e
  case relayAddr =>
    exact fun hk => (h.relayAddr hk).modify (fun _ _ e => e)
      fun a _ e => (congrArg _ (hf a).relayedAddr).trans e
  case clientAddr =>
    exact fun hk => (h.clientAddr hk).modify (fun _ _ e => e)
      fun a _ e => (congrArg _ (hf a).clientAddr).trans e
  case controlSock =>
    exact fun hk hv => (h.controlSock hk hv).modify (fun _ _ e => e)
      fun a _ e => (hf a).controlSock.trans e
  case invalid => exact h.invalid
  case pending => exact hpending _ _
  case port =>
    intro n o ho
    obtain hr | ⟨q, hq, hp⟩ := h.port ho
    · exact .inl hr
    · exact .inr ⟨q, hq, hp.modify (fun _ _ e => e) fun a _ e => (hf a).relayPort.trans e⟩
  case reservation => exact h.reservation

/-- The same, where the pending connects keep their ids. -/
theorem Owned.update (h : Owned cfg r t) (p : Ptr) {f : Allocation → Allocation}
    (hf : ∀ a, SameIdentity a (f a))
    (hids : ∀ a, (f a).pendingConnects.map PendingConnect.connId =
      a.pendingConnects.map PendingConnect.connId) :
    Owned cfg r { t with heap := t.heap.modify p f } :=
  h.modify p hf fun _ _ hq => (h.pending hq).modify (fun _ _ e => e) fun a _ e => hids a ▸ e

/-! ## Destruction -/

theorem Tables.releaseRelayPort_eq {n : UInt16} {o owner : Option Ptr}
    (h : t.usedRelayPorts[n]? = some o) (ho : o = none ∨ o = owner) :
    releaseRelayPort n owner t = { t with usedRelayPorts := t.usedRelayPorts.erase n } := by
  simp only [releaseRelayPort, h]
  rw [if_neg]
  rintro ⟨hnone, howner⟩
  exact ho.elim hnone howner

theorem Tables.releaseRelayPort_heap (n : UInt16) (o : Option Ptr) (t : Tables) :
    (releaseRelayPort n o t).heap = t.heap := by
  simp only [releaseRelayPort]
  split
  · rfl
  · split <;> rfl

theorem Tables.eraseAllocation_eq {k : Bytes} (h : t.allocations[k]? = some p) :
    eraseAllocation k t =
      { t with allocations := t.allocations.erase k, heap := t.heap.erase p } := by
  simp only [eraseAllocation, h]

theorem Tables.destroyAllocation_eq (h : Owned cfg r t) {a : Allocation}
    (ha : t.heap[p]? = some a) :
    destroyAllocation cfg p t =
      { eraseLookups a t with
        allocations := t.allocations.erase (a.key cfg)
        heap := t.heap.erase p
        usedRelayPorts := t.usedRelayPorts.erase a.relayPort } := by
  obtain ⟨hkey, hport, -⟩ := h.own ha
  simp only [destroyAllocation, ha]
  rw [releaseRelayPort_eq (show (eraseLookups a t).usedRelayPorts[a.relayPort]? = _ from hport)
    (.inr rfl)]
  exact eraseAllocation_eq hkey

/-- A pointer to an allocation unlike the freed one stays good. -/
theorem Tables.Holds.of_erase {Q : Allocation → Prop} {a : Allocation} (h : t.Holds q Q)
    (ha : t.heap[p]? = some a) (hQ : ¬Q a) {t' : Tables} (ht' : t'.heap = t.heap.erase p) :
    t'.Holds q Q := by
  obtain ⟨x, hx, hq⟩ := h
  refine ⟨x, ?_, hq⟩
  rw [ht', getElem?_erase_of_ne]
  · exact hx
  · rintro rfl
    rw [ha] at hx
    cases hx
    exact hQ hq

theorem Owned.destroyAllocation (h : Owned cfg r t) (p : Ptr) :
    Owned cfg r (Tables.destroyAllocation cfg p t) := by
  cases ha : t.heap[p]? with
  | none => simpa only [Tables.destroyAllocation, ha] using h
  | some a =>
    rw [Tables.destroyAllocation_eq h ha]
    obtain ⟨hkey, hport, -⟩ := h.own ha
    constructor
    case own =>
      intro q b hb
      obtain ⟨hne, hb⟩ := getElem?_erase_some hb
      obtain ⟨hk, hp, hlt⟩ := h.own hb
      refine ⟨?_, ?_, hlt⟩
      · refine (getElem?_erase_of_ne fun e => hne ?_).trans hk
        rw [e, hkey] at hk
        exact (Option.some.inj hk).symm
      · refine (getElem?_erase_of_ne fun e => hne ?_).trans hp
        rw [e, hport] at hp
        exact (Option.some.inj (Option.some.inj hp)).symm
    case entry =>
      intro k q hk
      obtain ⟨hne, hk⟩ := getElem?_erase_some hk
      exact (h.entry hk).of_erase ha (fun e => hne e.symm) rfl
    case relaySock =>
      intro k q hk
      obtain ⟨hne, hk⟩ := getElem?_erase_some hk
      exact (h.relaySock hk).of_erase ha (fun e => hne e.symm) rfl
    case relayAddr =>
      intro k q hk
      obtain ⟨hne, hk⟩ := getElem?_erase_some hk
      exact (h.relayAddr hk).of_erase ha (fun e => hne e.symm) rfl
    case clientAddr =>
      intro k q hk
      obtain ⟨hne, hk⟩ := getElem?_erase_some hk
      exact (h.clientAddr hk).of_erase ha (fun e => hne e.symm) rfl
    case control =>
      intro q b hb hv
      obtain ⟨hne, hb⟩ := getElem?_erase_some hb
      have hq := h.control hb hv
      by_cases ha' : a.controlSock = invalidSocket
      · simpa only [Tables.eraseLookups, ha', if_true] using hq
      · simp only [Tables.eraseLookups, ha', if_false]
        refine (getElem?_erase_of_ne fun e => hne ?_).trans hq
        rw [e, h.control ha ha'] at hq
        exact (Option.some.inj hq).symm
    case controlSock =>
      intro k q hk hv
      by_cases ha' : a.controlSock = invalidSocket
      · simp only [Tables.eraseLookups, ha', if_true] at hk
        exact (h.controlSock hk hv).of_erase ha (fun e => hv (e.symm.trans ha')) rfl
      · simp only [Tables.eraseLookups, ha', if_false] at hk
        obtain ⟨hne, hk⟩ := getElem?_erase_some hk
        exact (h.controlSock hk hv).of_erase ha (fun e => hne e.symm) rfl
    case invalid =>
      by_cases ha' : a.controlSock = invalidSocket
      · simpa only [Tables.eraseLookups, ha', if_true] using h.invalid
      · simp only [Tables.eraseLookups, ha', if_false]
        exact (getElem?_erase_of_ne fun e => ha' e.symm).trans h.invalid
    case pending =>
      intro id q hk
      obtain ⟨hne, hk⟩ := getElem?_foldl_erase_some hk
      exact (h.pending hk).of_erase ha hne rfl
    case port =>
      intro n o ho
      obtain ⟨hne, ho⟩ := getElem?_erase_some ho
      obtain hr | ⟨q, hq, hp⟩ := h.port ho
      · exact .inl hr
      · exact .inr ⟨q, hq, hp.of_erase ha (fun e => hne e.symm) rfl⟩
    case reservation =>
      intro n hn
      refine (getElem?_erase_of_ne fun e => ?_).trans (h.reservation hn)
      have := h.reservation hn
      rw [e, hport] at this
      cases this

/-! ## Ports -/

theorem Owned.ports (h : Owned cfg r t) {r' : Option UInt16} {m : TreeMap UInt16 (Option Ptr)}
    (hold : ∀ {n : UInt16} {p : Ptr}, t.usedRelayPorts[n]? = some (some p) → m[n]? = some (some p))
    (hport : ∀ {n : UInt16} {o : Option Ptr}, m[n]? = some o →
      o = none ∧ r' = some n ∨ ∃ p, o = some p ∧ t.usedRelayPorts[n]? = some (some p))
    (hres : ∀ {n : UInt16}, r' = some n → m[n]? = some none) :
    Owned cfg r' { t with usedRelayPorts := m } where
  own ha := ⟨(h.own ha).1, hold (h.own ha).2.1, (h.own ha).2.2⟩
  control := h.control
  entry := h.entry
  relaySock := h.relaySock
  relayAddr := h.relayAddr
  clientAddr := h.clientAddr
  controlSock := h.controlSock
  invalid := h.invalid
  pending := h.pending
  port ho := by
    obtain hr | ⟨p, rfl, hp⟩ := hport ho
    · exact .inl hr
    · obtain ⟨hnone, -⟩ | ⟨q, hq, hheld⟩ := h.port hp
      · cases hnone
      · exact .inr ⟨q, hq, hheld⟩
  reservation := hres

/-- A port comes free, nonzero and reserved, or not at all. -/
theorem Owned.allocRelayPort (h : Owned cfg none t) (random : Nat → UInt32) (avoid : List UInt16) :
    Tables.allocRelayPort cfg random avoid t = (0, t) ∨
    ∃ n m, Tables.allocRelayPort cfg random avoid t = (n, { t with usedRelayPorts := m }) ∧ n ≠ 0 ∧
      Owned cfg (some n) { t with usedRelayPorts := m } := by
  obtain ⟨n, hrange, hfree, heq⟩ | ⟨-, heq⟩ := Tables.allocRelayPortIn_cases
    cfg.relayPortBegin cfg.relayPortEnd random avoid t
  · right
    have hfree : t.usedRelayPorts[n]? = none := Tables.unused_of_portFree hfree
    refine ⟨n, _, heq, hrange.ne_zero cfg.first_pos, h.ports ?_ ?_ ?_⟩
    · intro k p hk
      refine (getElem?_insert_of_ne ?_).trans hk
      rintro rfl
      rw [hfree] at hk
      cases hk
    · intro k o ho
      obtain ⟨rfl, rfl⟩ | ⟨-, ho⟩ := getElem?_insert_some ho
      · exact .inl ⟨rfl, rfl⟩
      · obtain ⟨-, hr⟩ | ⟨p, rfl, -⟩ := h.port ho
        · cases hr
        · exact .inr ⟨p, rfl, ho⟩
    · intro k hk
      cases hk
      exact TreeMap.getElem?_insert_self
  · exact .inl heq

theorem Owned.releaseRelayPort {n : UInt16} (h : Owned cfg (some n) t) :
    ∃ m, Tables.releaseRelayPort n none t = { t with usedRelayPorts := m } ∧
      Owned cfg none { t with usedRelayPorts := m } := by
  have hn := h.reservation rfl
  refine ⟨_, Tables.releaseRelayPort_eq hn (.inl rfl), h.ports ?_ ?_ ?_⟩
  · intro k p hk
    refine (getElem?_erase_of_ne ?_).trans hk
    rintro rfl
    rw [hn] at hk
    cases hk
  · intro k o ho
    obtain ⟨hne, ho⟩ := getElem?_erase_some ho
    obtain ⟨-, hr⟩ | ⟨p, rfl, -⟩ := h.port ho
    · exact absurd (Option.some.inj hr).symm hne
    · exact .inr ⟨p, rfl, ho⟩
  · intro k hk
    cases hk

/-- The bind loop ends with its last port reserved, bound or not, or with none. -/
theorem Owned.bindRelay {env : Env} {fuel i : Nat} {failed : List UInt16} {n : UInt16}
    (h : Owned cfg (some n) t) (hn : n ≠ 0) :
    ∃ sock n' m, bindRelay cfg env fuel i failed n t = (sock, n', { t with usedRelayPorts := m }) ∧
      (sock = none ∧ n' = 0 ∧ Owned cfg none { t with usedRelayPorts := m } ∨
        n' ≠ 0 ∧ Owned cfg (some n') { t with usedRelayPorts := m } ∧
          ∀ x, sock = some x → x.2.getD n' = n') := by
  have hbound {i : Nat} {n : UInt16} {x : Socket × Option UInt16}
      (hx : env.relaySocket i n = some x) : x.2.getD n = n := by
    obtain ⟨sock, bound⟩ := x
    cases bound with
    | none => rfl
    | some b => exact env.bound_eq i n sock b hx
  induction fuel generalizing i failed n t with
  | zero => exact ⟨_, _, _, rfl, .inr ⟨hn, h, fun x hx => hbound hx⟩⟩
  | succ fuel ih =>
    cases hs : env.relaySocket i n with
    | some x =>
      refine ⟨some x, n, _, by simp only [Server.bindRelay, hs], .inr ⟨hn, h, ?_⟩⟩
      intro y hy
      cases hy
      exact hbound hs
    | none =>
      obtain ⟨m, hm, hfree⟩ := h.releaseRelayPort
      obtain hal | ⟨n', m', hal, hn', hres⟩ :=
        hfree.allocRelayPort (env.random (i + 1)) (failed ++ [n])
      · exact ⟨none, 0, m, by simp [Server.bindRelay, hs, hm, hal], .inl ⟨rfl, rfl, hfree⟩⟩
      · obtain ⟨sock, n'', m'', heq, hcases⟩ :=
          @ih _ (i + 1) (failed ++ [n]) n' hres hn'
        refine ⟨sock, n'', m'', ?_, hcases⟩
        simp only [Server.bindRelay, hs, hm, hal, hn', if_false]
        exact heq

theorem Owned.reserveRelay (h : Owned cfg none t) (env : Env) (transport : SockType) :
    ∃ m, Server.reserveRelay cfg env transport t = (none, { t with usedRelayPorts := m }) ∧
        Owned cfg none { t with usedRelayPorts := m } ∨
      ∃ sock n, Server.reserveRelay cfg env transport t =
          (some (sock, n), { t with usedRelayPorts := m }) ∧
        Owned cfg (some n) { t with usedRelayPorts := m } := by
  obtain hal | ⟨n, m, hal, hn, hres⟩ := h.allocRelayPort (env.random 0) []
  · exact ⟨t.usedRelayPorts, .inl ⟨by simp [Server.reserveRelay, hal], h⟩⟩
  · cases transport with
    | stream =>
      exact ⟨m, .inr ⟨invalidSocket, n, by simp [Server.reserveRelay, hal, hn], hres⟩⟩
    | dgram =>
      have heq : Server.reserveRelay cfg env .dgram t =
          settleRelay (Server.bindRelay cfg env 50 0 [] n { t with usedRelayPorts := m }) := by
        simp only [Server.reserveRelay, hal, hn, if_false]
      obtain ⟨sock, n', m', hb, hcases⟩ := hres.bindRelay hn
      rw [heq, hb]
      cases sock with
      | none =>
        obtain ⟨-, rfl, hfree⟩ | ⟨hn', hres', -⟩ := hcases
        · exact ⟨m', .inl ⟨by simp [settleRelay], hfree⟩⟩
        · obtain ⟨m'', hm'', hfree⟩ := hres'.releaseRelayPort
          exact ⟨m'', .inl ⟨by simpa [settleRelay, hn'] using hm'', hfree⟩⟩
      | some x =>
        obtain ⟨hnone, -⟩ | ⟨hn', hres', hx⟩ := hcases
        · cases hnone
        · have hx := hx x rfl
          exact ⟨m', .inr ⟨x.1, n', by simp [settleRelay, hx], hres'⟩⟩

/-! ## Registration -/

/-- A new allocation under a free key, whose entries name it only. -/
theorem Owned.insert {a : Allocation} (h : Owned cfg (some a.relayPort) t)
    (hkey : t.allocations[a.key cfg]? = none)
    {relaySocks controlSocks : TreeMap Socket Ptr} {relayAddrs clientAddrs : TreeMap Bytes Ptr}
    (hrelaySock : ∀ {k q}, relaySocks[k]? = some q →
      k = a.relaySock ∧ q = t.nextPtr ∨ t.allocByRelaySock[k]? = some q)
    (hrelayAddr : ∀ {k q}, relayAddrs[k]? = some q →
      k = a.relayedAddr.key ∧ q = t.nextPtr ∨ t.allocByRelayAddr[k]? = some q)
    (hclientAddr : ∀ {k q}, clientAddrs[k]? = some q →
      k = a.clientAddr.key ∧ q = t.nextPtr ∨ t.allocByClientAddr[k]? = some q)
    (hcontrolSock : ∀ {k q}, controlSocks[k]? = some q →
      k = a.controlSock ∧ q = t.nextPtr ∨ t.allocByControlSock[k]? = some q)
    (hnewControl : a.controlSock ≠ invalidSocket → controlSocks[a.controlSock]? = some t.nextPtr)
    (holdControl : ∀ {k q}, t.allocByControlSock[k]? = some q → k ≠ invalidSocket →
      controlSocks[k]? = some q)
    (hinvalid : controlSocks[invalidSocket]? = none) :
    Owned cfg none
      { heap := t.heap.insert t.nextPtr a
        allocations := t.allocations.insert (a.key cfg) t.nextPtr
        allocByRelaySock := relaySocks
        allocByRelayAddr := relayAddrs
        allocByClientAddr := clientAddrs
        allocByControlSock := controlSocks
        pendingByConnId := t.pendingByConnId
        usedRelayPorts := t.usedRelayPorts.insert a.relayPort (some t.nextPtr)
        nextPtr := t.nextPtr + 1 } := by
  have hnew : (t.heap.insert t.nextPtr a)[t.nextPtr]? = some a := TreeMap.getElem?_insert_self
  have hold {q : Ptr} {Q : Allocation → Prop} (hq : t.Holds q Q) :
      ∃ x, (t.heap.insert t.nextPtr a)[q]? = some x ∧ Q x := by
    obtain ⟨x, hx, hQ⟩ := hq
    have hlt := (h.own hx).2.2
    exact ⟨x, (getElem?_insert_of_ne (Nat.ne_of_lt hlt)).trans hx, hQ⟩
  constructor
  case own =>
    intro q b hb
    obtain ⟨rfl, rfl⟩ | ⟨-, hb⟩ := getElem?_insert_some hb
    · exact ⟨TreeMap.getElem?_insert_self, TreeMap.getElem?_insert_self, Nat.lt_succ_self _⟩
    · obtain ⟨hk, hp, hlt⟩ := h.own hb
      refine ⟨(getElem?_insert_of_ne fun e => ?_).trans hk,
        (getElem?_insert_of_ne fun e => ?_).trans hp, Nat.lt_succ_of_lt hlt⟩
      · rw [e, hkey] at hk
        cases hk
      · rw [e, h.reservation rfl] at hp
        cases hp
  case control =>
    intro q b hb hv
    obtain ⟨rfl, rfl⟩ | ⟨-, hb⟩ := getElem?_insert_some hb
    · exact hnewControl hv
    · exact holdControl (h.control hb hv) hv
  case entry =>
    intro k q hk
    obtain ⟨rfl, rfl⟩ | ⟨-, hk⟩ := getElem?_insert_some hk
    · exact ⟨a, hnew, rfl⟩
    · exact hold (h.entry hk)
  case relaySock =>
    intro k q hk
    obtain ⟨rfl, rfl⟩ | hk := hrelaySock hk
    · exact ⟨a, hnew, rfl⟩
    · exact hold (h.relaySock hk)
  case relayAddr =>
    intro k q hk
    obtain ⟨rfl, rfl⟩ | hk := hrelayAddr hk
    · exact ⟨a, hnew, rfl⟩
    · exact hold (h.relayAddr hk)
  case clientAddr =>
    intro k q hk
    obtain ⟨rfl, rfl⟩ | hk := hclientAddr hk
    · exact ⟨a, hnew, rfl⟩
    · exact hold (h.clientAddr hk)
  case controlSock =>
    intro k q hk hv
    obtain ⟨rfl, rfl⟩ | hk := hcontrolSock hk
    · exact ⟨a, hnew, rfl⟩
    · exact hold (h.controlSock hk hv)
  case invalid => exact hinvalid
  case pending => exact fun hk => hold (h.pending hk)
  case port =>
    intro n o ho
    right
    obtain ⟨rfl, rfl⟩ | ⟨hne, ho⟩ := getElem?_insert_some ho
    · exact ⟨_, rfl, a, hnew, rfl⟩
    · obtain ⟨-, hr⟩ | ⟨q, hq, hp⟩ := h.port ho
      · exact absurd (Option.some.inj hr).symm hne
      · exact ⟨q, hq, hold hp⟩
  case reservation =>
    intro n hn
    cases hn

theorem Owned.register {a : Allocation} (h : Owned cfg (some a.relayPort) t)
    (hkey : t.allocations[a.key cfg]? = none) {overTcp : Bool}
    (hover : a.controlSock ≠ invalidSocket → overTcp = true)
    (hfree : a.controlSock ≠ invalidSocket → t.allocByControlSock[a.controlSock]? = none)
    (hstream : a.transport = .stream → a.controlSock ≠ invalidSocket) :
    Owned cfg none (Tables.register cfg a overTcp t) := by
  have hassign (t' : Tables) (he : t'.allocations = t.allocations) :
      Tables.assignAllocation (a.key cfg) t.nextPtr a t' =
        { t' with
          allocations := t'.allocations.insert (a.key cfg) t.nextPtr
          heap := t'.heap.insert t.nextPtr a } := by
    simp only [Tables.assignAllocation, Tables.eraseAllocation, he, hkey]
  have hins {κ : Type} [Ord κ] [TransOrd κ] [LawfulEqOrd κ] {m : TreeMap κ Ptr} {k₀ k : κ} {q : Ptr}
      (hk : (m.insert k₀ t.nextPtr)[k]? = some q) :
      k = k₀ ∧ q = t.nextPtr ∨ m[k]? = some q :=
    (getElem?_insert_some hk).imp_right And.right
  -- an entry of another allocation is for another socket
  have hold {m : TreeMap Socket Ptr} {k : Socket} {q : Ptr}
      (hk : t.allocByControlSock[k]? = some q) (hv : k ≠ invalidSocket) (hm : m[k]? = some q) :
      (m.insert a.controlSock t.nextPtr)[k]? = some q := by
    refine (getElem?_insert_of_ne ?_).trans hm
    rintro rfl
    rw [hfree hv] at hk
    cases hk
  have hinv {m : TreeMap Socket Ptr} (hv : a.controlSock ≠ invalidSocket)
      (hm : m[invalidSocket]? = none) : (m.insert a.controlSock t.nextPtr)[invalidSocket]? = none :=
    (getElem?_insert_of_ne hv.symm).trans hm
  simp only [Tables.register, Tables.enterLookups]
  by_cases ht : a.transport = .dgram
  · by_cases ho : overTcp = true ∧ a.controlSock ≠ invalidSocket
    · rw [if_pos ht, if_pos ho, hassign]
      · exact h.insert hkey hins hins hins hins (fun _ => TreeMap.getElem?_insert_self)
          (fun hk hv => hold hk hv hk) (hinv ho.2 h.invalid)
      · rfl
    · rw [if_pos ht, if_neg ho, hassign]
      · exact h.insert hkey hins hins hins .inr (fun hv => absurd ⟨hover hv, hv⟩ ho)
          (fun hk _ => hk) h.invalid
      · rfl
  · have hs : a.transport = .stream := by
      cases hs : a.transport with
      | dgram => exact absurd hs ht
      | stream => rfl
    by_cases ho : overTcp = true ∧ a.controlSock ≠ invalidSocket
    · rw [if_neg ht, if_pos ho, hassign]
      · refine h.insert hkey .inr .inr .inr (fun hk => ?_) (fun _ => TreeMap.getElem?_insert_self)
          (fun hk hv => hold hk hv (hold hk hv hk))
          (hinv ho.2 (hinv ho.2 h.invalid))
        obtain hk | hk := hins hk
        · exact .inl hk
        · exact hins hk
      · rfl
    · rw [if_neg ht, if_neg ho, hassign]
      · exact h.insert hkey .inr .inr .inr hins (fun _ => TreeMap.getElem?_insert_self)
          (fun hk hv => hold hk hv hk) (hinv (hstream hs) h.invalid)
      · rfl

theorem Tables.enterLookups_heap (a : Allocation) (overTcp : Bool) (t : Tables) :
    (enterLookups a overTcp t).heap = t.heap := by
  simp only [enterLookups]
  split <;> split <;> rfl

theorem Tables.enterLookups_allocations (a : Allocation) (overTcp : Bool) (t : Tables) :
    (enterLookups a overTcp t).allocations = t.allocations := by
  simp only [enterLookups]
  split <;> split <;> rfl

theorem Tables.register_heap {a : Allocation} (overTcp : Bool)
    (hkey : t.allocations[a.key cfg]? = none) :
    (register cfg a overTcp t).heap = t.heap.insert t.nextPtr a := by
  simp only [register, assignAllocation, eraseAllocation, enterLookups_allocations, hkey,
    enterLookups_heap]

/-! ## Expiry -/

theorem Owned.expireOne (h : Owned cfg r t) (now : Int) (p : Ptr) :
    Owned cfg r (Tables.expireOne cfg now t p) := by
  unfold Tables.expireOne
  split
  · exact h
  · rename_i a ha
    have hdrop : Owned cfg r { t with
        heap := t.heap.modify p (Tables.dropExpired now)
        pendingByConnId := (a.pendingConnects.filter fun x => x.expiryMs ≤ now).foldl
          (fun m pc => m.erase pc.connId) t.pendingByConnId } := by
      refine h.modify p (fun _ => ⟨rfl, rfl, rfl, rfl, rfl, rfl⟩) fun id q hq => ?_
      obtain ⟨hid, hq⟩ := getElem?_foldl_erase_some hq
      obtain ⟨b, hb, hmem⟩ := h.pending hq
      refine Tables.Holds.modify ⟨b, hb, rfl⟩ (fun _ _ e => e ▸ hmem) fun x hqp hx => ?_
      subst hqp hx
      rw [ha] at hb
      cases hb
      -- an id that is still mapped belongs to a connect that has not expired
      obtain ⟨pc, hpc, rfl⟩ := List.mem_map.mp hmem
      refine List.mem_map.mpr ⟨pc, List.mem_filter.mpr ⟨hpc, ?_⟩, rfl⟩
      by_cases hexp : pc.expiryMs ≤ now
      · exact absurd (List.mem_map.mpr ⟨pc, List.mem_filter.mpr ⟨hpc, by simpa using hexp⟩, rfl⟩)
          hid
      · simpa using hexp
    dsimp only
    split
    · exact hdrop.destroyAllocation p
    · exact hdrop

theorem Owned.releaseOrphans (h : Owned cfg none t) :
    Owned cfg none (Tables.releaseOrphans cfg t) := by
  refine h.ports ?_ ?_ fun hn => nomatch hn
  · intro n p hn
    obtain ⟨hnone, -⟩ | ⟨q, hq, a, ha, -⟩ := h.port hn
    · cases hnone
    · cases hq
      refine getElem?_filter_eq_some.mpr ⟨hn, ?_⟩
      simp only [Option.bind_some, ha, TreeMap.contains_eq_isSome_getElem?, (h.own ha).1]
      rfl
  · intro n o hn
    obtain ⟨hn, -⟩ := getElem?_filter_eq_some.mp hn
    obtain ⟨-, hr⟩ | ⟨p, rfl, -⟩ := h.port hn
    · cases hr
    · exact .inr ⟨p, rfl, hn⟩

theorem Owned.expireAllocations (h : Owned cfg none t) (now : Int) :
    Owned cfg none (Tables.expireAllocations cfg now t) := by
  have hsweep (ps : List Ptr) : Owned cfg none (ps.foldl (Tables.expireOne cfg now) t) := by
    induction ps generalizing t with
    | nil => exact h
    | cons p ps ih => exact ih (h.expireOne now p)
  exact (hsweep _).releaseOrphans

end Stice.Server
