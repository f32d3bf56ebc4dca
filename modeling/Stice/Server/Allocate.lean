import Stice.Server.Integrity
import Stice.Server.Updates

/-! What an Allocate request leaves in the tables (`handleAllocate`). A request that is
answered with an error leaves nothing behind, whatever ports were tried for it; one that
succeeds takes one free port. It adds an allocation only if its key is not taken: the key is
made of the relay's transport and the client's address, and `allocations_[key] = ...`
replaces what is there. -/
namespace Stice.Server
open Std Net Stun Turn Lib

/-! ## Ports while relay sockets are tried -/

/-- The same ports are in use. -/
def SamePorts (used used' : TreeMap UInt16 (Option Ptr)) : Prop :=
  ∀ k : UInt16, used'[k]? = used[k]?

/-- One more port is in use. -/
def OneMore (used used' : TreeMap UInt16 (Option Ptr)) (port : UInt16) (owner : Option Ptr) :
    Prop :=
  used[port]? = none ∧ ∀ k : UInt16, used'[k]? = if k = port then some owner else used[k]?

/-- A port of the configured range is reserved and nothing else changed. -/
def Reserves (cfg : Config) (used : TreeMap UInt16 (Option Ptr)) (port : UInt16) (t : Tables) :
    Prop :=
  InRange cfg.relayPortBegin cfg.relayPortEnd port ∧ OneMore used t.usedRelayPorts port none

variable {cfg : Config} {used : TreeMap UInt16 (Option Ptr)} {t : Tables} {port : UInt16}

theorem OneMore.insert {used' : TreeMap UInt16 (Option Ptr)} (h : SamePorts used used')
    (hfree : used'[port]? = none) (owner : Option Ptr) :
    OneMore used (used'.insert port owner) port owner := by
  refine ⟨(h port).symm.trans hfree, fun k => ?_⟩
  split
  · rename_i hk
    rw [hk]
    exact TreeMap.getElem?_insert_self
  · rename_i hk
    rw [getElem?_insert_of_ne hk]
    exact h k

theorem allocRelayPort_reserves (h : SamePorts used t.usedRelayPorts) (random : Nat → UInt32)
    (avoid : List UInt16) :
    Tables.allocRelayPort cfg random avoid t = (0, t) ∨
      ∃ port, port ≠ 0 ∧ (Tables.allocRelayPort cfg random avoid t).1 = port ∧
        Reserves cfg used port (Tables.allocRelayPort cfg random avoid t).2 := by
  obtain ⟨port, hrange, hfree, heq⟩ | ⟨-, heq⟩ := Tables.allocRelayPortIn_cases
    cfg.relayPortBegin cfg.relayPortEnd random avoid t
  · refine .inr ⟨port, hrange.ne_zero cfg.first_pos, ?_, hrange, ?_⟩
    · rw [Tables.allocRelayPort, heq]
    · rw [Tables.allocRelayPort, heq]
      exact .insert h (Tables.unused_of_portFree hfree) none
  · exact .inl heq

theorem Reserves.release (h : Reserves cfg used port t) :
    SamePorts used (Tables.releaseRelayPort port none t).usedRelayPorts := by
  obtain ⟨-, hfree, hused⟩ := h
  have hport : t.usedRelayPorts[port]? = some none := by
    rw [hused, if_pos rfl]
  have hrelease : Tables.releaseRelayPort port none t =
      { t with usedRelayPorts := t.usedRelayPorts.erase port } := by
    simp [Tables.releaseRelayPort, hport]
  intro k
  rw [hrelease]
  by_cases hk : k = port
  · rw [hk, hfree]
    exact TreeMap.getElem?_erase_self
  · rw [getElem?_erase_of_ne hk, hused, if_neg hk]

/-- Each failed attempt gives its port back before the next one is reserved. -/
theorem Reserves.bindRelay {env : Env} {fuel i : Nat} {failed : List UInt16}
    (h : Reserves cfg used port t) (hport : port ≠ 0) :
    ∃ bound port' t', Server.bindRelay cfg env fuel i failed port t = (bound, port', t') ∧
      (bound = none ∧ port' = 0 ∧ SamePorts used t'.usedRelayPorts ∨
        port' ≠ 0 ∧ Reserves cfg used port' t' ∧
          ∀ sock b, bound = some (sock, some b) → b = port') := by
  induction fuel generalizing i failed port t with
  | zero =>
    exact ⟨_, _, _, rfl, .inr ⟨hport, h, fun sock b hb => env.bound_eq i port sock b hb⟩⟩
  | succ fuel ih =>
    cases hsock : env.relaySocket i port with
    | some x =>
      refine ⟨some x, port, t, by simp only [Server.bindRelay, hsock], .inr ⟨hport, h, ?_⟩⟩
      intro sock b hb
      exact env.bound_eq i port sock b (hsock.trans hb)
    | none =>
      simp only [Server.bindRelay, hsock]
      obtain hnone | ⟨next, hne, hnext, hres⟩ := @allocRelayPort_reserves cfg _ _ h.release
        (env.random (i + 1)) (failed ++ [port])
      · rw [hnone, if_pos rfl]
        exact ⟨none, 0, _, rfl, .inl ⟨rfl, rfl, h.release⟩⟩
      · rw [hnext, if_neg hne]
        exact ih hres hne

/-- The relay of a new allocation: none and no port taken, or one and its port. -/
theorem reserveRelay_ports (cfg : Config) (env : Env) (transport : SockType) (t : Tables) :
    ((reserveRelay cfg env transport t).1 = none ∧
      SamePorts t.usedRelayPorts (reserveRelay cfg env transport t).2.usedRelayPorts) ∨
    ∃ sock port, (reserveRelay cfg env transport t).1 = some (sock, port) ∧ port ≠ 0 ∧
      Reserves cfg t.usedRelayPorts port (reserveRelay cfg env transport t).2 := by
  have hsame : SamePorts t.usedRelayPorts t.usedRelayPorts := fun _ => rfl
  obtain hnone | ⟨port, hne, hport, hres⟩ :=
    @allocRelayPort_reserves cfg _ _ hsame (env.random 0) []
  · left
    simp only [reserveRelay, hnone, ↓reduceIte]
    exact ⟨trivial, hsame⟩
  · cases transport with
    | stream =>
      right
      simp only [reserveRelay, hport, hne, ↓reduceIte]
      exact ⟨_, _, rfl, hne, hres⟩
    | dgram =>
      obtain ⟨bound, port', t', heq, hcase⟩ := @Reserves.bindRelay cfg _ _ _ env 50 0 [] hres hne
      simp only [reserveRelay, hport, hne, ↓reduceIte, heq]
      obtain ⟨rfl, rfl, hsame'⟩ | ⟨hne', hres', hbound⟩ := hcase
      · exact .inl ⟨rfl, hsame'⟩
      · cases bound with
        | none =>
          left
          simp only [settleRelay, ne_eq, hne', not_false_eq_true, ↓reduceIte]
          exact ⟨trivial, hres'.release⟩
        | some x =>
          obtain ⟨sock, b⟩ := x
          have hb : b.getD port' = port' := by
            cases b with
            | none => rfl
            | some b => exact hbound sock b rfl
          right
          simp only [settleRelay, hb, ne_eq, not_true_eq_false, ↓reduceIte]
          exact ⟨_, _, rfl, hne', hres'⟩

/-! ## The request -/

/-- Where a response goes. -/
def answer (src : AddrRecord) (conn : Option Ptr) (raw : Bytes) : Output :=
  match conn with
  | some c => .tcp c raw
  | none => .udp src raw

theorem reply_eq (s : State) (src : AddrRecord) (conn : Option Ptr) (raw : Bytes) :
    reply s src conn raw = { s with out := s.out ++ [answer src conn raw] } := by
  cases conn <;> rfl

/-- The class in the type field of a message. -/
def messageClass (raw : Bytes) : Stun.Class := (decodeType (readU16Be raw 0)).2

theorem messageClass_encode (m : Message) (password : Option Bytes) (creds : Option Credentials)
    (software : Option Bytes) (h : m.method = .allocate) :
    messageClass (m.encode password creds software).raw = m.cls := by
  have hmethod : m.method.toNat < 4096 := by
    rw [h]
    decide
  rw [messageClass, encode_raw, readU16Be_wire_type, decodeType_encodeType _ _ hmethod]

theorem messageClass_errorResponse {req : Message} (h : req.method = .allocate) (code : Nat) :
    messageClass (errorResponse req code) = .errorResponse :=
  messageClass_encode _ _ _ _ h

theorem messageClass_successResponse (cfg : Config) (s : State) {method : Method}
    (h : method = .allocate) (tid : TransactionID) (username : Bytes)
    (attributes : List Attribute) :
    messageClass (successResponse cfg s method tid username attributes) = .successResponse := by
  simp only [successResponse]
  split
  · exact messageClass_encode _ _ _ _ h
  · exact messageClass_encode _ _ _ _ h

/-- Nothing is left of a request. -/
def NothingLeft (t t' : Tables) : Prop :=
  t.OnlyPorts t' ∧ SamePorts t.usedRelayPorts t'.usedRelayPorts

/-- One allocation and one relay port of the configured range are added; all that was there
is still there. -/
structure Added (cfg : Config) (t t' : Tables) : Prop where
  size : t'.allocations.size = t.allocations.size + 1
  kept : ∀ (k : Bytes) (p : Ptr), t.allocations[k]? = some p → t'.allocations[k]? = some p
  heap : ∀ p, p ≠ t.nextPtr → t'.heap[p]? = t.heap[p]?
  port : ∃ port k a, InRange cfg.relayPortBegin cfg.relayPortEnd port ∧ port ≠ 0 ∧
    OneMore t.usedRelayPorts t'.usedRelayPorts port (some t.nextPtr) ∧
    t'.allocations[(k : Bytes)]? = some t.nextPtr ∧ t'.heap[t.nextPtr]? = some a ∧
    a.relayPort = port

theorem register_usedRelayPorts (cfg : Config) (a : Allocation) (overTcp : Bool) (t : Tables) :
    (Tables.register cfg a overTcp t).usedRelayPorts =
      t.usedRelayPorts.insert a.relayPort (some t.nextPtr) := by
  have henter : (Tables.enterLookups a overTcp t).usedRelayPorts =
      t.usedRelayPorts.insert a.relayPort (some t.nextPtr) := by
    simp only [Tables.enterLookups]
    split <;> split <;> rfl
  simp only [Tables.register, Tables.assignAllocation, Tables.eraseAllocation]
  split <;> exact henter

theorem register_size (cfg : Config) (a : Allocation) (overTcp : Bool) (t : Tables) :
    (Tables.register cfg a overTcp t).allocations.size =
      if (t.allocations[a.key cfg]?).isSome then t.allocations.size
      else t.allocations.size + 1 := by
  simp only [Tables.register, Tables.assignAllocation, Tables.eraseAllocation,
    Tables.enterLookups_allocations]
  cases hkey : t.allocations[a.key cfg]? with
  | none =>
    have hnot : a.key cfg ∉ t.allocations := by
      rw [TreeMap.mem_iff_isSome_getElem?, hkey]
      simp
    simp [TreeMap.size_insert, hnot, Tables.enterLookups_allocations]
  | some p =>
    have hmem : a.key cfg ∈ t.allocations := by
      rw [TreeMap.mem_iff_isSome_getElem?, hkey]
      rfl
    have hpos : 0 < t.allocations.size := by
      have hsome : t.allocations.isEmpty = false := TreeMap.isEmpty_eq_false_of_contains hmem
      rw [TreeMap.isEmpty_eq_size_eq_zero] at hsome
      exact Nat.pos_of_ne_zero (by simpa using hsome)
    simp [TreeMap.size_insert, TreeMap.size_erase, hmem]
    omega

/-- A registration adds an allocation exactly if its key is not taken. -/
theorem register_added {cfg : Config} {a : Allocation} {t t' : Tables} (overTcp : Bool)
    (hports : t.OnlyPorts t') (hres : Reserves cfg t.usedRelayPorts a.relayPort t')
    (hne : a.relayPort ≠ 0) :
    Added cfg t (Tables.register cfg a overTcp t') ↔ t.findAlloc (a.key cfg) = none := by
  have hallocations : t'.allocations = t.allocations := by rw [hports]
  have hheap : t'.heap = t.heap := by rw [hports]
  have hnext : t'.nextPtr = t.nextPtr := by rw [hports]
  have hsize := register_size cfg a overTcp t'
  rw [hallocations] at hsize
  constructor
  · intro h
    cases hkey : t.allocations[a.key cfg]? with
    | none => exact hkey
    | some p =>
      rw [hkey, h.size] at hsize
      simp at hsize
  · intro hkey
    have hkey : t.allocations[a.key cfg]? = none := hkey
    have hkey' : t'.allocations[a.key cfg]? = none := by rw [hallocations, hkey]
    have hnew := @Tables.register_heap cfg t' a overTcp hkey'
    rw [hheap, hnext] at hnew
    have hall : (Tables.register cfg a overTcp t').allocations =
        t.allocations.insert (a.key cfg) t.nextPtr := by
      simp only [Tables.register, Tables.assignAllocation, Tables.eraseAllocation,
        Tables.enterLookups_allocations, hkey']
      rw [hallocations, hnext]
    obtain ⟨hrange, hfree, hused⟩ := hres
    refine ⟨?_, ?_, ?_, a.relayPort, a.key cfg, a, hrange, hne, ⟨hfree, ?_⟩, ?_, ?_, rfl⟩
    · rw [hsize, hkey]
      simp
    · intro k p hk
      rw [hall]
      refine (getElem?_insert_of_ne ?_).trans hk
      rintro rfl
      rw [hkey] at hk
      cases hk
    · intro p hp
      rw [hnew]
      exact getElem?_insert_of_ne hp
    · intro k
      rw [register_usedRelayPorts, hnext]
      split
      · rename_i hk
        rw [hk]
        exact TreeMap.getElem?_insert_self
      · rename_i hk
        rw [getElem?_insert_of_ne hk, hused, if_neg hk]
    · rw [hall]
      exact TreeMap.getElem?_insert_self
    · rw [hnew]
      exact TreeMap.getElem?_insert_self

/-- An Allocate request is answered with an error and leaves nothing behind, or with success,
and then one allocation and one port are added exactly if the key was not taken. -/
theorem allocate_leaves_no_trace (cfg : Config) (env : Env) (s : State) (src : AddrRecord)
    (conn : Option Ptr) (req : Message) (hreq : req.method = .allocate) :
    ∃ raw, (handleAllocate cfg env s src conn req).out = s.out ++ [answer src conn raw] ∧
      (messageClass raw = .errorResponse ∧
          NothingLeft s.tables (handleAllocate cfg env s src conn req).tables ∨
        messageClass raw = .successResponse ∧
          ∃ transport, requestedTransport req = some transport ∧
            (Added cfg s.tables (handleAllocate cfg env s src conn req).tables ↔
              s.tables.findAlloc (allocKey cfg transport src) = none)) := by
  have hnothing : NothingLeft s.tables s.tables := ⟨rfl, fun _ => rfl⟩
  unfold handleAllocate
  split
  · refine ⟨_, by rw [replyError, reply_eq], .inl ⟨messageClass_errorResponse hreq _, ?_⟩⟩
    rw [replyError, reply_eq]
    exact hnothing
  · rename_i transport htransport
    split
    · refine ⟨_, by rw [replyError, reply_eq], .inl ⟨messageClass_errorResponse hreq _, ?_⟩⟩
      rw [replyError, reply_eq]
      exact hnothing
    · have honly := Tables.OnlyPorts.reserveRelay cfg env transport s.tables
      have hports := reserveRelay_ports cfg env transport s.tables
      split <;> rename_i hreserve <;> rw [hreserve] at honly hports
      · obtain ⟨-, hsame⟩ | ⟨_, _, hsome, -⟩ := hports
        · refine ⟨_, by rw [replyError, reply_eq], .inl ⟨messageClass_errorResponse hreq _, ?_⟩⟩
          rw [replyError, reply_eq]
          exact ⟨honly, hsame⟩
        · cases hsome
      · obtain ⟨hnone, -⟩ | ⟨_, _, hsome, hne, hres⟩ := hports
        · cases hnone
        · cases hsome
          refine ⟨_, by rw [reply_eq], .inr ⟨messageClass_successResponse _ _ hreq _ _ _,
            transport, htransport, ?_⟩⟩
          rw [reply_eq]
          exact register_added conn.isSome honly hres hne

/-- The Allocate request in a datagram. -/
def allocateRequest (data : Bytes) : Message :=
  (decode data).getD (response .allocate .request smallEnv.tid)

theorem allocate_leaves_no_trace_first :
    Added smallConfig Tables.empty (handleAllocate smallConfig smallEnv
      (State.start smallConfig smallEnv) ⟨.v4 192 168 0 7, 50000, .dgram⟩ none
      (allocateRequest allocateUdp)).tables := by
  have hmethod : (allocateRequest allocateUdp).method = .allocate := by decide +kernel
  obtain ⟨raw, -, ⟨-, -, hsame⟩ | ⟨-, transport, -, hadded⟩⟩ := allocate_leaves_no_trace
    smallConfig smallEnv (State.start smallConfig smallEnv) ⟨.v4 192 168 0 7, 50000, .dgram⟩ none
    (allocateRequest allocateUdp) hmethod
  · have hport := hsame 49152
    exact absurd hport (by decide +kernel)
  · exact hadded.mpr rfl

/-- A UDP client asks for a TCP relay twice. The server looks for its allocation under the
key of a UDP relay, finds none, and the second request replaces the first allocation. -/
theorem allocate_replaces :
    let src : AddrRecord := ⟨.v4 192 168 0 7, 50000, .dgram⟩
    let first := handleAllocate smallConfig smallEnv (State.start smallConfig smallEnv) src none
      (allocateRequest allocateTcp)
    let second := handleAllocate smallConfig smallEnv first src none (allocateRequest allocateTcp)
    first.tables.findAlloc (allocKey smallConfig .dgram src) = none ∧
      (second.out.getLast?.map fun
        | .udp _ raw => messageClass raw
        | _ => .errorResponse) = some .successResponse ∧
      ¬ Added smallConfig first.tables second.tables := by
  intro src first second
  have hsizes : first.tables.findAlloc (allocKey smallConfig .dgram src) = none ∧
      (second.out.getLast?.map fun
        | .udp _ raw => messageClass raw
        | _ => .errorResponse) = some .successResponse ∧
      first.tables.allocations.size = 1 ∧ second.tables.allocations.size = 1 := by
    decide +kernel
  obtain ⟨hnone, hsuccess, hfirst, hsecond⟩ := hsizes
  refine ⟨hnone, hsuccess, fun h => ?_⟩
  have hsize := h.size
  omega

/-! ## The quota -/

theorem size_eraseAllocation (key : Bytes) (t : Tables) :
    (Tables.eraseAllocation key t).allocations.size ≤ t.allocations.size := by
  unfold Tables.eraseAllocation
  split
  · exact Nat.le_refl _
  · exact TreeMap.size_erase_le

theorem size_destroyAllocation (p : Ptr) (t : Tables) :
    (Tables.destroyAllocation cfg p t).allocations.size ≤ t.allocations.size := by
  unfold Tables.destroyAllocation
  split
  · exact Nat.le_refl _
  · rename_i a _
    rw [Tables.OnlyPorts.releaseRelayPort a.relayPort (some p) (Tables.eraseLookups a t)]
    exact size_eraseAllocation _ _

theorem size_register (a : Allocation) (overTcp : Bool) (t : Tables) :
    (Tables.register cfg a overTcp t).allocations.size ≤ t.allocations.size + 1 := by
  have hlookups : (Tables.enterLookups a overTcp t).allocations = t.allocations := by
    unfold Tables.enterLookups
    dsimp only
    split <;> split <;> rfl
  refine Nat.le_trans TreeMap.size_insert_le (Nat.succ_le_succ ?_)
  rw [← hlookups]
  exact size_eraseAllocation _ _

theorem handleAllocate_within {s : State} {env : Env} {src : AddrRecord} {conn : Option Ptr}
    {req : Message}
    (h : s.tables.allocations.size ≤ cfg.maxAllocations) :
    (handleAllocate cfg env s src conn req).tables.allocations.size ≤ cfg.maxAllocations := by
  unfold handleAllocate
  split
  · rw [replyError, reply_tables]
    exact h
  · rename_i transport _
    split
    · rw [replyError, reply_tables]
      exact h
    · rename_i hroom
      have honly := congrArg Tables.allocations
        (Tables.OnlyPorts.reserveRelay cfg env transport s.tables)
      split <;> rename_i hreserve <;> rw [hreserve] at honly
      · rw [replyError, reply_tables]
        exact Nat.le_trans (congrArg TreeMap.size honly).le h
      · rw [reply_tables]
        refine Nat.le_trans (size_register _ _ _) ?_
        exact Nat.le_trans (Nat.succ_le_succ (congrArg TreeMap.size honly).le)
          (Nat.lt_of_not_le hroom)

/-- No run of the server has more allocations than are configured. -/
theorem allocations_within_quota {s : State}
    (h : Reach (fun s => ∃ env, s = State.start cfg env) (fun s e t => t = step cfg s e) s) :
    s.tables.allocations.size ≤ cfg.maxAllocations := by
  refine Reach.invariant (P := fun s => s.tables.allocations.size ≤ cfg.maxAllocations) ?_ ?_ h
  · rintro s ⟨env, rfl⟩
    exact Nat.zero_le _
  · rintro s ⟨e, env⟩ t hs rfl
    refine step_tables_cases (R := fun t _ => t.allocations.size ≤ cfg.maxAllocations) hs ?_
      ⟨fun p => ?_, ?_, fun _ _ _ => hs, fun _ _ _ _ _ _ _ _ _ _ _ _ => hs, fun _ _ _ _ _ _ => hs,
        fun _ _ _ _ _ _ _ _ _ _ _ _ => hs, fun _ _ _ _ _ _ _ _ _ _ _ => hs⟩
    · intro x s' src conn msg _ hs'
      have hsize : s'.tables.allocations.size ≤ cfg.maxAllocations :=
        hs'.rule (Q := fun t => t.allocations.size ≤ cfg.maxAllocations) hs
          fun p => Nat.le_trans (size_destroyAllocation p _) hs
      exact handleAllocate_within hsize
    · exact Nat.le_trans (size_destroyAllocation p _) hs
    · exact expireAllocations_rule (R := fun t => t.allocations.size ≤ cfg.maxAllocations) hs
        (fun t t' h ht => by rw [ht]; exact h)
        (fun t p h => Nat.le_trans (size_destroyAllocation p t) h) fun _ _ _ h _ => h

/-- The second client finds the quota reached. -/
theorem allocations_within_quota_full :
    let cfg := { smallConfig with maxAllocations := 1 }
    let s := step cfg (State.start cfg smallEnv)
      (.udpData allocateUdp (.v4 192 168 0 7) 50000, smallEnv)
    let t := step cfg s (.udpData allocateUdp (.v4 192 168 0 8) 50000, smallEnv)
    s.tables.allocations.size = 1 ∧ t.tables.allocations.size ≤ 1 := by
  intro cfg s t
  have hs : s.tables.allocations.size = 1 := by decide +kernel
  have hreach : Reach (fun s => ∃ env, s = State.start cfg env) (fun s e t => t = step cfg s e) t :=
    .next (.udpData allocateUdp (.v4 192 168 0 8) 50000, smallEnv)
      (.next (.udpData allocateUdp (.v4 192 168 0 7) 50000, smallEnv) (.start ⟨smallEnv, rfl⟩) rfl)
        rfl
  exact ⟨hs, allocations_within_quota hreach⟩

end Stice.Server
