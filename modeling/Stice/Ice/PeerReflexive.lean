import Stice.Ice.Pairs

/-! Peer-reflexive candidates of requests that are refused. `findOrCreatePair` appends the
candidate of an unknown source before it looks for a local candidate and for room in the table
of pairs, and keeps it when it finds neither. -/
namespace Stice.Ice
open Lib Net Stun

namespace Agent

/-- The tables of the agent are the same. -/
structure Untouched (a b : Agent) : Prop where
  candidates : b.remoteDesc.candidates = a.remoteDesc.candidates
  pairs : b.pairs = a.pairs
  orderedPairs : b.orderedPairs = a.orderedPairs

/-- The first local candidate for a source, with its address. -/
def localAt (a : Agent) (src : AddrRecord) (transport : CandidateTransport) :
    Option (Candidate × Nat) :=
  a.localDesc.candidates.refs.find? fun l =>
    l.1.family = src.ip.family && l.1.transport.isTcp == transport.isTcp

/-- A candidate would be made for the source of a request. -/
def Learns (a : Agent) (src : AddrRecord) (transport : CandidateTransport) : Prop :=
  addrIsLinkLocal src.ip = false ∧
    (∀ r ∈ a.remoteDesc.candidates.refs, remoteAt src transport r.1 = false) ∧
    a.remoteDesc.candidates.elems.length < maxCandidates

/-- There is a local candidate for a source, and room for a pair with it (or a pair with the
address that its candidate gets). -/
def Seats (a : Agent) (src : AddrRecord) (transport : CandidateTransport) : Prop :=
  ∃ l, a.localAt src transport = some l ∧ (a.pairs.length < maxCandidatePairs ∨
    ∃ p ∈ a.pairs, p.localPtr = l.2 ∧ p.remotePtr = a.remoteDesc.candidates.stop)

variable {env : AgentEnv} {a : Agent} {src : AddrRecord} {transport : CandidateTransport}
  {priority : UInt32}

theorem pairRemote_none {r : Candidate × Nat} (h : (a.pairRemote r transport).1 = none) :
    (a.pairRemote r transport).2 = a := by
  unfold pairRemote at h ⊢
  split
  · rfl
  · rename_i l hl
    simp only [hl] at h
    split
    · rfl
    · rename_i hidx
      simp only [hidx] at h
      split
      · rfl
      · rename_i hroom
        rw [if_neg hroom] at h
        cases h

theorem pairRemote_learned_none (c : Candidate) (hc : c.family = src.ip.family) :
    ((a.pushRemote c).pairRemote (c, a.remoteDesc.candidates.stop) transport).1 = none ↔
      ¬Seats a src transport := by
  have hlocal : (a.pushRemote c).localDesc.candidates.refs.find?
      (fun l => localFor c transport l.1) = a.localAt src transport := by
    simp only [localFor, hc]
    rfl
  unfold pairRemote Seats
  rw [hlocal]
  cases a.localAt src transport with
  | none => simp
  | some l =>
    dsimp only
    cases hidx : (a.pushRemote c).pairs.findIdx?
        (·.joins l (c, a.remoteDesc.candidates.stop)) with
    | some i =>
      obtain ⟨hi, hjoins, -⟩ := List.findIdx?_eq_some_iff_getElem.mp hidx
      simp only [CandidatePair.joins, Bool.and_eq_true, decide_eq_true_eq] at hjoins
      exact ⟨fun h => absurd h (Option.some_ne_none _),
        fun h => absurd ⟨l, rfl, .inr ⟨_, List.getElem_mem hi, hjoins⟩⟩ h⟩
    | none =>
      have hnone : ∀ p ∈ a.pairs,
          ¬(p.localPtr = l.2 ∧ p.remotePtr = a.remoteDesc.candidates.stop) := by
        intro p hp hboth
        have hjoins := List.findIdx?_eq_none_iff.mp hidx p hp
        rw [CandidatePair.joins, decide_eq_true hboth.1, decide_eq_true hboth.2] at hjoins
        cases hjoins
      dsimp only
      split
      · rename_i hfull
        refine ⟨fun _ hseats => ?_, fun _ => rfl⟩
        obtain ⟨l', hl', hroom | ⟨p, hp, hboth⟩⟩ := hseats
        · exact absurd hroom (Nat.not_lt_of_le hfull)
        · cases hl'
          exact hnone p hp hboth
      · rename_i hroom
        exact ⟨fun h => absurd h (Option.some_ne_none _),
          fun h => absurd ⟨l, rfl, .inl (Nat.lt_of_not_le hroom)⟩ h⟩

theorem findOrCreatePair_of_learns (h : Learns a src transport) :
    a.findOrCreatePair env src priority transport =
      (a.pushRemote (peerReflexive env src priority transport)).pairRemote
        (peerReflexive env src priority transport, a.remoteDesc.candidates.stop) transport := by
  obtain ⟨hlink, hnew, hroom⟩ := h
  have hfind : a.remoteDesc.candidates.refs.find? (fun r => remoteAt src transport r.1) = none :=
    List.find?_eq_none.mpr fun r hr => by rw [hnew r hr]; decide
  unfold findOrCreatePair
  rw [hlink, if_neg Bool.false_ne_true, hfind]
  dsimp only
  rw [if_neg (Nat.not_le_of_lt hroom)]

theorem findOrCreatePair_of_not_learns (h : ¬Learns a src transport)
    (hnone : (a.findOrCreatePair env src priority transport).1 = none) :
    (a.findOrCreatePair env src priority transport).2 = a := by
  unfold findOrCreatePair at hnone ⊢
  split
  · rfl
  rename_i hlink
  rw [if_neg hlink] at hnone
  cases hfind : a.remoteDesc.candidates.refs.find? (fun r => remoteAt src transport r.1) with
  | some r =>
    simp only [hfind] at hnone
    exact pairRemote_none hnone
  | none =>
    dsimp only
    split
    · rfl
    · rename_i hroom
      refine absurd ⟨by simpa using hlink, fun r hr => ?_, Nat.lt_of_not_le hroom⟩ h
      simpa using List.find?_eq_none.mp hfind r hr

theorem findOrCreatePair_of_spared (h : Learns a src transport → Seats a src transport)
    (hnone : (a.findOrCreatePair env src priority transport).1 = none) :
    (a.findOrCreatePair env src priority transport).2 = a := by
  by_cases hlearns : Learns a src transport
  · rw [findOrCreatePair_of_learns hlearns] at hnone
    exact absurd (h hlearns) ((pairRemote_learned_none _ rfl).mp hnone)
  · exact findOrCreatePair_of_not_learns hlearns hnone

/-- A failure has no effect exactly if it does not come after a candidate has been made. -/
theorem findOrCreatePair_untouched_iff (env : AgentEnv) (a : Agent) (src : AddrRecord)
    (priority : UInt32) (transport : CandidateTransport) :
    ((a.findOrCreatePair env src priority transport).1 = none →
      Untouched a (a.findOrCreatePair env src priority transport).2) ↔
      (Learns a src transport → Seats a src transport) := by
  constructor
  · intro h hlearns
    by_contra hseats
    rw [findOrCreatePair_of_learns hlearns] at h
    have hfail := (@pairRemote_learned_none a src transport
      (peerReflexive env src priority transport) rfl).mpr hseats
    have hsame := (h hfail).candidates
    rw [pairRemote_none hfail] at hsame
    have hlength := congrArg (fun d => d.elems.length) hsame
    simp [pushRemote, Deque.pushBack] at hlength
  · intro h hnone
    rw [findOrCreatePair_of_spared h hnone]
    exact ⟨rfl, rfl, rfl⟩

/-! ## Requests that are refused -/

/-- An inbound request, with the surroundings in which it is handled. -/
structure Request where
  msg : Message
  src : AddrRecord
  transport : CandidateTransport
  env : AgentEnv

def handle (a : Agent) (q : Request) : Agent :=
  a.handleBindingRequest q.env q.msg q.src q.transport

/-- The request is authentic, and there is no pair for it. -/
structure Refused (a : Agent) (q : Request) : Prop where
  foreign : (a.localDesc.candidates.elems.any fun c => c.type = .relayed && c.isAt q.src) = false
  authentic : a.verifyBindingRequest q.msg = true
  role : ∃ mode, a.resolveRole q.msg = some mode ∧ ((a.setMode mode).findOrCreatePair q.env q.src
    ((readPriority q.msg).getD 0) q.transport).1 = none

/-- A refusal is the answer 500. -/
theorem Refused.handle_eq {q : Request} (h : Refused a q) :
    ∃ mode, a.handle q = (((a.setMode mode).findOrCreatePair q.env q.src
      ((readPriority q.msg).getD 0) q.transport).2).sendBindingResponse q.msg q.src 500 ∧
      ((a.setMode mode).findOrCreatePair q.env q.src ((readPriority q.msg).getD 0)
        q.transport).1 = none := by
  obtain ⟨mode, hrole, hnone⟩ := h.role
  refine ⟨mode, ?_, hnone⟩
  unfold handle handleBindingRequest
  rw [h.foreign, if_neg Bool.false_ne_true, h.authentic, if_neg (by decide), hrole]
  dsimp only
  unfold answerRequest
  split
  · rename_i b heq
    rw [heq]
  · rename_i i b heq
    rw [heq] at hnone
    cases hnone

/-- A request that is refused, and leaves no candidate behind. -/
def Spared (a : Agent) (q : Request) : Prop :=
  Refused a q ∧ (Learns a q.src q.transport → Seats a q.src q.transport)

theorem Spared.handle {q : Request} (h : Spared a q) :
    (a.handle q).localDesc = a.localDesc ∧ (a.handle q).remoteDesc = a.remoteDesc ∧
      (a.handle q).pairs = a.pairs := by
  obtain ⟨hrefused, hseats⟩ := h
  obtain ⟨mode, heq, hnone⟩ := hrefused.handle_eq
  obtain ⟨hlocal, hremote, hpairs⟩ := setMode_tables a mode
  have hspared : Learns (a.setMode mode) q.src q.transport →
      Seats (a.setMode mode) q.src q.transport := by
    unfold Learns Seats localAt
    rw [hlocal, hremote, hpairs]
    exact hseats
  rw [heq, findOrCreatePair_of_spared hspared hnone]
  exact ⟨hlocal, hremote, hpairs⟩

/-- A refusal changes no table exactly if no candidate has been made for it. In a sequence of
such refusals the remote candidates stay as they are, and so does the room for later ones. -/
theorem refusals_leave_tables (a : Agent) :
    (∀ env src priority transport,
      ((a.findOrCreatePair env src priority transport).1 = none →
        Untouched a (a.findOrCreatePair env src priority transport).2) ↔
        (Learns a src transport → Seats a src transport)) ∧
      ∀ l : List Request, AllSteps Spared handle a l →
        (l.foldl handle a).remoteDesc = a.remoteDesc ∧ (l.foldl handle a).pairs = a.pairs ∧
          ∀ parse line, (l.foldl handle a).remoteDesc.addCandidateFromSdp parse line =
            a.remoteDesc.addCandidateFromSdp parse line := by
  refine ⟨fun env => findOrCreatePair_untouched_iff env a, fun l h => ?_⟩
  have hsame : (l.foldl handle a).remoteDesc = a.remoteDesc ∧
      (l.foldl handle a).pairs = a.pairs := by
    induction l generalizing a with
    | nil => exact ⟨rfl, rfl⟩
    | cons q l ih =>
      obtain ⟨-, hremote, hpairs⟩ := h.1.handle
      obtain ⟨hremote', hpairs'⟩ := ih (a.handle q) h.2
      exact ⟨hremote'.trans hremote, hpairs'.trans hpairs⟩
  exact ⟨hsame.1, hsame.2, fun parse line => by rw [hsame.1]⟩

/-- A request of the peer, which the agent can verify. -/
def authenticRequest : Message :=
  (decode (peerRequest (oneTid 1) [])).getD
    { method := .binding, cls := .request, transactionID := oneTid 1, attributes := [], raw := [] }

/-- It comes from a link-local address. -/
def linkLocalRequest (host : UInt8) : Request :=
  ⟨authenticRequest, ⟨.v4 169 254 0 host, 2000, .dgram⟩, .udp, calmEnv 3⟩

theorem refusals_leave_tables_link_local :
    let l := [linkLocalRequest 1, linkLocalRequest 2]
    armed.remoteDesc.candidates.elems.length = 1 ∧
      (l.foldl handle armed).remoteDesc = armed.remoteDesc ∧
      (l.foldl handle armed).pairs = armed.pairs := by
  intro l
  have hfirst : Refused armed (linkLocalRequest 1) :=
    ⟨by decide +kernel, by decide +kernel, .controlling, by decide +kernel, rfl⟩
  have hsecond : Refused (armed.handle (linkLocalRequest 1)) (linkLocalRequest 2) :=
    ⟨by decide +kernel, by decide +kernel, .controlling, by decide +kernel, rfl⟩
  have hleave := (refusals_leave_tables armed).2 l
    ⟨⟨hfirst, fun h => absurd h.1 (by decide)⟩, ⟨hsecond, fun h => absurd h.1 (by decide)⟩, trivial⟩
  exact ⟨by decide +kernel, hleave.1, hleave.2.1⟩

/-- The agent after as many requests that find no pair as there are candidates. -/
def flooded : Agent :=
  (List.range maxCandidates).foldl (fun a k =>
    (a.findOrCreatePair (calmEnv 1) (udpAt 2 (UInt16.ofNat (2000 + k))) 0 .udp).2) (small {})

/-- Without a local candidate no request finds a pair, but each leaves a candidate, until there
is no room for those of the peer. -/
theorem refusals_fill_candidates :
    ((small {}).findOrCreatePair (calmEnv 1) (udpAt 2 2000) 0 .udp).1 = none ∧
      ((small {}).step (.udpPacket (peerRequest (oneTid 1) []) (udpAt 2 2000),
        calmEnv 1)).remoteDesc.candidates.elems.length = 1 ∧
      flooded.pairs = [] ∧ flooded.remoteDesc.candidates.elems.length = 30 ∧
      (flooded.remoteDesc.addCandidateFromSdp (fun _ => some (hostAt (udpAt 3 3000))) []).isNone ∧
      ((small {}).remoteDesc.addCandidateFromSdp
        (fun _ => some (hostAt (udpAt 3 3000))) []).isSome := by
  decide +kernel

end Agent

end Stice.Ice
