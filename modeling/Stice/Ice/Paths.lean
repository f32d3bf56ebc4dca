import Stice.Ice.Moves

/-! Every function of the agent is a path of moves. -/
namespace Stice.Ice
open Lib Net Stun
open Tcp (TcpState)

/-- The moves of `armNextFrozenPair`. A deferred allocation that fails at once may end gathering,
and so form pairs. -/
def Kind.arming : Kind → Bool
  | .setup | .armPair | .pushRelay | .relay | .countRelay | .announce | .fill | .connect => true
  | _ => false

/-- The moves of a new local candidate. -/
def Kind.adding : Kind → Bool
  | .pushLocal | .sort => true
  | k => k.arming

/-- The moves of the worker of `gatherCandidates`. -/
def Kind.working : Kind → Bool
  | .worker | .pushServer => true
  | k => k.arming

/-- The moves of `gatherCandidates` once gathering has begun. -/
def Kind.preparing : Kind → Bool
  | .worker => true
  | k => k.adding

def Kind.gathering : Kind → Bool
  | .gather => true
  | k => k.preparing

/-- The moves of remote candidates. -/
def Kind.describing : Kind → Bool
  | .replace | .pushRemote => true
  | k => k.adding

/-- The moves of a Binding request once the roles agree. -/
def Kind.replying : Kind → Bool
  | .pushRemote | .append | .nominate | .pend | .arm | .armPair | .respond => true
  | _ => false

/-- The moves of a Binding request. -/
def Kind.requested : Kind → Bool
  | .role => true
  | k => k.replying

/-- The moves of a check that is refused. -/
def Kind.failing : Kind → Bool
  | .failEntry | .failPair | .update => true
  | k => k.arming

/-- The moves of a role conflict. -/
def Kind.switching : Kind → Bool
  | .role | .arm => true
  | _ => false

/-- The moves of a response to a check. -/
def Kind.checked : Kind → Bool
  | .accept => true
  | k => k.switching || k.failing

/-- The moves of a response of a STUN server. -/
def Kind.served : Kind → Bool
  | .settleServer => true
  | k => k.adding

/-- The moves of a Binding response. -/
def Kind.answered (k : Kind) : Bool := k.served || k.checked

/-- The moves of a packet without a STUN message. -/
def Kind.quiet : Kind → Bool
  | .setup | .select | .note => true
  | _ => false

def Kind.received : Kind → Bool
  | .select | .note => true
  | k => k.requested || k.answered

/-- The moves of a connection. -/
def Kind.linked : Kind → Bool
  | .flush | .failPair | .cancel | .erase | .update => true
  | k => k.arming

/-- The moves of a timer pass for an entry, once its request has been sent. -/
def Kind.driven : Kind → Bool
  | .timer | .keepalive | .settleServer | .failEntry | .failPair => true
  | k => k.arming

/-- The moves that end a timer pass. -/
def Kind.closing : Kind → Bool
  | .request | .freeze | .update | .pass => true
  | _ => false

/-- The moves that begin a timer pass. -/
def Kind.opening : Kind → Bool
  | .seed | .reset => true
  | k => k.arming

/-- The moves of a timer pass for its entries. -/
def Kind.driving : Kind → Bool
  | .send | .resend => true
  | k => k.driven

/-- The moves of a timer pass once the time of gathering has been looked at. -/
def Kind.passing (k : Kind) : Bool := k.driving || k.closing

/-- The moves of a timer pass. -/
def Kind.timed (k : Kind) : Bool := k.opening || k.passing

namespace Agent

variable {env : AgentEnv} {a : Agent}
variable {data : Bytes} {j : Nat} {e : StunEntry} {K : Kind → Bool} {b : Agent}
variable {transport : CandidateTransport} {msg : Message} {i : Nat} {src : AddrRecord}

/-! ## The schedule -/

/-- A change of the strategy. -/
theorem Goes.pairing (hK : K .setup = true) (a : Agent) (c : IcePairingConfig) :
    Goes env K a { a with pairing := c } :=
  .move (.setup (by constructor <;> rfl)) hK

theorem lt_of_pairState {s : PairState} (h : a.pairState i = some s) : i < a.pairs.length := by
  unfold pairState at h
  obtain ⟨p, hp, _⟩ := Option.map_eq_some_iff.mp h
  exact (List.getElem?_eq_some_iff.mp hp).1

theorem Goes.armLoop (l : List Nat) (budget : Nat) (a : Agent) :
    Goes env Kind.arming a (Agent.armLoop env l budget a) := by
  induction l generalizing budget a with
  | nil => exact .refl a
  | cons i l ih =>
    cases budget with
    | zero => exact .refl a
    | succ budget =>
      unfold Agent.armLoop
      split
      · exact ih (budget + 1) a
      · rename_i hskip
        have hfrozen : a.pairState i = some .frozen := by
          by_contra hne
          exact hskip (.inl hne)
        split
        · rename_i hnew
          have hpush : Goes env Kind.arming a (a.armPair env i) := by
            refine .move (.armPair i (Option.isNone_iff_eq_none.mp hnew.1) ?_
              (lt_of_pairState hfrozen)) rfl
            rw [hfrozen]
            decide
          dsimp only
          split
          · exact hpush
          · exact hpush.trans (ih budget _)
        · split
          · exact .refl a
          · exact ih (budget + 1) a

theorem Goes.armFrozenPairs (a : Agent) : Goes env Kind.arming a (a.armFrozenPairs env) :=
  Goes.trans (.pairing rfl a _) (.armLoop _ _ _)

/-- While pairs are armed, a gathering agent stays or begins to connect. -/
theorem Goes.gathering (h : Goes env Kind.arming a b)
    (ha : a.state = .gathering ∨ a.state = .connecting) :
    b.state = .gathering ∨ b.state = .connecting := by
  refine Goes.invariant (P := fun a => a.state = .gathering ∨ a.state = .connecting) ?_ h ha
  intro a k b hk hm ha
  cases hm <;> first
    | exact absurd hk (by decide)
    | exact ha
    | skip
  case setup h => rwa [h.state]
  case connect h =>
    right
    unfold Agent.changeState
    split
    · assumption
    · rfl

theorem full_fillPairs (a : Agent) : Full a.fillPairs := by
  intro hroom l hl r hr hpairable
  refine fill_complete ?_ hroom hl hr hpairable
  intro l r
  unfold CandidatePair.joins newPair
  simp

theorem Goes.full (h : Goes env Kind.arming a b) (ha : Full a) : Full b := by
  refine Goes.invariant (P := Full) ?_ h ha
  intro a k b hk hm ha
  cases hm with
  | setup h =>
    unfold Full
    rw [h.pairs, h.localDesc, h.remoteCandidates]
    exact ha
  | fill => exact full_fillPairs a
  | connect =>
    have hframe := @Frame.changeState env a .connecting
    unfold Full
    rw [hframe.pairs, hframe.localDesc, hframe.remoteDesc]
    exact ha
  | armPair | pushRelay | relay | countRelay | announce => exact ha
  | _ => exact absurd hk (by decide)

section
variable {arm : Agent → Agent}

theorem Full.formPairsWith (harm : ∀ a, Goes env Kind.arming a (arm a)) (a : Agent) :
    Full (a.formPairsWith arm) :=
  (harm _).full (full_fillPairs a)

theorem Goes.formPairsWith (harm : ∀ a, Goes env Kind.arming a (arm a)) (a : Agent) :
    Goes env Kind.arming a (a.formPairsWith arm) :=
  Goes.trans (.move .fill rfl) (harm _)

theorem Goes.checkGatheringCompleteWith (harm : ∀ a, Goes env Kind.arming a (arm a)) (a : Agent) :
    Goes env Kind.arming a (a.checkGatheringCompleteWith env arm) := by
  unfold Agent.checkGatheringCompleteWith
  split
  · exact .refl a
  · rename_i h
    simp only [not_or, not_lt, gt_iff_lt, Bool.not_eq_true] at h
    have hannounce : Goes env Kind.arming a a.announceGathering :=
      .move (.announce h.1 h.2.1 h.2.2) rfl
    dsimp only
    split
    · rename_i hready
      have hformed := Goes.formPairsWith harm a.announceGathering
      exact (hannounce.trans hformed).tail
        (.connect (hformed.gathering (.inl hready.2.2)) (.formPairsWith harm _)) rfl
    · exact hannounce

theorem Goes.countRelayWith (harm : ∀ a, Goes env Kind.arming a (arm a)) (a : Agent) (j : Nat) :
    Goes env Kind.arming a (a.countRelayWith env arm j) := by
  unfold Agent.countRelayWith
  split
  · rename_i h
    exact Goes.trans (.move (.countRelay j h) rfl) (.checkGatheringCompleteWith harm _)
  · exact .refl a

theorem Goes.relayFailedWith (harm : ∀ a, Goes env Kind.arming a (arm a)) (a : Agent) (j : Nat) :
    Goes env Kind.arming a (a.relayFailedWith env arm j) := by
  refine Goes.trans (.move (.relay j (fun r => { r with allocated := false }) ?_) rfl)
    (.countRelayWith harm _ j)
  intro r
  rfl

theorem Goes.createRelayEntryWith (harm : ∀ a, Goes env Kind.arming a (arm a)) (a : Agent)
    (srv : TurnServer) (index : Int) (resolved : AddrRecord) :
    Goes env Kind.arming a (a.createRelayEntryWith env arm srv index resolved) := by
  unfold Agent.createRelayEntryWith
  have hpush : Goes env Kind.arming a (a.pushRelay env srv index resolved) :=
    .move (.pushRelay srv index resolved) rfl
  split
  · exact .refl a
  · split
    · exact hpush.trans (.relayFailedWith harm _ _)
    · exact hpush

theorem Goes.gatherRelayWith (harm : ∀ a, Goes env Kind.arming a (arm a)) (a : Agent)
    (srv : TurnServer × Int) : Goes env Kind.arming a (a.gatherRelayWith env arm srv) := by
  unfold Agent.gatherRelayWith
  split
  · exact .refl a
  · exact .createRelayEntryWith harm a _ _ _

end

theorem Goes.createDeferredTcpRelayAllocations (a : Agent) :
    Goes env Kind.arming a (a.createDeferredTcpRelayAllocations env) := by
  unfold Agent.createDeferredTcpRelayAllocations
  split
  · exact .refl a
  · refine Goes.trans (.pairing rfl a _) (.foldl ?_ _ _)
    intro b srv
    exact .gatherRelayWith Goes.armFrozenPairs b srv

theorem Goes.maybeEnterTcpPhase (a : Agent) :
    Goes env Kind.arming a (a.maybeEnterTcpPhase env) := by
  unfold Agent.maybeEnterTcpPhase
  split
  · exact .refl a
  · dsimp only
    split
    · exact Goes.trans (.pairing rfl a _) (.createDeferredTcpRelayAllocations _)
    · exact .pairing rfl a _

theorem Goes.armNextFrozenPair (a : Agent) : Goes env Kind.arming a (a.armNextFrozenPair env) :=
  Goes.trans (.maybeEnterTcpPhase a) (.armFrozenPairs _)

theorem Goes.formPairs (a : Agent) : Goes env Kind.arming a (a.formPairs env) :=
  .formPairsWith Goes.armNextFrozenPair a

theorem Full.formPairs (a : Agent) : Full (a.formPairs env) :=
  .formPairsWith Goes.armNextFrozenPair a

theorem Goes.checkGatheringComplete (a : Agent) :
    Goes env Kind.arming a (a.checkGatheringComplete env) :=
  .checkGatheringCompleteWith Goes.armNextFrozenPair a

theorem Goes.countRelay (a : Agent) (j : Nat) : Goes env Kind.arming a (a.countRelay env j) :=
  .countRelayWith Goes.armNextFrozenPair a j

theorem Goes.relayFailed (a : Agent) (j : Nat) : Goes env Kind.arming a (a.relayFailed env j) :=
  .relayFailedWith Goes.armNextFrozenPair a j

/-! ## Candidates -/

theorem Goes.addLocalCandidate (a : Agent) (c : Candidate) :
    Goes env Kind.adding a (a.addLocalCandidate env c) := by
  have hpush : Goes env Kind.adding a (a.pushLocal c) := .move (.pushLocal c) rfl
  unfold Agent.addLocalCandidate
  split
  · exact .refl a
  · dsimp only
    split
    · rename_i hs
      exact hpush.tail (.sort hs) rfl
    · split
      · exact hpush.trans ((Goes.formPairs _).mono (by decide))
      · exact hpush

/-- A change of the ICE-TCP transport. -/
theorem Goes.tcpTransport (hK : K .setup = true) (a : Agent)
    (t : Option TcpState) : Goes env K a { a with tcpTransport := t } :=
  .move (.setup (by constructor <;> rfl)) hK

theorem Goes.dialPassive (a : Agent) (r : Candidate) :
    Goes env Kind.adding a (a.dialPassive env r) := by
  unfold Agent.dialPassive Agent.addRemotePassiveTcpCandidate
  split
  · split
    · exact .refl a
    · split
      · exact .tcpTransport rfl a none
      · exact Goes.trans (.tcpTransport rfl a _) (.addLocalCandidate _ _)
  · exact .refl a

theorem Goes.settleGathering (a : Agent) : Goes env Kind.arming a (a.settleGathering env) := by
  unfold Agent.settleGathering
  split
  · exact .checkGatheringComplete a
  · exact .refl a

theorem Goes.planGathering (hs : K .setup = true) (hw : K .worker = true)
    (a : Agent) : Goes env K a (a.planGathering env) := by
  have hsetup : Goes env K a { a with
      deferredTcpTurnServers := a.deferredTcpTurnServers ++ a.deferredServers
      pairing := a.gatherPhase env } :=
    .move (.setup (by constructor <;> rfl)) hs
  exact hsetup.tail (.worker (if a.gatherItems = [] then a.gatherWorker else some a.gatherItems))
    hw

/-- Unless the agent may not gather, it starts a round and prepares it. -/
theorem Goes.gatherCandidates_cases (a : Agent) (hosts : List Candidate) :
    a.gatherCandidates env hosts = a ∨ (a.state = .disconnected ∨ a.state = .failed) ∧
      Goes env Kind.preparing (a.startGathering env) (a.gatherCandidates env hosts) := by
  unfold Agent.gatherCandidates
  split
  · exact .inl rfl
  · rename_i hstate
    right
    refine ⟨by by_contra hne; exact hstate (not_or.mp hne), ?_⟩
    have hhosts : Goes env Kind.preparing (a.startGathering env) _ :=
      (Goes.foldl Goes.addLocalCandidate hosts _).mono (by decide)
    have hplanned := hhosts.trans (.planGathering rfl rfl _)
    dsimp only
    split
    · exact hplanned.trans ((Goes.settleGathering _).mono (by decide))
    · exact hplanned

theorem Goes.gatherCandidates (a : Agent) (hosts : List Candidate) :
    Goes env Kind.gathering a (a.gatherCandidates env hosts) := by
  rcases @Goes.gatherCandidates_cases env a hosts with heq | ⟨hstate, hpath⟩
  · rw [heq]
    exact .refl a
  · have hstart : Goes env Kind.gathering a (a.startGathering env) := .move (.gather hstate) rfl
    exact hstart.trans (hpath.mono (by decide))

theorem Goes.gatherItem (a : Agent) (item : GatherItem) :
    Goes env Kind.working a (a.gatherItem env item) := by
  cases item with
  | stun host port =>
    unfold Agent.gatherItem Agent.createServerReflexiveEntry
    dsimp only
    split
    · exact .refl a
    · split
      · exact .refl a
      · rename_i hroom
        simp only [not_or, Bool.not_eq_false] at hroom
        exact .move (.pushServer _ hroom.2) rfl
  | turn srv index =>
    exact (Goes.gatherRelayWith Goes.armNextFrozenPair a (srv, index)).mono (by decide)

theorem Goes.gatherCandidatesWorker (a : Agent) :
    Goes env Kind.working a (a.gatherCandidatesWorker env) := by
  unfold Agent.gatherCandidatesWorker
  split
  · exact .refl a
  · rename_i items _
    have htaken : Goes env Kind.working a { a with gatherWorker := none } :=
      .move (.worker none) rfl
    exact (htaken.trans (.foldl Goes.gatherItem items _)).trans
      ((Goes.settleGathering _).mono (by decide))

theorem Goes.onAllocated (a : Agent) (j : Nat) (relayed : AddrRecord) :
    Goes env Kind.adding a (a.onAllocated env j relayed) := by
  unfold Agent.onAllocated
  split
  · exact .refl a
  · have hset : Goes env Kind.adding a (a.setRelayed j relayed) := by
      refine .move (.relay j (fun r => { r with allocated := true, relayed := some relayed }) ?_)
        rfl
      intro r
      rfl
    exact (hset.trans (.addLocalCandidate _ _)).trans
      ((Goes.countRelay _ j).mono (by decide))

/-- A description that parses takes its place first. -/
theorem Goes.setRemoteDescription_cases (a : Agent) (sdp : Bytes) :
    a.setRemoteDescription env sdp = a ∨ ∃ d, Description.parse env.parseCandidate sdp = some d ∧
      Goes env Kind.adding (a.replaceRemote d) (a.setRemoteDescription env sdp) := by
  unfold Agent.setRemoteDescription
  split
  · exact .inl rfl
  · rename_i d hd
    right
    refine ⟨d, hd, ?_⟩
    have hdialled := Goes.foldl (@Goes.dialPassive env) d.candidates.elems (a.replaceRemote d)
    dsimp only
    split
    · rename_i hstate
      have hformed := @Goes.formPairs env
        (d.candidates.elems.foldl (Agent.dialPassive env) (a.replaceRemote d))
      have hpath := hdialled.trans (hformed.mono (by decide))
      split
      · exact hpath.tail (.connect (hformed.gathering (.inl hstate)) (.formPairs _)) rfl
      · exact hpath
    · exact hdialled

theorem Goes.setRemoteDescription (a : Agent) (sdp : Bytes) :
    Goes env Kind.describing a (a.setRemoteDescription env sdp) := by
  rcases @Goes.setRemoteDescription_cases env a sdp with heq | ⟨d, -, hpath⟩
  · rw [heq]
    exact .refl a
  · have hreplace : Goes env Kind.describing a (a.replaceRemote d) := .move (.replace d) rfl
    exact hreplace.trans (hpath.mono (by decide))

theorem Goes.pairTrickled (a : Agent) : Goes env Kind.arming a (a.pairTrickled env) := by
  unfold Agent.pairTrickled
  split
  · exact .formPairs a
  · split
    · rename_i h
      have hformed := @Goes.formPairs env a
      exact hformed.tail (.connect (hformed.gathering (.inl h.1)) (.formPairs a)) rfl
    · exact .refl a

theorem addRemoteCandidate_cases (env : AgentEnv) (a : Agent) (line : Bytes) :
    a.addRemoteCandidate env line = a ∨ ∃ c, env.parseCandidate line = some c ∧
      a.addRemoteCandidate env line = (dialPassive env (a.pushRemote c) c).pairTrickled env := by
  unfold addRemoteCandidate
  split
  · exact .inl rfl
  · rename_i d hd
    obtain ⟨c, hc, rfl⟩ := Description.addCandidateFromSdp_some hd
    rw [show (a.remoteDesc.candidates.pushBack c).elems.getLast? = some c from
      List.getLast?_concat]
    dsimp only
    split
    · -- the candidate is dropped again
      left
      rw [Deque.popBack_pushBack]
    · exact .inr ⟨c, hc, rfl⟩

theorem Goes.addRemoteCandidate (a : Agent) (line : Bytes) :
    Goes env Kind.describing a (a.addRemoteCandidate env line) := by
  rcases addRemoteCandidate_cases env a line with heq | ⟨c, _, heq⟩
  · rw [heq]
    exact .refl a
  · rw [heq]
    have hpush : Goes env Kind.describing a (a.pushRemote c) := .move (.pushRemote c) rfl
    exact (hpush.trans ((Goes.dialPassive _ c).mono (by decide))).trans
      ((Goes.pairTrickled _).mono (by decide))

/-! ## Requests -/

theorem Goes.pairRemote (a : Agent) {r : Candidate × Nat} (transport : CandidateTransport)
    (hr : r ∈ a.remoteDesc.candidates.refs) :
    Goes env Kind.replying a (a.pairRemote r transport).2 := by
  unfold Agent.pairRemote
  split
  · exact .refl a
  · rename_i l hl
    split
    · exact .refl a
    · rename_i hnew
      split
      · exact .refl a
      · rename_i hroom
        refine .move (.append l r (List.mem_of_find?_eq_some hl) hr ?_ (not_le.mp hroom)) rfl
        intro p hp
        exact List.findIdx?_eq_none_iff.mp hnew p hp

theorem Goes.findOrCreatePair (a : Agent) (src : AddrRecord) (priority : UInt32)
    (transport : CandidateTransport) :
    Goes env Kind.replying a (a.findOrCreatePair env src priority transport).2 := by
  unfold Agent.findOrCreatePair
  split
  · exact .refl a
  · split
    · rename_i r hr
      exact .pairRemote a transport (List.mem_of_find?_eq_some hr)
    · split
      · exact .refl a
      · have hpush : Goes env Kind.replying a
            (a.pushRemote (peerReflexive env src priority transport)) :=
          .move (.pushRemote _) rfl
        refine hpush.trans (.pairRemote _ transport ?_)
        exact Deque.mem_refs.mpr (Deque.at?_pushBack_stop _ _)

/-- The pair of a request is in the table. -/
theorem pairRemote_row {r : Candidate × Nat} {b : Agent}
    (h : a.pairRemote r transport = (some i, b)) : i < b.pairs.length := by
  unfold Agent.pairRemote at h
  split at h
  · cases h
  · split at h
    · rename_i k hk
      cases h
      exact (List.findIdx?_eq_some_iff_getElem.mp hk).1
    · split at h
      · cases h
      · cases h
        exact (List.length_append ..).symm ▸ Nat.lt_succ_self _

theorem findOrCreatePair_row {priority : UInt32} {b : Agent}
    (h : a.findOrCreatePair env src priority transport = (some i, b)) : i < b.pairs.length := by
  unfold Agent.findOrCreatePair at h
  split at h
  · cases h
  · split at h
    · exact pairRemote_row h
    · split at h
      · cases h
      · exact pairRemote_row h

theorem Goes.sendBindingResponse (hK : K .respond = true) (a : Agent) (msg : Message)
    (dst : AddrRecord) (code : Nat) : Goes env K a (a.sendBindingResponse msg dst code) :=
  .move (.respond msg dst code) hK

theorem findEntry_some {i j : Nat} (h : a.findEntry i = some j) :
    ∃ e, a.entries[j]? = some e ∧ e.pair = some i := by
  unfold findEntry at h
  obtain ⟨hj, hpair, _⟩ := List.findIdx?_eq_some_iff_getElem.mp h
  exact ⟨a.entries[j], List.getElem?_eq_getElem hj, by simpa using hpair⟩

/-- An entry of a pair is a check, and only checks are kept alive. -/
structure Checking (e : StunEntry) : Prop where
  of_pair : e.pair ≠ none → e.type = .check
  of_server : e.type = .server → e.state ≠ .succeededKeepalive

def Checks (a : Agent) : Prop := ∀ e ∈ a.entries, Checking e

theorem Checks.type (h : Checks a) (he : a.entries[j]? = some e) (hi : e.pair = some i) :
    e.type = .check :=
  (h e (List.mem_of_getElem? he)).of_pair (by rw [hi]; exact Option.some_ne_none i)

theorem Checks.ne_server (h : Checks a) (he : a.entries[j]? = some e) (hi : e.pair = some i) :
    e.type ≠ .server := by
  rw [h.type he hi]
  decide

theorem Checks.modifyEntry (h : Checks a) (j : Nat) {f : StunEntry → StunEntry}
    (hf : ∀ e, a.entries[j]? = some e → (f e).type = e.type ∧ (f e).pair = e.pair ∧
      (e.type = .server → (f e).state = .succeededKeepalive → e.state = .succeededKeepalive)) :
    Checks (a.modifyEntry j f) := by
  refine forall_mem_modify h fun e he => ?_
  obtain ⟨htype, hpair, hstate⟩ := hf e he
  have he := h e (List.mem_of_getElem? he)
  constructor
  · rw [htype, hpair]
    exact he.of_pair
  · rw [htype]
    exact fun hserver hkept => he.of_server hserver (hstate hserver hkept)

theorem Checks.of_entries (h : Checks a) (heq : b.entries = a.entries) : Checks b := by
  unfold Checks
  rw [heq]
  exact h

theorem Move.checks {k : Kind} {b : Agent} (h : Move env a k b) (ha : Checks a) : Checks b := by
  cases h with
  | setup h => exact ha.of_entries h.entries
  | gather => exact ha.of_entries (@Frame.changeState env a .gathering).entries
  | connect => exact ha.of_entries (Frame.changeState a _).entries
  | update => exact ha.of_entries (Frame.updateState a).entries
  | armPair i => exact forall_mem_concat ha ⟨fun _ => rfl, fun h => StunEntryType.noConfusion h⟩
  | pushServer resolved =>
    exact forall_mem_concat ha ⟨fun h => absurd rfl h, fun _ h => StunEntryState.noConfusion h⟩
  | pushRelay srv index resolved =>
    exact forall_mem_concat ha ⟨fun h => absurd rfl h, fun _ h => StunEntryState.noConfusion h⟩
  | settleServer j s he htype hpending hs =>
    refine ha.modifyEntry j fun _ _ => ⟨rfl, rfl, fun _ hkept => ?_⟩
    rcases hs with rfl | rfl <;> cases hkept
  | failEntry j => exact ha.modifyEntry j fun _ _ => ⟨rfl, rfl, fun _ h => by cases h⟩
  | countRelay j | relay j f => exact ha.modifyEntry j fun _ _ => ⟨rfl, rfl, fun _ h => h⟩
  | arm j delay => exact ha.modifyEntry j fun _ _ => ⟨rfl, rfl, fun _ h => by cases h⟩
  | keepalive j he hs =>
    refine ha.modifyEntry j fun d hd => ⟨rfl, rfl, fun _ _ => ?_⟩
    cases he.symm.trans hd
    exact hs
  | timer j f hf | flush j f hf =>
    refine ha.modifyEntry j fun e _ => ⟨(hf e).type, (hf e).pair, fun _ h => ?_⟩
    rwa [(hf e).state] at h
  | flushes f hf =>
    intro e he
    obtain ⟨d, hd, rfl⟩ := List.mem_map.mp he
    constructor
    · rw [(hf d).type, (hf d).pair]
      exact (ha d hd).of_pair
    · rw [(hf d).type, (hf d).state]
      exact (ha d hd).of_server
  | send j he =>
    rcases sendCheck_entries env he with heq | ⟨tid, _, heq⟩
    · exact ha.of_entries heq
    · refine Checks.of_entries (ha.modifyEntry j ?_) heq
      intro d hd
      cases he.symm.trans hd
      exact ⟨rfl, rfl, fun _ h => h⟩
  | cancel f =>
    intro e he
    obtain ⟨d, hd, rfl⟩ := List.mem_map.mp he
    split
    · exact ⟨(ha d hd).of_pair, fun _ h => by cases h⟩
    · exact ha d hd
  | erase keeps => exact fun e he => ha e (List.mem_of_mem_filter he)
  | accept j i he htype =>
    obtain ⟨time, heq⟩ := (acceptAnswer_answered env a j i).entries
    refine Checks.of_entries (ha.modifyEntry j ?_) heq
    intro d hd
    cases he.symm.trans hd
    exact ⟨rfl, rfl, fun h => absurd h htype⟩
  | request i =>
    rcases askNomination_entries env a i with heq | ⟨j, f, _, heq⟩
    · exact ha.of_entries heq
    · refine Checks.of_entries (ha.modifyEntry j ?_) heq
      exact fun _ _ => ⟨rfl, rfl, fun _ h => by cases h⟩
  | failPair i => exact ha.of_entries (setPairState_entries i .failed)
  | freeze =>
    refine ha.of_entries ?_
    unfold freezeOthers
    split <;> rfl
  | _ => exact ha

theorem Goes.checks (h : Goes env K a b) (ha : Checks a) : Checks b :=
  Goes.invariant (fun _ _ _ _ hm ha => hm.checks ha) h ha

theorem pairState_setPairState (i : Nat) (s : PairState) (h : s ≠ .succeeded) :
    (a.setPairState (some i) s).pairState i ≠ some .succeeded := by
  cases hp : a.pairs[i]? with
  | none => simp [pairState, setPairState, modifyPair, List.getElem?_modify_eq, hp]
  | some p => simpa [pairState, setPairState, modifyPair, List.getElem?_modify_eq, hp] using h

theorem Goes.triggerCheck (hc : Checks a) (hrow : i < a.pairs.length) :
    Goes env Kind.replying a (a.triggerCheck env i) := by
  unfold Agent.triggerCheck
  split
  · rename_i h
    have hpend : Goes env Kind.replying a (a.setPairState (some i) .pending) :=
      .move (.pend i h.1) rfl
    dsimp only
    split
    · rename_i j hj
      obtain ⟨e, he, hpair⟩ := findEntry_some hj
      exact hpend.tail (.arm j stunPacingTimeMs he (hc.ne_server he hpair)) rfl
    · rename_i hnone
      split
      · refine hpend.tail (.armPair i hnone (pairState_setPairState i .pending (by decide)) ?_) rfl
        exact (List.length_modify ..).symm ▸ hrow
      · exact hpend
  · exact .refl a

theorem nominate_of_not (h : hasUseCandidate msg = false) (c : PairCheck) : nominate msg c = c := by
  unfold Agent.nominate
  rw [h]
  rfl

theorem modifyPair_id {f : PairCheck → PairCheck} (hf : ∀ c, f c = c) (a : Agent) (i : Nat) :
    a.modifyPair i f = a := by
  have hid : (fun p : CandidatePair => (⟨p.toPairEnds, f p.toPairCheck⟩ : CandidatePair)) = id := by
    funext p
    rw [hf]
    rfl
  unfold Agent.modifyPair
  rw [hid, List.modify_id]

theorem Goes.nominate (hK : K .nominate = true) (a : Agent) (i : Nat)
    (msg : Message) : Goes env K a (a.modifyPair i (Agent.nominate msg)) := by
  cases huse : hasUseCandidate msg with
  | true => exact .move (.nominate i msg huse) hK
  | false =>
    rw [modifyPair_id (nominate_of_not huse)]
    exact .refl a

theorem Goes.answerRequest (hc : Checks a) (msg : Message) (src : AddrRecord)
    (transport : CandidateTransport) :
    Goes env Kind.replying a (a.answerRequest env msg src transport) := by
  have hfound := @Goes.findOrCreatePair env a src ((readPriority msg).getD 0) transport
  unfold Agent.answerRequest
  split
  · rename_i b hpair
    rw [hpair] at hfound
    exact hfound.trans (.sendBindingResponse rfl _ msg src 500)
  · rename_i i b hpair
    rw [hpair] at hfound
    have hanswered := (hfound.trans (.nominate rfl b i msg)).trans
      (.sendBindingResponse rfl _ msg src 0)
    refine hanswered.trans (.triggerCheck (hanswered.checks hc) ?_)
    exact (List.length_modify ..).symm ▸ findOrCreatePair_row hpair

theorem Goes.setMode (hK : K .role = true) (a : Agent) (mode : AgentMode) :
    Goes env K a (a.setMode mode) := by
  unfold Agent.setMode
  split
  · exact .refl a
  · exact .move (.role mode) hK

theorem Goes.handleBindingRequest (hc : Checks a) (msg : Message) (src : AddrRecord)
    (transport : CandidateTransport) :
    Goes env Kind.requested a (a.handleBindingRequest env msg src transport) := by
  unfold Agent.handleBindingRequest
  split
  · exact .refl a
  · split
    · exact .sendBindingResponse rfl a msg src _
    · split
      · exact .sendBindingResponse rfl a msg src 487
      · rename_i mode _
        have hmode := @Goes.setMode env Kind.requested rfl a mode
        exact hmode.trans
          ((Goes.answerRequest (hmode.checks hc) msg src transport).mono (by decide))

/-! ## Responses -/

/-- Arming pairs leaves the entries that exist to what they wait for. -/
theorem Move.entry_kept {k : Kind} {b : Agent} (h : Move env a k b) (hk : k.adding = true)
    {j : Nat} {e : StunEntry} (he : a.entries[j]? = some e) :
    ∃ d, b.entries[j]? = some d ∧ d.type = e.type ∧ d.state = e.state ∧ d.pair = e.pair := by
  have hmod : ∀ {l : Nat} {f : StunEntry → StunEntry},
      (∀ e, (f e).type = e.type ∧ (f e).state = e.state ∧ (f e).pair = e.pair) →
      ∃ d, (a.modifyEntry l f).entries[j]? = some d ∧ d.type = e.type ∧ d.state = e.state ∧
        d.pair = e.pair := by
    intro l f hf
    by_cases hl : l = j
    · subst hl
      exact ⟨f e, by simp [modifyEntry, List.getElem?_modify_eq, he], hf e⟩
    · exact ⟨e, by simp [modifyEntry, hl, he], rfl, rfl, rfl⟩
  have hpush : ∀ f, ∃ d, (a.entries ++ [f])[j]? = some d ∧ d.type = e.type ∧ d.state = e.state ∧
      d.pair = e.pair := by
    intro f
    refine ⟨e, ?_, rfl, rfl, rfl⟩
    rw [List.getElem?_append_left (List.getElem?_eq_some_iff.mp he).1]
    exact he
  cases h with
  | setup h => exact ⟨e, by rw [h.entries]; exact he, rfl, rfl, rfl⟩
  | connect =>
    exact ⟨e, by rw [(@Frame.changeState env a .connecting).entries]; exact he, rfl, rfl, rfl⟩
  | armPair i => exact hpush _
  | pushRelay srv index resolved => exact hpush _
  | countRelay j => exact hmod fun _ => ⟨rfl, rfl, rfl⟩
  | relay j f => exact hmod fun _ => ⟨rfl, rfl, rfl⟩
  | pushLocal | sort | fill | announce => exact ⟨e, he, rfl, rfl, rfl⟩
  | _ => exact absurd hk (by decide)

theorem Goes.entry_kept (h : Goes env Kind.adding a b) {j : Nat} {e : StunEntry}
    (he : a.entries[j]? = some e) :
    ∃ d, b.entries[j]? = some d ∧ d.type = e.type ∧ d.state = e.state ∧ d.pair = e.pair := by
  refine Goes.invariant (P := fun a => ∃ d, a.entries[j]? = some d ∧ d.type = e.type ∧
    d.state = e.state ∧ d.pair = e.pair) ?_ h ⟨e, he, rfl, rfl, rfl⟩
  rintro a k b hk hm ⟨d, hd, htype, hstate, hpair⟩
  obtain ⟨d', hd', htype', hstate', hpair'⟩ := hm.entry_kept hk hd
  exact ⟨d', hd', htype'.trans htype, hstate'.trans hstate, hpair'.trans hpair⟩

theorem Goes.settleServer (hK : ∀ k, k.arming = true → K k = true)
    (hs : K .settleServer = true) {j : Nat} {s : StunEntryState} {e : StunEntry}
    (he : a.entries[j]? = some e) (htype : e.type = .server) (hpending : e.state = .pending)
    (hdone : s = .failed ∨ s = .succeeded) : Goes env K a (a.settleServer env j s) :=
  Goes.trans (.move (.settleServer j s he htype hpending hdone) hs)
    ((Goes.checkGatheringComplete _).mono hK)

theorem Goes.handleServerReflexiveResponse (a : Agent) (msg : Message) (src : AddrRecord) (j : Nat)
    (htype : a.entries[j]?.any (·.type = .server) = true) :
    Goes env Kind.served a (a.handleServerReflexiveResponse env msg src j) := by
  unfold Agent.handleServerReflexiveResponse
  split
  · exact .refl a
  · rename_i e he
    have htype : e.type = .server := by simpa [he] using htype
    split
    · exact .refl a
    · rename_i hguard
      have hpending : e.state = .pending := by
        by_contra hne
        exact hguard (.inl hne)
      split
      · exact .settleServer (by decide) rfl he htype hpending (.inl rfl)
      · split
        · exact .settleServer (by decide) rfl he htype hpending (.inl rfl)
        · rename_i addr _
          have hadd := @Goes.addLocalCandidate env a (reflexiveCandidate env addr)
          obtain ⟨d, hd, htype', hstate', _⟩ := hadd.entry_kept he
          exact (hadd.mono (by decide)).trans (.settleServer (by decide) rfl hd
            (htype'.trans htype) (hstate'.trans hpending) (.inr rfl))

theorem Goes.switchRole (he : a.entries[j]? = some e)
    (htype : e.type ≠ .server) : Goes env Kind.switching a (a.switchRole env j e) := by
  have hrole : Goes env Kind.switching a { a with mode := a.switchedMode }.updateOrderedPairs :=
    .move (.role a.switchedMode) rfl
  unfold Agent.switchRole
  dsimp only
  split
  · exact hrole
  · exact hrole.tail (.arm j 0 he htype) rfl

theorem Goes.failEntry (hentry : K .failEntry = true) (hpair : K .failPair = true)
    {j : Nat} {e : StunEntry} (he : a.entries[j]? = some e)
    (h : e.type = .server → e.state ≠ .pending) : Goes env K a (a.failEntry j e) :=
  Goes.tail (.move (.failEntry j he h) hentry) (.failPair e.pair) hpair

theorem Goes.failCheck (he : a.entries[j]? = some e)
    (htype : e.type ≠ .server) : Goes env Kind.failing a (a.failCheck env j e) := by
  have hfail : Goes env Kind.failing a (a.failEntry j e) :=
    .failEntry rfl rfl he fun h => absurd h htype
  unfold Agent.failCheck
  dsimp only
  split
  · exact (hfail.trans ((Goes.armNextFrozenPair _).mono (by decide))).tail .update rfl
  · exact hfail.tail .update rfl

/-- A response to an entry comes from where its check went. -/
structure Matched (a : Agent) (src : AddrRecord) (j : Nat) (e : StunEntry) : Prop where
  entry : a.entries[j]? = some e
  type : e.type ≠ .server
  record : e.record.any (·.isEqual src true) = true

/-- What a response to a check does. -/
inductive Responded (env : AgentEnv) (a : Agent) (msg : Message) (src : AddrRecord) (j : Nat) :
    Agent → Prop
  | ignored : Responded env a msg src j a
  | conflict {e : StunEntry} (h : Matched a src j e) (hcls : msg.cls = .errorResponse)
      (hcode : ((readErrorCode msg).map (·.1)).getD 0 = 487) (hmode : e.mode = a.mode) :
      Responded env a msg src j (a.switchRole env j e)
  | refused {e : StunEntry} (h : Matched a src j e) (hcls : msg.cls = .errorResponse)
      (hcode : ((readErrorCode msg).map (·.1)).getD 0 ≠ 487) :
      Responded env a msg src j (a.failCheck env j e)
  | accepted {e : StunEntry} {i : Nat} (h : Matched a src j e) (hcls : msg.cls ≠ .errorResponse)
      (hpair : e.pair = some i) (hfailed : ¬(e.type = .check ∧ a.pairState i = some .failed)) :
      Responded env a msg src j (a.acceptAnswer env j i)

theorem handleBindingResponse_responded (a : Agent) (msg : Message) (src : AddrRecord) (j : Nat)
    (htype : a.entries[j]?.any (·.type = .server) = false) :
    Responded env a msg src j (a.handleBindingResponse env msg src j) := by
  unfold Agent.handleBindingResponse
  split
  · exact .ignored
  · rename_i e he
    have htype : e.type ≠ .server := by simpa [he] using htype
    split
    · exact .ignored
    · rename_i hrecord
      have hmatched : Matched a src j e := ⟨he, htype, Bool.eq_true_of_not_eq_false hrecord⟩
      split
      · rename_i hcls
        split
        · rename_i hcode
          split
          · rename_i hmode
            exact .conflict hmatched hcls hcode hmode
          · exact .ignored
        · rename_i hcode
          exact .refused hmatched hcls hcode
      · rename_i hcls
        split
        · exact .ignored
        · rename_i i hpair
          split
          · exact .ignored
          · rename_i hfailed
            exact .accepted hmatched hcls hpair hfailed

theorem Responded.goes {j : Nat} {b : Agent} (h : Responded env a msg src j b) :
    Goes env Kind.checked a b := by
  cases h with
  | ignored => exact .refl a
  | conflict h => exact (Goes.switchRole h.entry h.type).mono (by decide)
  | refused h => exact (Goes.failCheck h.entry h.type).mono (by decide)
  | accepted h _ hpair hfailed => exact .move (.accept j _ h.entry h.type hpair hfailed) rfl

theorem Goes.handleBindingResponse (a : Agent) (msg : Message) (src : AddrRecord) (j : Nat)
    (htype : a.entries[j]?.any (·.type = .server) = false) :
    Goes env Kind.checked a (a.handleBindingResponse env msg src j) :=
  (handleBindingResponse_responded a msg src j htype).goes

/-! ## Inbound packets -/

/-- What a STUN message does. -/
inductive Received (env : AgentEnv) (a : Agent) (msg : Message) (src : AddrRecord)
    (transport : CandidateTransport) : Agent → Prop
  | ignored : Received env a msg src transport a
  | request (hcls : msg.cls = .request) :
      Received env a msg src transport (a.handleBindingRequest env msg src transport)
  | served {j : Nat} (hcls : isResponseType msg.cls = true)
      (hj : a.entries.findIdx? (·.transactionID = msg.transactionID) = some j)
      (htype : a.entries[j]?.any (·.type = .server) = true) :
      Received env a msg src transport (a.handleServerReflexiveResponse env msg src j)
  | response {j : Nat} {b : Agent} (hcls : isResponseType msg.cls = true)
      (hj : a.entries.findIdx? (·.transactionID = msg.transactionID) = some j)
      (htype : a.entries[j]?.any (·.type = .server) = false)
      (h : Responded env a msg src j b) : Received env a msg src transport b

theorem handleStunMessage_received (a : Agent) (msg : Message) (src : AddrRecord)
    (transport : CandidateTransport) :
    Received env a msg src transport (a.handleStunMessage env msg src transport) := by
  unfold Agent.handleStunMessage
  split
  · exact .ignored
  · split
    · rename_i hcls
      exact .request hcls
    · split
      · rename_i hresponse
        split
        · exact .ignored
        · rename_i j hj
          split
          · rename_i htype
            exact .served hresponse hj htype
          · rename_i htype
            have htype := Bool.eq_false_of_not_eq_true htype
            exact .response hresponse hj htype
              (handleBindingResponse_responded a msg src j htype)
      · exact .ignored

theorem Goes.handleStunMessage (hc : Checks a) (msg : Message) (src : AddrRecord)
    (transport : CandidateTransport) :
    Goes env Kind.received a (a.handleStunMessage env msg src transport) := by
  have hreceived := @handleStunMessage_received env a msg src transport
  generalize a.handleStunMessage env msg src transport = b at hreceived ⊢
  cases hreceived with
  | ignored => exact .refl a
  | request => exact (Goes.handleBindingRequest hc msg src transport).mono (by decide)
  | served _ _ htype =>
    exact (Goes.handleServerReflexiveResponse a msg src _ htype).mono (by decide)
  | response _ _ _ h => exact h.goes.mono (by decide)

theorem Goes.emitRecv (a : Agent) (data : Bytes) : Goes env Kind.quiet a (a.emitRecv env data) := by
  have htime : Goes env Kind.quiet a { a with lastAppDataAt := some env.now } :=
    .move (.setup (by constructor <;> rfl)) rfl
  exact htime.tail (.note _ (.recv data)) rfl

theorem handleInboundUdp_stun (h : stunMessage data = some msg) (src : AddrRecord)
    (transport : CandidateTransport) :
    a.handleInboundUdp env data src transport = a.handleStunMessage env msg src transport := by
  unfold stunMessage at h
  split at h
  · rename_i hmessage
    have hne : data ≠ [] := by
      rintro rfl
      cases h
    unfold Agent.handleInboundUdp
    rw [if_neg hne, if_pos hmessage, h]
    rfl
  · cases h

theorem Goes.handleInboundUdp_quiet (h : stunMessage data = none)
    (src : AddrRecord) (transport : CandidateTransport) :
    Goes env Kind.quiet a (a.handleInboundUdp env data src transport) := by
  unfold stunMessage at h
  unfold Agent.handleInboundUdp
  split
  · exact .refl a
  · split
    · rename_i hmessage
      rw [if_pos hmessage] at h
      rw [h]
      exact .refl a
    · split
      · exact .refl a
      · cases hpair : a.pairOf src with
        | none => exact .emitRecv a data
        | some i =>
          have hfound : (a.pairState i = some .succeeded && (a.remoteOf i).any (·.isAt src)) =
              true := by
            unfold pairOf at hpair
            simpa using List.find?_some hpair
          have hsucceeded : a.pairState i = some .succeeded := by
            simp only [Bool.and_eq_true, decide_eq_true_eq] at hfound
            exact hfound.1
          exact Goes.trans (.move (.select i hsucceeded) rfl) (.emitRecv _ data)

theorem handleInboundTcpPacket_stun (h : stunMessage data = some msg) (src : AddrRecord) :
    a.handleInboundTcpPacket env data src = a.handleStunMessage env msg src .tcpActive := by
  unfold stunMessage at h
  split at h
  · rename_i hmessage
    unfold Agent.handleInboundTcpPacket
    rw [if_pos hmessage, h]
    rfl
  · cases h

theorem Goes.handleInboundTcpPacket_quiet (h : stunMessage data = none)
    (src : AddrRecord) : Goes env Kind.quiet a (a.handleInboundTcpPacket env data src) := by
  unfold stunMessage at h
  unfold Agent.handleInboundTcpPacket
  split
  · rename_i hmessage
    rw [if_pos hmessage] at h
    rw [h]
    exact .refl a
  · exact .emitRecv a data

/-- The event is a packet. -/
def isPacket : AgentEvent → Bool
  | .udpPacket _ _ | .tcpPacket _ _ | .turnDataPacket _ => true
  | _ => false

/-- A packet with a STUN message is handled as such. -/
theorem step_inbound {e : AgentEvent} (h : a.inbound e = some (msg, src, transport)) :
    a.step (e, env) = a.handleStunMessage env msg src transport := by
  cases e with
  | udpPacket data src =>
    obtain ⟨m, hm, heq⟩ := Option.map_eq_some_iff.mp h
    cases heq
    exact handleInboundUdp_stun hm _ _
  | tcpPacket data src =>
    obtain ⟨m, hm, heq⟩ := Option.map_eq_some_iff.mp h
    cases heq
    exact handleInboundTcpPacket_stun hm _
  | turnDataPacket data =>
    obtain ⟨conn, hconn, hmap⟩ := Option.bind_eq_some_iff.mp h
    obtain ⟨m, hm, heq⟩ := Option.map_eq_some_iff.mp hmap
    cases heq
    unfold Agent.step
    dsimp only
    rw [hconn]
    exact handleInboundUdp_stun hm _ _
  | _ => cases h

/-- Any other packet goes to the application or to a TURN client. -/
theorem Goes.packet_quiet {e : AgentEvent} (h : a.inbound e = none) (he : isPacket e = true) :
    Goes env Kind.quiet a (a.step (e, env)) := by
  cases e with
  | udpPacket data src => exact .handleInboundUdp_quiet (Option.map_eq_none_iff.mp h) _ _
  | tcpPacket data src => exact .handleInboundTcpPacket_quiet (Option.map_eq_none_iff.mp h) _
  | turnDataPacket data =>
    unfold Agent.step
    dsimp only
    cases hconn : a.turnDataConn.filter (·.bound) with
    | none => exact .refl a
    | some conn =>
      have hdata : ((some conn).bind fun conn =>
          (stunMessage data).map (·, conn.peer, CandidateTransport.tcpPassive)) = none := hconn ▸ h
      exact .handleInboundUdp_quiet (Option.map_eq_none_iff.mp hdata) _ _
  | _ => cases he

theorem Goes.packet (hc : Checks a) {e : AgentEvent} (he : isPacket e = true) :
    Goes env Kind.received a (a.step (e, env)) := by
  cases hin : a.inbound e with
  | none => exact (Goes.packet_quiet hin he).mono (by decide)
  | some m =>
    obtain ⟨msg, src, transport⟩ := m
    rw [step_inbound hin]
    exact .handleStunMessage hc msg src transport

/-! ## Connections -/

theorem Goes.onTcpEvents (a : Agent) (s : TcpState) :
    Goes env Kind.linked a (a.onTcpEvents env s) := by
  unfold Agent.onTcpEvents
  split
  · exact .refl a
  · split
    · refine Goes.tail (.tcpTransport rfl a _) (.flushes _ ?_ ?_) rfl
      · intro e
        split
        · exact (by constructor <;> rfl)
        · exact .refl e
      · intro e he
        simp [he]
    · split
      · exact Goes.tail (Goes.tail (Goes.tail (.tcpTransport rfl a none) (.failPairs _) rfl)
          (.cancel _) rfl) .update rfl
      · exact .tcpTransport rfl a _

theorem Goes.onConnectFailed (a : Agent) (peer : AddrRecord) :
    Goes env Kind.linked a (a.onConnectFailed env peer) := by
  unfold Agent.onConnectFailed
  dsimp only
  refine Goes.tail (Goes.trans (Goes.tail (.move (.failPairs _) rfl) (.erase _ ?_) rfl)
    ((Goes.armNextFrozenPair _).mono (by decide))) .update rfl
  intro e he
  simp only [Bool.not_eq_false', Bool.and_eq_true, decide_eq_true_eq, Option.any_eq_true_iff_get]
    at he
  obtain ⟨htype, hsome, hfailed⟩ := he
  exact ⟨htype, e.pair.get hsome, (Option.some_get hsome).symm, hfailed⟩

theorem Goes.onTurnDataBound (a : Agent) : Goes env Kind.linked a (a.onTurnDataBound env) := by
  unfold Agent.onTurnDataBound
  split
  · exact .refl a
  · rename_i conn _
    have hbound : Goes env Kind.linked a
        { a with turnDataConn := some { conn with bound := true } } :=
      .move (.setup (by constructor <;> rfl)) rfl
    dsimp only
    split
    · exact hbound
    · rename_i j hj
      refine hbound.tail (.flush j _ (fun e => (by constructor <;> rfl)) ?_) rfl
      intro e he hkeep
      obtain ⟨hlt, hwaits, -⟩ := List.findIdx?_eq_some_iff_getElem.mp hj
      rw [List.getElem?_eq_getElem hlt] at he
      cases he
      simp [hkeep] at hwaits

/-! ## Bookkeeping -/

theorem Goes.gatherTimeout (a : Agent) : Goes env Kind.opening a (a.gatherTimeout env) := by
  have hseed : Goes env Kind.opening a (a.seedGatherStart env) := by
    unfold Agent.seedGatherStart
    split
    · rename_i h
      exact .move (.seed h.2.1 h.2.2) rfl
    · exact .refl a
  refine hseed.trans ?_
  unfold Agent.gatherTimeout Agent.forceGathering
  split
  · rename_i h
    exact Goes.trans (.move (.reset h.1 h.2) rfl)
      ((Goes.checkGatheringComplete _).mono (by decide))
  · exact .refl _

theorem Goes.connectTimeouts (a : Agent) : Goes env Kind.arming a (a.connectTimeouts env) := by
  unfold Agent.connectTimeouts
  dsimp only
  have hrelays : ∀ b : Agent, ∀ l : List Nat, Goes env Kind.arming b (l.foldl (fun a j =>
      if a.entries[j]?.any (fun e => e.relay.any (·.tcpTurn)) && env.turnTimedOut j then
        a.relayFailed env j
      else a) b) := by
    intro b l
    refine .foldl ?_ l b
    intro c j
    split
    · exact Goes.relayFailed c j
    · exact .refl c
  split
  · exact Goes.trans (.tcpTransport rfl a _) (hrelays _ _)
  · exact hrelays _ _

/-- A consent check is sent, and the next one is scheduled. -/
def keepAlive (env : AgentEnv) (a : Agent) (j : Nat) : Agent :=
  (a.sendCheck env j).modifyEntry j ((a.sendCheck env j).armKeepalive env (env.randomU32 j))

/-- What a timer pass transmits for an entry. -/
inductive Transmits (env : AgentEnv) (a : Agent) (j : Nat) : Agent → Prop
  | none : Transmits env a j a
  | check {e : StunEntry} (he : a.entries[j]? = some e) (htype : e.type ≠ .server)
      (hpending : e.state = .pending) (hdue : e.nextTransmission ≤ env.now) :
      Transmits env a j (a.sendCheck env j)
  | consent {e : StunEntry} (he : a.entries[j]? = some e) (htype : e.type ≠ .server)
      (hkeep : e.state = .succeededKeepalive) (hdue : e.nextTransmission ≤ env.now) :
      Transmits env a j (a.keepAlive env j)
  | server {e : StunEntry} (he : a.entries[j]? = some e) (htype : e.type = .server)
      (h : env.transmits j = true) : Transmits env a j
        (a.noteRequest e none .udp (buildBindingRequest e.transactionID))

/-- After a check has been sent its entry is in the same state and due as before. -/
theorem sendCheck_entry (he : a.entries[j]? = some e) :
    ∃ d, (a.sendCheck env j).entries[j]? = some d ∧ d.state = e.state ∧
      d.nextTransmission = e.nextTransmission := by
  rcases sendCheck_entries env he with heq | ⟨tid, _, heq⟩
  · exact ⟨e, by rw [heq]; exact he, rfl, rfl⟩
  · refine ⟨a.sentEntry e tid, ?_, rfl, rfl⟩
    rw [heq, List.getElem?_modify_eq, he]
    rfl

/-- The second half of a consent check. -/
theorem Move.keepAlive (he : a.entries[j]? = some e)
    (hkeep : e.state = .succeededKeepalive) (hdue : e.nextTransmission ≤ env.now) :
    Move env (a.sendCheck env j) .keepalive (a.keepAlive env j) := by
  obtain ⟨d, hd, hstate, hnext⟩ := @sendCheck_entry env a j e he
  exact .keepalive j hd (hstate.trans hkeep) (by rw [hnext]; exact hdue)

theorem Transmits.goes {j : Nat} (h : Transmits env a j b) : Goes env Kind.driving a b := by
  cases h with
  | none => exact .refl a
  | check he htype hpending hdue => exact .move (.send j he htype (.inl hpending) hdue) rfl
  | consent he htype hkeep hdue =>
    exact Goes.tail (.move (.send j he htype (.inr hkeep) hdue) rfl) (.keepAlive he hkeep hdue) rfl
  | server he htype h => exact .move (.resend j he htype h) rfl

theorem Goes.transmit (he : a.entries[j]? = some e)
    (hpending : e.state = .pending) (hdue : e.nextTransmission ≤ env.now) :
    ∃ b, Transmits env a j b ∧ Goes env Kind.driven b (a.transmit env j e) := by
  have htimer : ∀ b : Agent, ∀ timeout : Int,
      (∃ d, b.entries[j]? = some d ∧ d.state = e.state ∧
        d.nextTransmission = e.nextTransmission) →
      Goes env Kind.driven b (b.modifyEntry j fun e =>
        { e with
          retransmissions := e.retransmissions + 1, retransmissionTimeout := timeout
          nextTransmission := env.now + timeout }) := by
    rintro b timeout ⟨d, hd, hstate, hnext⟩
    refine .move (.timer j _ (fun e => (by constructor <;> rfl)) ?_ ?_) rfl
    · intro d' hd' _
      cases hd.symm.trans hd'
      rw [hnext]
      exact hdue
    · intro d' hd' hkeep
      cases hd.symm.trans hd'
      cases hkeep.symm.trans (hstate.trans hpending)
  unfold Agent.transmit
  dsimp only
  by_cases htype : e.type = .server
  · rw [if_pos htype]
    split
    · rename_i htransmits
      exact ⟨_, .server he htype htransmits, htimer _ _ ⟨e, he, rfl, rfl⟩⟩
    · exact ⟨a, .none, htimer _ _ ⟨e, he, rfl, rfl⟩⟩
  · rw [if_neg htype]
    obtain ⟨d, hd, hstate, hnext⟩ := @sendCheck_entry env a j e he
    exact ⟨_, .check he htype hpending hdue, htimer _ _ ⟨d, hd, hstate, hnext⟩⟩

theorem Goes.giveUp (he : a.entries[j]? = some e)
    (hpending : e.state = .pending) : Goes env Kind.driven a (a.giveUp env j e) := by
  unfold Agent.giveUp
  split
  · rename_i htype
    exact (Goes.settleServer (by decide) rfl he htype hpending (.inl rfl)).tail
      (.failPair e.pair) rfl
  · rename_i htype
    have hfail : Goes env Kind.driven a (a.failEntry j e) :=
      .failEntry rfl rfl he fun h => absurd h htype
    split
    · exact hfail.trans ((Goes.armNextFrozenPair _).mono (by decide))
    · exact hfail

theorem Goes.drivePending (he : a.entries[j]? = some e)
    (hpending : e.state = .pending) (hdue : e.nextTransmission ≤ env.now) :
    ∃ b, Transmits env a j b ∧ Goes env Kind.driven b (a.drivePending env j e) := by
  unfold Agent.drivePending
  split
  · refine ⟨a, .none,
      .move (.timer j _ (fun e => (by constructor <;> rfl)) ?_ ?_) rfl⟩
    · intro d _ hnext
      have hpositive : (0 : Int) < stunTcpTimeoutMs := by decide
      dsimp only at hnext
      omega
    · intro d hd hkeep
      cases he.symm.trans hd
      cases hkeep.symm.trans hpending
  · split
    · exact ⟨a, .none, .giveUp he hpending⟩
    · exact Goes.transmit he hpending hdue

theorem Goes.driveKeepalive (hc : Checks a) {j : Nat} {e : StunEntry}
    (he : a.entries[j]? = some e) (hkeep : e.state = .succeededKeepalive) :
    ∃ b, Transmits env a j b ∧ Goes env Kind.driven b (a.driveKeepalive env j e) := by
  have htype : e.type ≠ .server := fun h => (hc e (List.mem_of_getElem? he)).of_server h hkeep
  unfold Agent.driveKeepalive
  split
  · refine ⟨a, .none, .failEntry rfl rfl he fun _ => ?_⟩
    rw [hkeep]
    decide
  · split
    · rename_i hdue
      exact ⟨_, .consent he htype hkeep hdue, .refl _⟩
    · exact ⟨a, .none, .refl a⟩

/-- A pass transmits at most one request for an entry, and then sets its timers. -/
theorem Goes.driveEntry (hc : Checks a) (j : Nat) :
    ∃ b, Transmits env a j b ∧ Goes env Kind.driven b (a.driveEntry env j) := by
  unfold Agent.driveEntry
  split
  · exact ⟨a, .none, .refl a⟩
  · rename_i e he
    have hdriven : ∃ b, Transmits env a j b ∧ Goes env Kind.driven b
        (if e.state = .pending ∧ e.nextTransmission ≤ env.now then a.drivePending env j e
        else if e.state = .succeededKeepalive then a.driveKeepalive env j e
        else a) := by
      split
      · rename_i h
        exact Goes.drivePending he h.1 h.2
      · split
        · rename_i h
          exact Goes.driveKeepalive hc he h
        · exact ⟨a, .none, .refl a⟩
    obtain ⟨b, hb, hpath⟩ := hdriven
    refine ⟨b, hb, ?_⟩
    dsimp only
    split
    · exact hpath.trans ((Goes.relayFailed _ j).mono (by decide))
    · exact hpath

theorem Goes.driveEntry_driving (hc : Checks a) (j : Nat) :
    Goes env Kind.driving a (a.driveEntry env j) := by
  obtain ⟨b, hb, hpath⟩ := @Goes.driveEntry env a hc j
  exact hb.goes.trans (hpath.mono (by decide))

theorem Goes.driveEntries (hc : Checks a) : Goes env Kind.driving a (a.driveEntries env) := by
  unfold Agent.driveEntries
  generalize List.range a.entries.length = l
  induction l generalizing a with
  | nil => exact .refl a
  | cons j l ih =>
    have hj := @Goes.driveEntry_driving env a hc j
    exact hj.trans (ih (hj.checks hc))

theorem Goes.requestNomination (hK : K .request = true) (hc : Checks a) :
    Goes env K a (a.requestNomination env) := by
  unfold Agent.requestNomination
  split
  · exact .refl a
  · rename_i i hsel
    split
    · rename_i h
      refine .move (.request i h.1 hsel h.2.1 ?_) hK
      intro e he hpair hserver
      have hcheck := (hc e he).of_pair (by rw [hpair]; exact Option.some_ne_none i)
      rw [hserver] at hcheck
      cases hcheck
    · exact .refl a

theorem Goes.bookkeepingStart (a : Agent) :
    Goes env Kind.opening a ((a.gatherTimeout env).connectTimeouts env) :=
  (Goes.gatherTimeout a).trans ((Goes.connectTimeouts _).mono (by decide))

/-- The end of a timer pass, before it is logged. -/
theorem Goes.bookkeepingReview (hrequest : K .request = true)
    (hfreeze : K .freeze = true) (hupdate : K .update = true) (hc : Checks a) :
    Goes env K a (((a.requestNomination env).freezeOthers).updateState env) :=
  ((Goes.requestNomination hrequest hc).tail .freeze hfreeze).tail .update hupdate

theorem Goes.bookkeepingEnd (hc : Checks a) : Goes env Kind.closing a
    ((((a.requestNomination env).freezeOthers).updateState env).note (.pass env.now)) :=
  (Goes.bookkeepingReview rfl rfl rfl hc).tail .pass rfl

/-- A pass after the time of gathering has been looked at. -/
theorem Goes.bookkeepingRest (hc : Checks a) :
    Goes env Kind.passing (a.gatherTimeout env) (a.onBookkeeping env) := by
  have hchecks := (@Goes.gatherTimeout env a).checks hc
  have hconnects : Goes env Kind.passing (a.gatherTimeout env) _ :=
    (Goes.connectTimeouts _).mono (by decide)
  have hdriven := hconnects.trans
    ((Goes.driveEntries (hconnects.checks hchecks)).mono (by decide))
  exact hdriven.trans ((Goes.bookkeepingEnd (hdriven.checks hchecks)).mono (by decide))

theorem Goes.onBookkeeping (hc : Checks a) : Goes env Kind.timed a (a.onBookkeeping env) :=
  ((Goes.gatherTimeout a).mono (by decide)).trans
    ((Goes.bookkeepingRest hc).mono (by decide))

/-! ## Steps -/

/-- The moves an event can make. -/
def moves : AgentEvent → Kind → Bool
  | .gatherCandidates _, k => k.gathering
  | .gatherCandidatesWorker, k | .gatherWorkerLost, k => k.working
  | .onAllocated _ _, k => k.adding
  | .onFailed _, k => k.arming
  | .onTurnTcpConnected _, k => k = .relay
  | .onConnectFailed _, k | .onTcpEvents _, k => k.linked
  | .turnDataBound, k => k.linked
  | .setRemoteDescription _, k | .addRemoteCandidate _, k => k.describing
  | .setLocalIceAttributes _ _, k => k = .credentials
  | .udpPacket _ _, k | .tcpPacket _ _, k | .turnDataPacket _, k => k.received
  | .onBookkeeping, k => k.timed
  | .send _, k => k = .setup ∨ k = .note
  | _, k => k = .setup

theorem Goes.send (a : Agent) (data : Bytes) :
    Goes env (moves (.send data)) a (a.send env data) := by
  have htime : Goes env (moves (.send data)) a { a with lastAppDataAt := some env.now } :=
    .move (.setup (by constructor <;> rfl)) rfl
  unfold Agent.send
  dsimp only
  split
  · exact htime
  · rename_i i hsel
    split
    · exact htime
    · rename_i route _
      split
      · exact htime.tail (.data i route data hsel) rfl
      · exact htime

theorem Goes.step (hc : Checks a) (e : AgentEvent) : Goes env (moves e) a (a.step (e, env)) := by
  cases e with
  | gatherCandidates hosts => exact .gatherCandidates a hosts
  | gatherCandidatesWorker => exact .gatherCandidatesWorker a
  | gatherWorkerLost => exact .move (.worker none) rfl
  | onAllocated j relayed => exact .onAllocated a j relayed
  | onFailed j => exact .relayFailed a j
  | onTurnTcpConnected j =>
    exact .move (.relay j (fun r => { r with allocStart := some env.now }) fun _ => rfl) rfl
  | onConnectFailed peer => exact .onConnectFailed a peer
  | turnDataBound => exact .onTurnDataBound a
  | setRemoteDescription sdp => exact .setRemoteDescription a sdp
  | addRemoteCandidate line => exact .addRemoteCandidate a line
  | addStunServer host port =>
    unfold Agent.step Agent.addStunServer
    dsimp only
    split
    · exact .refl a
    · exact .move (.setup (by constructor <;> rfl)) rfl
  | addTurnServer srv =>
    unfold Agent.step Agent.addTurnServer
    dsimp only
    split
    · exact .refl a
    · exact .move (.setup (by constructor <;> rfl)) rfl
  | setLocalIceAttributes ufrag pwd =>
    unfold Agent.step Agent.setLocalIceAttributes
    dsimp only
    split
    · exact .move (.credentials _ _) rfl
    · exact .refl a
  | udpPacket | tcpPacket | turnDataPacket => exact .packet hc rfl
  | onTcpEvents s => exact .onTcpEvents a s
  | onBookkeeping => exact .onBookkeeping hc
  | send data => exact .send a data
  | turnDataConnect | turnDataLost | setIceTcpMode | setRemoteGatheringDone | setPairingConfig =>
    exact .move (.setup (by constructor <;> rfl)) rfl

theorem Runs.checks {ok : Agent → AgentEvent × AgentEnv → Prop} (h : Runs ok a) : Checks a := by
  refine Reach.invariant (P := Checks) ?_ ?_ h
  · rintro a ⟨config, ufrag, pwd, tiebreaker, rfl⟩
    exact fun e he => absurd he List.not_mem_nil
  · rintro a ⟨e, env⟩ b ha ⟨_, rfl⟩
    exact (Goes.step ha e).checks ha

/-- What every move keeps, every run keeps. -/
theorem Runs.invariant {ok : Agent → AgentEvent × AgentEnv → Prop} {P : Agent → Prop}
    (hfresh : ∀ a, Fresh a → P a)
    (hstep : ∀ a e env, ok a (e, env) → Checks a → Goes env (moves e) a (a.step (e, env)) → P a →
      P (a.step (e, env))) (h : Runs ok a) : P a := by
  have hboth : Checks a ∧ P a := by
    refine Reach.invariant (P := fun a => Checks a ∧ P a) ?_ ?_ h
    · intro a ha
      exact ⟨@Runs.checks a ok (.start ha), hfresh a ha⟩
    · rintro a ⟨e, env⟩ b ⟨hc, ha⟩ ⟨hok, rfl⟩
      have hgoes := @Goes.step env a hc e
      exact ⟨hgoes.checks hc, hstep a e env hok hc hgoes ha⟩
  exact hboth.2

end Agent

end Stice.Ice
