import Stice.Ice.Pairs

/-! The table of pairs is sound and complete: it joins what may be joined, and once checks run
all of it. `formPairs` makes both true; `findOrCreatePair` joins the source of a request with
one local candidate and looks at neither component nor direction. -/
namespace Stice.Ice
open Lib Net Stun

/-- Two candidates that may be paired (RFC 6544, section 5.2, for TCP). -/
structure Legal (l r : Candidate) : Prop where
  component : l.component = r.component
  family : l.family = r.family
  transport : l.transport.isTcp = r.transport.isTcp
  active : ¬(l.transport = .tcpActive ∧ r.transport = .tcpActive)
  passive : l.transport = .tcpPassive → r.transport = .tcpPassive →
    l.type = .relayed ∧ r.type = .relayed
  routed : r.isLinkLocal = false

namespace Agent

variable {env : AgentEnv} {a b : Agent}
variable {msg : Message} {src : AddrRecord} {transport : CandidateTransport}

theorem pairable_iff (l r : Candidate) : pairable l r = true ↔ Legal l r := by
  unfold pairable
  simp only [Bool.and_eq_true, Bool.not_eq_true', Bool.and_eq_false_iff, decide_eq_true_eq,
    decide_eq_false_iff_not, Bool.not_eq_false', beq_iff_eq]
  constructor
  · rintro ⟨⟨⟨⟨⟨hcomponent, hfamily⟩, hrouted⟩, htransport⟩, hactive⟩, hpassive⟩
    refine ⟨hcomponent, hfamily, htransport, ?_, ?_, hrouted⟩
    · rintro ⟨hl, hr⟩
      rcases hactive with hactive | hactive
      · exact hactive hl
      · exact hactive hr
    · intro hl hr
      rcases hpassive with (hpassive | hpassive) | hpassive
      · exact absurd hl hpassive
      · exact absurd hr hpassive
      · exact hpassive
  · rintro ⟨hcomponent, hfamily, htransport, hactive, hpassive, hrouted⟩
    refine ⟨⟨⟨⟨⟨hcomponent, hfamily⟩, hrouted⟩, htransport⟩, ?_⟩, ?_⟩
    · exact not_and_or.mp hactive
    · by_cases hl : l.transport = .tcpPassive
      · by_cases hr : r.transport = .tcpPassive
        · exact .inr (hpassive hl hr)
        · exact .inl (.inr hr)
      · exact .inl (.inl hl)

/-! ## What keeps the table full -/

/-- Once checks run, the table is full. -/
def Settled (a : Agent) : Prop := a.state.checking = true → Full a

theorem Full.settled (h : Full a) : Settled a := fun _ => h

theorem Full.of_ends (h : Full a) (hlocal : b.localDesc.candidates = a.localDesc.candidates)
    (hremote : b.remoteDesc.candidates = a.remoteDesc.candidates) (hends : b.ends = a.ends) :
    Full b := by
  have hlength : b.pairs.length = a.pairs.length := by
    have := congrArg List.length hends
    simpa only [ends, List.length_map] using this
  intro hroom l hl r hr hpairable
  rw [hlength] at hroom
  rw [hlocal] at hl
  rw [hremote] at hr
  obtain ⟨p, hp, hjoins⟩ := h hroom l hl r hr hpairable
  have hmem : p.toPairEnds ∈ b.ends := by
    rw [hends]
    exact List.mem_map_of_mem hp
  obtain ⟨q, hq, hsame⟩ := List.mem_map.mp hmem
  refine ⟨q, hq, ?_⟩
  unfold CandidatePair.joins at hjoins ⊢
  rw [hsame]
  exact hjoins

/-- A pair more leaves the table full. -/
theorem Full.append {p : CandidatePair} (h : Full a) :
    Full { a with pairs := a.pairs ++ [p] }.updateOrderedPairs := by
  intro hroom l hl r hr hpairable
  have hroom : a.pairs.length < maxCandidatePairs := by
    simp only [updateOrderedPairs, List.length_append, List.length_singleton] at hroom
    omega
  obtain ⟨q, hq, hjoins⟩ := h hroom l hl r hr hpairable
  exact ⟨q, List.mem_append_left _ hq, hjoins⟩

/-- The pairs and the candidates stay, and no check begins. -/
theorem Settled.of_ends (h : Settled a) (hstate : b.state.checking = true → a.state.checking = true)
    (hlocal : b.localDesc.candidates = a.localDesc.candidates)
    (hremote : b.remoteDesc.candidates = a.remoteDesc.candidates) (hends : b.ends = a.ends) :
    Settled b :=
  fun hb => (h (hstate hb)).of_ends hlocal hremote hends

theorem not_checking_of_sorting {s : AgentState} (h : s.sorting = true) : s.checking = false := by
  cases s <;> first | rfl | cases h

/-- The moves that bring no candidate. -/
def settledKind : Kind → Bool
  | .pushLocal | .pushRemote | .replace => false
  | _ => true

theorem Settled.of_table (h : Settled a) (ht : SameTable a b) : Settled b :=
  h.of_ends ht.checking ht.locals ht.remotes ht.ends

theorem Move.settled {k : Kind} (hm : Move env a k b) (hk : settledKind k = true)
    (h : Settled a) : Settled b := by
  by_cases hkeeps : keepsTable k = true
  · exact h.of_table (hm.sameTable hkeeps)
  cases hm with
  | pushLocal | pushRemote | replace => exact absurd hk (by decide)
  | sort hs =>
    -- candidates are sorted before checks run
    intro hchecking
    exact absurd hchecking (by rw [not_checking_of_sorting hs]; decide)
  | fill => exact (full_fillPairs a).settled
  | append => exact fun hchecking => (h hchecking).append
  | role => exact h
  | gather =>
    intro hchecking
    unfold startGathering changeState at hchecking
    dsimp only at hchecking
    split at hchecking
    · rename_i hs
      rw [hs] at hchecking
      cases hchecking
    · cases hchecking
  | connect _ hfull =>
    have hframe := @Frame.changeState env a .connecting
    refine (hfull.of_ends ?_ ?_ ?_).settled
    · rw [hframe.localDesc]
    · rw [hframe.remoteDesc]
    · unfold ends
      rw [hframe.pairs]
  | _ => exact absurd rfl hkeeps

theorem Goes.settled {K : Kind → Bool} (hg : Goes env K a b)
    (hK : ∀ k, K k = true → settledKind k = true) (h : Settled a) : Settled b :=
  Goes.invariant (fun _ k _ hk hm h => hm.settled (hK k hk) h) hg h

/-! ## Candidates -/

theorem Settled.of_not_checking (h : a.state.checking = false) : Settled a :=
  fun hchecking => absurd hchecking (by rw [h]; decide)

theorem Settled.addLocalCandidate (h : Settled a) (c : Candidate) :
    Settled (a.addLocalCandidate env c) := by
  unfold Agent.addLocalCandidate
  split
  · exact h
  · dsimp only
    split
    · rename_i hs
      exact .of_not_checking (not_checking_of_sorting hs)
    · split
      · exact (Full.formPairs _).settled
      · rename_i hchecking
        exact .of_not_checking (Bool.eq_false_of_not_eq_true hchecking)

theorem Settled.dialPassive (h : Settled a) (r : Candidate) : Settled (a.dialPassive env r) := by
  unfold Agent.dialPassive Agent.addRemotePassiveTcpCandidate
  split
  · split
    · exact h
    · split
      · exact h
      · rename_i transport c _
        exact Settled.addLocalCandidate (a := { a with tcpTransport := some transport }) h c
  · exact h

/-- What every candidate of a list keeps settled, the list does. -/
theorem Settled.foldl {f : Agent → Candidate → Agent} (hf : ∀ a c, Settled a → Settled (f a c))
    (cs : List Candidate) (h : Settled a) : Settled (cs.foldl f a) := by
  induction cs generalizing a with
  | nil => exact h
  | cons c cs ih => exact ih (hf a c h)

theorem Settled.gatherCandidates (h : Settled a) (hosts : List Candidate) :
    Settled (a.gatherCandidates env hosts) := by
  unfold Agent.gatherCandidates
  split
  · exact h
  · rename_i hstate
    have hstate : a.state = .disconnected ∨ a.state = .failed := by
      by_contra hne
      exact hstate (not_or.mp hne)
    have hstart : Settled (a.startGathering env) := Move.settled (.gather hstate) rfl h
    have hhosts := hstart.foldl (f := Agent.addLocalCandidate env)
      (fun a c ha => ha.addLocalCandidate c) hosts
    have hplanned := (@Goes.planGathering env Kind.working rfl rfl (hosts.foldl
      (Agent.addLocalCandidate env) (a.startGathering env))).settled (by decide) hhosts
    dsimp only
    split
    · exact (Goes.settleGathering _).settled (by decide) hplanned
    · exact hplanned

theorem Settled.setRemoteDescription {sdp : Bytes} (h : Settled a)
    (hstate : (Description.parse env.parseCandidate sdp).isSome = true →
      a.state.checking = false) : Settled (a.setRemoteDescription env sdp) := by
  unfold Agent.setRemoteDescription
  cases hparse : Description.parse env.parseCandidate sdp with
  | none => exact h
  | some d =>
    rw [hparse] at hstate
    have hreplaced : Settled (a.replaceRemote d) := .of_not_checking (hstate rfl)
    have hdialled := hreplaced.foldl (f := Agent.dialPassive env)
      (fun a c ha => ha.dialPassive c) d.candidates.elems
    dsimp only
    split
    · rename_i hgathering
      split
      · exact Move.settled (.connect ((Goes.formPairs _).gathering (.inl hgathering))
          (.formPairs _)) rfl (Full.formPairs _).settled
      · exact (Full.formPairs _).settled
    · exact hdialled

/-- Whatever has come, a trickled candidate leaves the table full. -/
theorem Settled.pairTrickled (a : Agent) : Settled (a.pairTrickled env) := by
  unfold Agent.pairTrickled
  split
  · exact (Full.formPairs a).settled
  · rename_i hchecking
    split
    · rename_i hready
      exact Move.settled (.connect ((Goes.formPairs a).gathering (.inl hready.1))
        (.formPairs a)) rfl (Full.formPairs a).settled
    · exact .of_not_checking (Bool.eq_false_of_not_eq_true hchecking)

theorem Settled.addRemoteCandidate (h : Settled a) (line : Bytes) :
    Settled (a.addRemoteCandidate env line) := by
  rcases addRemoteCandidate_cases env a line with heq | ⟨r, _, heq⟩
  · rw [heq]
    exact h
  · rw [heq]
    exact .pairTrickled _

theorem Settled.onAllocated (h : Settled a) (j : Nat) (relayed : AddrRecord) :
    Settled (a.onAllocated env j relayed) := by
  unfold Agent.onAllocated
  split
  · exact h
  · have hset : Settled (a.setRelayed j relayed) := h
    exact (Goes.countRelay _ j).settled (by decide) (hset.addLocalCandidate _)

theorem Settled.handleServerReflexiveResponse (h : Settled a) (msg : Message) (src : AddrRecord)
    (j : Nat) : Settled (a.handleServerReflexiveResponse env msg src j) := by
  have hserver : ∀ a s, Settled a → Settled (a.settleServer env j s) := by
    intro a s ha
    have hmarked : Settled (a.markServer j s) := ha
    exact (Goes.checkGatheringComplete _).settled (by decide) hmarked
  unfold Agent.handleServerReflexiveResponse
  split
  · exact h
  · split
    · exact h
    · split
      · exact hserver a .failed h
      · split
        · exact hserver a .failed h
        · exact hserver _ .succeeded (h.addLocalCandidate _)

/-! ## Binding requests -/

/-- At most one local candidate is of the family and the class of a source. -/
def OneLocal (env : AgentEnv) (a : Agent) (msg : Message) (src : AddrRecord)
    (transport : CandidateTransport) : Prop :=
  let r := peerReflexive env src ((readPriority msg).getD 0) transport
  ∀ l ∈ a.localDesc.candidates.refs, ∀ l' ∈ a.localDesc.candidates.refs,
    localFor r transport l.1 = true → localFor r transport l'.1 = true → l = l'

theorem localFor_of_pairable {l r : Candidate} (h : pairable l r = true) :
    localFor r r.transport l = true := by
  have hlegal := (pairable_iff l r).mp h
  unfold localFor
  rw [hlegal.family, hlegal.transport]
  simp

/-- A new remote candidate is paired with the only local one it can be paired with. -/
theorem Full.pairRemote {c : Candidate} (h : Full a)
    (hone : ∀ l ∈ a.localDesc.candidates.refs, ∀ l' ∈ a.localDesc.candidates.refs,
      localFor c c.transport l.1 = true → localFor c c.transport l'.1 = true → l = l') :
    Full ((a.pushRemote c).pairRemote (c, a.remoteDesc.candidates.stop) c.transport).2 := by
  have hold : ∀ l ∈ a.localDesc.candidates.refs, ∀ r ∈ (a.pushRemote c).remoteDesc.candidates.refs,
      pairable l.1 r.1 = true → r ≠ (c, a.remoteDesc.candidates.stop) →
      a.pairs.length < maxCandidatePairs → ∃ p ∈ a.pairs, p.joins l r = true := by
    intro l hl r hr hpairable hne hroom
    rcases Deque.at?_of_pushBack (Deque.mem_refs.mp hr) with hr | ⟨hptr, hc⟩
    · exact h hroom l hl r (Deque.mem_refs.mpr hr) hpairable
    · exact absurd (Prod.ext hc hptr) hne
  unfold Agent.pairRemote
  split
  · rename_i hnone
    intro hroom l hl r hr hpairable
    refine hold l hl r hr hpairable ?_ hroom
    rintro rfl
    have hfor := localFor_of_pairable hpairable
    have hnot := List.find?_eq_none.mp hnone l hl
    exact hnot hfor
  · rename_i first hfirst
    have hmem := List.mem_of_find?_eq_some hfirst
    have hfor : localFor c c.transport first.1 = true := by simpa using List.find?_some hfirst
    have honly : ∀ l ∈ a.localDesc.candidates.refs, pairable l.1 c = true → l = first := by
      intro l hl hpairable
      exact hone l hl first hmem (localFor_of_pairable hpairable) hfor
    split
    · rename_i i hi
      intro hroom l hl r hr hpairable
      by_cases hr' : r = (c, a.remoteDesc.candidates.stop)
      · subst hr'
        obtain ⟨hlt, hjoins, _⟩ := List.findIdx?_eq_some_iff_getElem.mp hi
        rw [honly l hl hpairable]
        exact ⟨_, List.getElem_mem hlt, hjoins⟩
      · exact hold l hl r hr hpairable hr' hroom
    · split
      · rename_i hfull
        intro hroom
        exact absurd hroom (Nat.not_lt.mpr hfull)
      · rename_i hroom
        intro _ l hl r hr hpairable
        by_cases hr' : r = (c, a.remoteDesc.candidates.stop)
        · subst hr'
          rw [honly l hl hpairable]
          refine ⟨_, List.mem_append_right _ List.mem_cons_self, ?_⟩
          unfold CandidatePair.joins newPair
          simp
        · obtain ⟨p, hp, hjoins⟩ := hold l hl r hr hpairable hr' (Nat.lt_of_not_le hroom)
          exact ⟨p, List.mem_append_left _ hp, hjoins⟩

theorem pairRemote_state (a : Agent) (r : Candidate × Nat) (transport : CandidateTransport) :
    (a.pairRemote r transport).2.state = a.state := by
  unfold Agent.pairRemote
  split
  · rfl
  · split
    · rfl
    · split <;> rfl

theorem Settled.pairRemote {r : Candidate × Nat} (h : Settled a) (transport : CandidateTransport) :
    Settled (a.pairRemote r transport).2 := by
  unfold Agent.pairRemote
  split
  · exact h
  · split
    · exact h
    · split
      · exact h
      · exact fun hchecking => (h hchecking).append

theorem Settled.findOrCreatePair (h : Settled a)
    (hone : addrIsLinkLocal src.ip = false → a.state.checking = true →
      (∀ c ∈ a.remoteDesc.candidates.elems, remoteAt src transport c = false) →
      OneLocal env a msg src transport) :
    Settled (a.findOrCreatePair env src ((readPriority msg).getD 0) transport).2 := by
  unfold Agent.findOrCreatePair
  split
  · exact h
  · rename_i hlink
    split
    · exact h.pairRemote transport
    · rename_i hnone
      split
      · exact h
      · intro hchecking
        rw [pairRemote_state] at hchecking
        have hchecking : a.state.checking = true := hchecking
        refine Full.pairRemote (c := peerReflexive env src ((readPriority msg).getD 0) transport)
          (h hchecking) (hone (Bool.eq_false_of_not_eq_true hlink) hchecking ?_)
        intro c hc
        obtain ⟨p, hp⟩ := Deque.exists_mem_refs hc
        simpa using List.find?_eq_none.mp hnone (c, p) hp

theorem setMode_state (a : Agent) (mode : AgentMode) : (a.setMode mode).state = a.state := by
  unfold setMode
  split <;> rfl

theorem Settled.handleBindingRequest (h : Settled a)
    (hone : a.verifyBindingRequest msg = true → addrIsLinkLocal src.ip = false →
      a.state.checking = true →
      (∀ c ∈ a.remoteDesc.candidates.elems, remoteAt src transport c = false) →
      OneLocal env a msg src transport) :
    Settled (a.handleBindingRequest env msg src transport) := by
  unfold Agent.handleBindingRequest
  split
  · exact h
  · split
    · exact h
    · rename_i hverify
      have hone := hone (Bool.eq_true_of_not_eq_false hverify)
      split
      · exact h
      · rename_i mode _
        obtain ⟨hlocal, hremote, hpairs⟩ := setMode_tables a mode
        have hmode : Settled (a.setMode mode) :=
          h.of_ends (by rw [setMode_state]; exact id) (by rw [hlocal]) (by rw [hremote])
            (by unfold ends; rw [hpairs])
        have hfound := @Settled.findOrCreatePair env (a.setMode mode) msg src transport hmode (by
          unfold OneLocal
          rw [setMode_state, hlocal, hremote]
          exact hone)
        exact hfound.of_table (.answerRequest ..)

/-! ## Runs -/

/-- A step brings no remote candidate that is left without its pairs: no description replaces
the candidates while checks run, and the new source of a request meets at most one local
candidate. -/
def Meets (a : Agent) : AgentEvent × AgentEnv → Prop
  | (.setRemoteDescription sdp, env) =>
      (Description.parse env.parseCandidate sdp).isSome = true → a.state.checking = false
  | (e, env) =>
      ∀ msg src transport, a.inbound e = some (msg, src, transport) → msg.cls = .request →
        a.verifyBindingRequest msg = true → addrIsLinkLocal src.ip = false →
        a.state.checking = true →
        (∀ c ∈ a.remoteDesc.candidates.elems, remoteAt src transport c = false) →
        OneLocal env a msg src transport

theorem Settled.handleStunMessage (h : Settled a)
    (hone : msg.cls = .request → a.verifyBindingRequest msg = true →
      addrIsLinkLocal src.ip = false → a.state.checking = true →
      (∀ c ∈ a.remoteDesc.candidates.elems, remoteAt src transport c = false) →
      OneLocal env a msg src transport) : Settled (a.handleStunMessage env msg src transport) := by
  unfold Agent.handleStunMessage
  split
  · exact h
  · split
    · rename_i hcls
      exact h.handleBindingRequest (hone hcls)
    · split
      · split
        · exact h
        · rename_i j _
          split
          · exact h.handleServerReflexiveResponse msg src j
          · rename_i htype
            exact (Goes.handleBindingResponse a msg src j
              (Bool.eq_false_of_not_eq_true htype)).settled (by decide) h
      · exact h

theorem Settled.step {e : AgentEvent} (hc : Checks a) (h : Settled a)
    (hmeets : Meets a (e, env)) : Settled (a.step (e, env)) := by
  have hgoes := @Goes.step env a hc e
  have hpacket : isPacket e = true → (∀ msg src transport,
      a.inbound e = some (msg, src, transport) → msg.cls = .request →
        a.verifyBindingRequest msg = true → addrIsLinkLocal src.ip = false →
        a.state.checking = true →
        (∀ c ∈ a.remoteDesc.candidates.elems, remoteAt src transport c = false) →
        OneLocal env a msg src transport) → Settled (a.step (e, env)) := by
    intro he hone
    cases hin : a.inbound e with
    | none =>
      refine (Goes.packet_quiet hin he).settled (fun k hk => ?_) h
      cases k <;> first | rfl | exact absurd hk (by decide)
    | some m =>
      obtain ⟨msg, src, transport⟩ := m
      rw [step_inbound hin]
      exact h.handleStunMessage (hone msg src transport hin)
  cases e with
  | gatherCandidates hosts => exact h.gatherCandidates hosts
  | onAllocated j relayed => exact h.onAllocated j relayed
  | setRemoteDescription sdp => exact h.setRemoteDescription hmeets
  | addRemoteCandidate line => exact h.addRemoteCandidate line
  | udpPacket | tcpPacket | turnDataPacket => exact hpacket rfl hmeets
  | _ =>
    refine hgoes.settled (fun k hk => ?_) h
    cases k <;> first | rfl | cases hk

/-- In every run whose steps are steady, whose requests come from candidates that may be paired
with the local ones and whose remote candidates meet their pairs, the table is sound and
complete. -/
theorem pair_table_sound_complete
    (h : Runs (fun a e => Steady a e ∧ Matches Legal a e ∧ Meets a e) a) :
    (∀ p ∈ a.pairs, ∃ l r, a.localDesc.candidates.at? p.localPtr = some l ∧
      a.remoteDesc.candidates.at? p.remotePtr = some r ∧ Legal l r) ∧
    a.pairs.Pairwise (fun p q => ¬(p.localPtr = q.localPtr ∧ p.remotePtr = q.remotePtr)) ∧
    (a.state.checking = true → a.pairs.length < maxCandidatePairs →
      ∀ l ∈ a.localDesc.candidates.refs, ∀ r ∈ a.remoteDesc.candidates.refs, Legal l.1 r.1 →
        ∃ p ∈ a.pairs, p.localPtr = l.2 ∧ p.remotePtr = r.2) := by
  have hruns : Runs (fun a e => Steady a e ∧ Matches Legal a e) a := by
    refine Reach.invariant (P := Runs fun a e => Steady a e ∧ Matches Legal a e) ?_ ?_ h
    · exact fun a ha => .start ha
    · rintro a e b ha ⟨hok, rfl⟩
      exact .next e ha ⟨⟨hok.1, hok.2.1⟩, rfl⟩
  have hpaired := hruns.paired fun l r => (pairable_iff l r).mp
  have hsettled : Settled a := by
    refine Runs.invariant (P := Settled) ?_ ?_ h
    · rintro a ⟨config, ufrag, pwd, tiebreaker, rfl⟩
      exact .of_not_checking rfl
    · rintro a e env ⟨_, _, hmeets⟩ hc _ ha
      exact ha.step hc hmeets
  refine ⟨?_, ?_, ?_⟩
  · intro p hp
    have hends : p.toPairEnds ∈ a.ends := List.mem_map_of_mem hp
    exact ⟨p.origin.1, p.origin.2, hpaired.local_at _ hends, hpaired.remote_at _ hends,
      hpaired.legal _ hends⟩
  · exact List.pairwise_map.mp hpaired.distinct
  · intro hchecking hroom l hl r hr hlegal
    obtain ⟨p, hp, hjoins⟩ :=
      hsettled hchecking hroom l hl r hr ((pairable_iff l.1 r.1).mpr hlegal)
    unfold CandidatePair.joins at hjoins
    simp only [Bool.and_eq_true, decide_eq_true_eq] at hjoins
    exact ⟨p, hp, hjoins⟩

theorem pair_table_sound_complete_described :
    described.state.checking = true ∧ described.pairs.length = 2 ∧
    (∀ p ∈ described.pairs, ∃ l r, described.localDesc.candidates.at? p.localPtr = some l ∧
      described.remoteDesc.candidates.at? p.remotePtr = some r ∧ Legal l r) ∧
    described.pairs.Pairwise
      (fun p q => ¬(p.localPtr = q.localPtr ∧ p.remotePtr = q.remotePtr)) ∧
    (described.state.checking = true → described.pairs.length < maxCandidatePairs →
      ∀ l ∈ described.localDesc.candidates.refs, ∀ r ∈ described.remoteDesc.candidates.refs,
        Legal l.1 r.1 → ∃ p ∈ described.pairs, p.localPtr = l.2 ∧ p.remotePtr = r.2) := by
  have hquiet : ((small {}).step gatherHost).pairs = [] ∧
      ((small {}).step gatherHost).state.checking = false := by decide +kernel
  have hgathered : Runs (fun a e => Steady a e ∧ Matches Legal a e ∧ Meets a e)
      ((small {}).step gatherHost) := by
    refine .next gatherHost (.start ⟨{}, localUfrag, localPwd, 7, rfl⟩) ⟨⟨?_, ?_, ?_⟩, rfl⟩
    · exact fun _ => .inl rfl
    · intro _ _ _ hin
      cases hin
    · intro _ _ _ hin
      cases hin
  have hrun : Runs (fun a e => Steady a e ∧ Matches Legal a e ∧ Meets a e) described := by
    refine .next describePeer hgathered ⟨⟨fun _ => hquiet.1, ?_, fun _ => hquiet.2⟩, rfl⟩
    intro _ _ _ hin
    cases hin
  have hstate : described.state.checking = true ∧ described.pairs.length = 2 := by decide +kernel
  exact ⟨hstate.1, hstate.2, pair_table_sound_complete hrun⟩

/-- A request comes from a described candidate of component 2. -/
def componentEvents : List (AgentEvent × AgentEnv) :=
  [gatherHost,
    (.setRemoteDescription
      (peerSdp ++ ascii "\na=candidate:1 2 UDP 2130706431 10.0.0.2 2000 typ host"), { calmEnv 2 with
      parseCandidate := fun _ => some { hostAt (udpAt 2 2000) with component := 2 } }),
    (.udpPacket (peerRequest noTransaction []) (udpAt 2 2000), calmEnv 3)]

/-- The peer is described without candidates first, and with two after that. -/
def describedAgainEvents : List (AgentEvent × AgentEnv) :=
  [gatherHost, (.setRemoteDescription peerSdp, calmEnv 2), describePeer]

/-- A request from an unknown address finds two local candidates. -/
def reflexiveEvents : List (AgentEvent × AgentEnv) :=
  [(.gatherCandidates [hostAt (udpAt 1 1000), hostAt (udpAt 1 1001)], calmEnv 1),
    (.setRemoteDescription peerSdp, calmEnv 2),
    (.udpPacket (peerRequest noTransaction []) (udpAt 2 2000), calmEnv 3)]

def mismatched : Agent := componentEvents.foldl step (small {})

def describedAgain : Agent := describedAgainEvents.foldl step (small {})

def reflexive : Agent := reflexiveEvents.foldl step (small {})

/-- Some legal combination of stored candidates has no pair, though checks run and there is
room. -/
def Lacks (a : Agent) : Prop :=
  a.state.checking = true ∧ a.pairs.length < maxCandidatePairs ∧
    ∃ l ∈ a.localDesc.candidates.refs, ∃ r ∈ a.remoteDesc.candidates.refs,
      pairable l.1 r.1 = true ∧ ∀ p ∈ a.pairs, ¬(p.localPtr = l.2 ∧ p.remotePtr = r.2)

instance (a : Agent) : Decidable (Lacks a) := by
  unfold Lacks
  infer_instance

/-- A request joins candidates of unequal components; a description that comes while checks run
gets no pairs; and a source that two local candidates match gets only one. -/
theorem pair_table_unsound_incomplete :
    (Runs (fun _ _ => True) mismatched ∧ ∃ p ∈ mismatched.pairs,
      p.origin.1.component ≠ p.origin.2.component ∧
      mismatched.localDesc.candidates.at? p.localPtr = some p.origin.1 ∧
      mismatched.remoteDesc.candidates.at? p.remotePtr = some p.origin.2) ∧
    (Runs (fun _ _ => True) describedAgain ∧ Lacks describedAgain) ∧
    (Runs (fun _ _ => True) reflexive ∧ Lacks reflexive) := by
  have hmismatched : ∃ p ∈ mismatched.pairs,
      p.origin.1.component ≠ p.origin.2.component ∧
      mismatched.localDesc.candidates.at? p.localPtr = some p.origin.1 ∧
      mismatched.remoteDesc.candidates.at? p.remotePtr = some p.origin.2 := by
    decide +kernel
  have hagain : Lacks describedAgain := by decide +kernel
  have hreflexive : Lacks reflexive := by decide +kernel
  exact ⟨⟨.of_events _ _ _ _ _, hmismatched⟩, ⟨.of_events _ _ _ _ _, hagain⟩,
    ⟨.of_events _ _ _ _ _, hreflexive⟩⟩

end Agent

end Stice.Ice
