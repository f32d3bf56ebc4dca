import Stice.Ice.Evidence
import Stice.Ice.Pairs
import Stice.Ice.Priority

/-! The priorities of pairs. A pair is given its priority once, in the role the agent has then;
`updateOrderedPairs` sorts by the stored priorities and computes none, so that a later change of
the role leaves them behind. -/
namespace Stice.Ice
open Lib Net Stun

namespace Agent

variable {env : AgentEnv} {a b : Agent}

/-- The priority of a pair in a role. -/
def priorityIn (mode : AgentMode) (p : PairEnds) : UInt64 :=
  CandidatePair.computePriority p.origin.1.priority p.origin.2.priority (mode = .controlling)

/-- Every pair has the priority of the present role. -/
def Ranked (a : Agent) : Prop := ∀ p ∈ a.ends, p.priority = priorityIn a.mode p

/-- The pairs are listed as `updateOrderedPairs` lists them. -/
def Ordered (a : Agent) : Prop := a.orderedPairs = a.updateOrderedPairs.orderedPairs

/-! ## Moves -/

theorem updateOrderedPairs_of_ends (h : b.ends = a.ends) :
    b.updateOrderedPairs.orderedPairs = a.updateOrderedPairs.orderedPairs := by
  have hlength : b.pairs.length = a.pairs.length := by
    simpa only [ends, List.length_map] using congrArg List.length h
  have hpriority (i : Nat) : b.pairPriority i = a.pairPriority i := by
    have hget (c : Agent) : (c.pairs[i]?.map (·.priority)) = (c.ends[i]?.map (·.priority)) := by
      rw [ends, List.getElem?_map, Option.map_map]
      rfl
    rw [pairPriority, pairPriority, hget, hget, h]
  unfold updateOrderedPairs
  dsimp only
  rw [hlength]
  simp only [hpriority]

theorem Ordered.of_ends (h : Ordered a) (hends : b.ends = a.ends)
    (hordered : b.orderedPairs = a.orderedPairs) : Ordered b := by
  unfold Ordered
  rw [hordered, updateOrderedPairs_of_ends hends]
  exact h

/-- What a move does to the pairs: new ones have the priority of the role, and the list of them
is kept up. -/
structure Ranks (a b : Agent) : Prop where
  news : ∃ news, b.ends = a.ends ++ news ∧ ∀ p ∈ news, p.priority = priorityIn a.mode p
  ordered : Ordered a → Ordered b

theorem Ranks.of_ends (hends : b.ends = a.ends) (hordered : b.orderedPairs = a.orderedPairs) :
    Ranks a b where
  news := ⟨[], by rw [hends, List.append_nil], fun _ hp => absurd hp List.not_mem_nil⟩
  ordered h := h.of_ends hends hordered

theorem Ranks.of_frame (h : Frame a b) : Ranks a b :=
  .of_ends (by unfold ends; rw [h.pairs]) h.orderedPairs

theorem fillPairs_ranks (a : Agent) : Ranks a a.fillPairs := by
  refine ⟨?_, fun _ => rfl⟩
  refine fill_rule (P := fun pairs : List CandidatePair => ∃ news,
    pairs.map (·.toPairEnds) = a.ends ++ news ∧ ∀ p ∈ news, p.priority = priorityIn a.mode p) ?_
      ⟨[], (List.append_nil _).symm, fun _ hp => absurd hp List.not_mem_nil⟩
  rintro pairs l - r - - - - ⟨news, heq, hnews⟩
  refine ⟨news ++ [(a.newPair l r).toPairEnds], ?_, forall_mem_concat hnews rfl⟩
  rw [List.map_append, heq, List.append_assoc]
  rfl

theorem Move.ranks {k : Kind} (hm : Move env a k b) : Ranks a b := by
  by_cases hkeeps : keepsTable k = true
  · have htable := hm.sameTable hkeeps
    exact .of_ends htable.ends htable.orderedPairs
  cases hm with
  | pushLocal | sort | pushRemote | replace => exact .of_ends rfl rfl
  | fill => exact fillPairs_ranks a
  | append l r =>
    refine ⟨⟨[(a.newPair l r).toPairEnds], List.map_append, ?_⟩, fun _ => rfl⟩
    exact List.forall_mem_singleton.mpr rfl
  | role mode =>
    exact ⟨⟨[], (List.append_nil _).symm, fun _ hp => absurd hp List.not_mem_nil⟩, fun _ => rfl⟩
  | gather =>
    have hframe := @Frame.changeState env a .gathering
    exact .of_ends (by unfold ends; exact congrArg _ hframe.pairs) hframe.orderedPairs
  | connect => exact .of_frame (Frame.changeState a _)
  | _ => exact absurd rfl hkeeps

/-- The moves that can change the role. -/
def casts (k : Kind) : Bool := k = .role || k = .gather || k = .replace

theorem Move.mode {k : Kind} (hm : Move env a k b) (hk : casts k = false) : b.mode = a.mode := by
  cases hm with
  | role | gather | replace => cases hk
  | setup hs => exact hs.mode
  | connect => exact (Frame.changeState a _).mode
  | update => exact (Frame.updateState a).mode
  | @send j e he =>
    rcases sendCheck_cases env he with heq | ⟨tid, _, ⟨_, _, _, heq⟩ | heq | heq⟩ <;> rw [heq]
    · rfl
    · rfl
    · cases e.pair <;> rfl
  | failPair i => cases i <;> rfl
  | freeze =>
    unfold freezeOthers
    split <;> rfl
  | accept j i => exact (acceptAnswer_answered env a j i).mode
  | request i => exact (askNomination_asked env a i).mode
  | _ => rfl

theorem Ranked.of_ranks (h : Ranked a) (hr : Ranks a b)
    (hmode : b.mode = .controlling ↔ a.mode = .controlling) : Ranked b := by
  have hsame : priorityIn b.mode = priorityIn a.mode := by
    funext p
    simp only [priorityIn, hmode]
  obtain ⟨news, hends, hnews⟩ := hr.news
  intro p hp
  rw [hends] at hp
  rw [hsame]
  exact (List.mem_append.mp hp).elim (h p) (hnews p)

/-- A path on which the role stays keeps the priorities in step with it. -/
theorem Goes.ranked {K : Kind → Bool} (hg : Goes env K a b)
    (hK : ∀ k, K k = true → casts k = false) (h : Ranked a) : Ranked b := by
  refine Goes.invariant (P := Ranked) ?_ hg h
  intro a k b hk hm h
  have hmode := hm.mode (hK k hk)
  exact h.of_ranks hm.ranks (by rw [hmode])

theorem Goes.ordered {K : Kind → Bool} (hg : Goes env K a b) (h : Ordered a) : Ordered b :=
  Goes.invariant (P := Ordered) (fun _ _ _ _ hm h => hm.ranks.ordered h) hg h

/-! ## Steps -/

/-- A request after which the agent takes the other role (RFC 8445, section 7.3.1.1). -/
def Contests (a : Agent) (msg : Message) : Prop :=
  ((msg.find .iceControlling).isSome = true ∧ a.mode = .controlling ∧
      a.tiebreaker < (readIceControlling msg).getD 0) ∨
    ((msg.find .iceControlling).isSome = false ∧ (msg.find .iceControlled).isSome = true ∧
      a.mode = .controlled ∧ (readIceControlled msg).getD 0 ≤ a.tiebreaker)

/-- A response 487 to a check that was sent in the present role. -/
def Overrules (a : Agent) (msg : Message) : Prop :=
  msg.cls = .errorResponse ∧ ((readErrorCode msg).map (·.1)).getD 0 = 487 ∧
    ∃ d ∈ a.entries, d.transactionID = msg.transactionID ∧ d.mode = a.mode

/-- The agent does not take or change its role while there are pairs. -/
def KeepsRole (a : Agent) : AgentEvent × AgentEnv → Prop
  | (.gatherCandidates _, _) =>
      a.state = .disconnected ∨ a.state = .failed → a.mode = .unknown → a.pairs = []
  | (e, _) =>
      ∀ msg src transport, a.inbound e = some (msg, src, transport) →
        (msg.cls = .request ∧ a.verifyBindingRequest msg = true ∧ Contests a msg ∨
          Overrules a msg) → a.pairs = []

theorem resolveRole_eq {msg : Message} {mode : AgentMode} (h : a.resolveRole msg = some mode)
    (hc : ¬Contests a msg) : mode = a.mode := by
  unfold resolveRole at h
  split at h
  · rename_i hcontrolling
    split at h
    · rename_i hmode
      split at h
      · cases h
      · rename_i hlt
        exact absurd (.inl ⟨hcontrolling, hmode, UInt64.not_le.mp hlt⟩) hc
    · exact (Option.some.inj h).symm
  · rename_i hcontrolling
    split at h
    · rename_i hcontrolled
      split at h
      · rename_i hmode
        split at h
        · rename_i hle
          exact absurd (.inr ⟨Bool.eq_false_of_not_eq_true hcontrolling, hcontrolled, hmode, hle⟩)
            hc
        · cases h
      · exact (Option.some.inj h).symm
    · exact (Option.some.inj h).symm

theorem Ranked.of_no_pairs (h : a.pairs = []) : Ranked a := by
  intro p hp
  rw [ends, h] at hp
  exact absurd hp List.not_mem_nil

theorem Ranked.setMode {mode : AgentMode} (h : Ranked a) (hmode : mode = a.mode ∨ a.pairs = []) :
    Ranked (a.setMode mode) := by
  rcases hmode with rfl | hnone
  · unfold Agent.setMode
    rw [if_pos rfl]
    exact h
  · exact .of_no_pairs ((setMode_tables a mode).2.2.trans hnone)

theorem Ranked.handleBindingRequest {msg : Message} (hc : Checks a) (h : Ranked a)
    (hkeep : a.verifyBindingRequest msg = true → Contests a msg → a.pairs = [])
    (src : AddrRecord) (transport : CandidateTransport) :
    Ranked (a.handleBindingRequest env msg src transport) := by
  unfold Agent.handleBindingRequest
  split
  · exact h
  split
  · exact h
  rename_i hverify
  split
  · exact h
  rename_i mode hrole
  have hmode : Ranked (a.setMode mode) := by
    refine h.setMode ?_
    by_cases hcontest : Contests a msg
    · exact .inr (hkeep (Bool.eq_true_of_not_eq_false hverify) hcontest)
    · exact .inl (resolveRole_eq hrole hcontest)
  have hchecks := (@Goes.setMode env Kind.requested rfl a mode).checks hc
  exact (Goes.answerRequest hchecks msg src transport).ranked
    (by decide) hmode

theorem Ranked.switchRole {j : Nat} {d : StunEntry} (hd : a.entries[j]? = some d)
    (htype : d.type ≠ .server) (hnone : a.pairs = []) : Ranked (a.switchRole env j d) := by
  have hrole : Ranked { a with mode := a.switchedMode }.updateOrderedPairs := .of_no_pairs hnone
  unfold Agent.switchRole
  dsimp only
  split
  · exact hrole
  · have hm : Move env { a with mode := a.switchedMode }.updateOrderedPairs .arm
        (({ a with mode := a.switchedMode }.updateOrderedPairs).modifyEntry j
          (({ a with mode := a.switchedMode }.updateOrderedPairs).armTransmission env 0)) :=
      .arm j 0 hd htype
    exact hrole.of_ranks hm.ranks (by rw [hm.mode rfl])

theorem Ranked.packet {e : AgentEvent} (he : isPacket e = true) (hc : Checks a) (h : Ranked a)
    (hkeep : ∀ msg src transport, a.inbound e = some (msg, src, transport) →
      (msg.cls = .request ∧ a.verifyBindingRequest msg = true ∧ Contests a msg ∨
        Overrules a msg) → a.pairs = []) : Ranked (a.step (e, env)) := by
  cases hin : a.inbound e with
  | none =>
    exact (Goes.packet_quiet hin he).ranked (by decide) h
  | some m =>
    obtain ⟨msg, src, transport⟩ := m
    have hkeep := hkeep msg src transport hin
    have hreceived := @handleStunMessage_received env a msg src transport
    rw [step_inbound hin]
    generalize a.handleStunMessage env msg src transport = b at hreceived
    cases hreceived with
    | ignored => exact h
    | request hcls =>
      exact h.handleBindingRequest hc (fun hv hcontest => hkeep (.inl ⟨hcls, hv, hcontest⟩)) _ _
    | served _ _ htype =>
      exact (Goes.handleServerReflexiveResponse a msg src _ htype).ranked
        (by decide) h
    | response _ hj _ hresponded =>
      cases hresponded with
      | ignored => exact h
      | conflict hmatched hcls hcode hmode =>
        refine Ranked.switchRole hmatched.entry hmatched.type (hkeep (.inr ⟨hcls, hcode, ?_⟩))
        exact ⟨_, List.mem_of_getElem? hmatched.entry, findIdx?_id hj hmatched.entry, hmode⟩
      | refused hmatched =>
        exact (Goes.failCheck hmatched.entry hmatched.type).ranked
          (by decide) h
      | accepted hmatched _ hpair hfailed =>
        have hm : Move env a .accept (a.acceptAnswer env _ _) :=
          .accept _ _ hmatched.entry hmatched.type hpair hfailed
        exact h.of_ranks hm.ranks (by rw [hm.mode rfl])

theorem Ranked.gatherCandidates (h : Ranked a) (hosts : List Candidate)
    (hkeep : a.state = .disconnected ∨ a.state = .failed → a.mode = .unknown → a.pairs = []) :
    Ranked (a.gatherCandidates env hosts) := by
  rcases @Goes.gatherCandidates_cases env a hosts with heq | ⟨hstate, hpath⟩
  · rwa [heq]
  · refine hpath.ranked (by decide) ?_
    have hframe := @Frame.changeState env a .gathering
    by_cases hmode : a.mode = .unknown
    · exact .of_no_pairs (hframe.pairs.trans (hkeep hstate hmode))
    · have hsame : (a.startGathering env).mode = a.mode := by
        unfold startGathering
        dsimp only
        rw [hframe.mode, if_neg hmode]
      have hm : Move env a .gather (a.startGathering env) := .gather hstate
      exact h.of_ranks hm.ranks (by rw [hsame])

/-- The role a description gives to an agent without one has the priorities of none. -/
theorem Ranked.setRemoteDescription (h : Ranked a) (sdp : Bytes) :
    Ranked (a.setRemoteDescription env sdp) := by
  rcases @Goes.setRemoteDescription_cases env a sdp with heq | ⟨d, -, hpath⟩
  · rwa [heq]
  · refine hpath.ranked (by decide) ?_
    have hm : Move env a .replace (a.replaceRemote d) := .replace d
    refine h.of_ranks hm.ranks ?_
    unfold replaceRemote
    dsimp only
    split
    · rename_i hmode
      rw [hmode]
      decide
    · rfl

theorem Ranked.addRemoteCandidate (h : Ranked a) (line : Bytes) :
    Ranked (a.addRemoteCandidate env line) := by
  rcases addRemoteCandidate_cases env a line with heq | ⟨c, _, heq⟩
  · rwa [heq]
  · rw [heq]
    have hpush : Goes env (fun k => k = .pushRemote || k.adding) a (a.pushRemote c) :=
      .move (.pushRemote c) rfl
    have hadd (k : Kind) (hk : k.adding) : (k = .pushRemote || k.adding) = true := by
      rw [hk, Bool.or_true]
    have hpath := (hpush.trans ((@Goes.dialPassive env _ c).mono hadd)).trans
      ((@Goes.pairTrickled env _).mono fun k hk => hadd k (by revert k; decide))
    exact hpath.ranked (by decide) h

theorem Ranked.step {e : AgentEvent} (hc : Checks a) (h : Ranked a)
    (hkeep : KeepsRole a (e, env)) : Ranked (a.step (e, env)) := by
  by_cases hpacket : isPacket e = true
  · refine h.packet hpacket hc ?_
    cases e <;> first | exact hkeep | cases hpacket
  · cases e with
    | gatherCandidates hosts => exact h.gatherCandidates hosts hkeep
    | setRemoteDescription sdp => exact h.setRemoteDescription sdp
    | addRemoteCandidate line => exact h.addRemoteCandidate line
    | udpPacket | tcpPacket | turnDataPacket => exact absurd rfl hpacket
    | _ =>
      exact (Goes.step hc _).ranked (fun k hk => by cases k <;> first | rfl | cases hk) h

/-! ## Runs -/

theorem Runs.ranked (h : Runs (fun a e => Steady a e ∧ KeepsRole a e) a) : Ranked a := by
  refine Runs.invariant (P := Ranked) ?_ ?_ h
  · rintro a ⟨config, ufrag, pwd, tiebreaker, rfl⟩
    exact .of_no_pairs rfl
  · intro a e env hok hc _ ha
    exact ha.step hc hok.2

theorem Runs.ordered {ok : Agent → AgentEvent × AgentEnv → Prop} (h : Runs ok a) : Ordered a := by
  refine Runs.invariant (P := Ordered) ?_ ?_ h
  · rintro a ⟨config, ufrag, pwd, tiebreaker, rfl⟩
    rfl
  · intro a e env _ _ hgoes ha
    exact hgoes.ordered ha

/-- The list holds every pair once, none before one of a higher priority. -/
theorem Ordered.sorted (h : Ordered a) :
    a.orderedPairs.Perm (List.range a.pairs.length) ∧
      a.orderedPairs.Pairwise fun i j => a.pairPriority j ≤ a.pairPriority i := by
  let r (i j : Nat) : Prop := a.pairPriority j ≤ a.pairPriority i
  have htotal : Std.Total r := ⟨fun i j => (UInt64.le_total (a.pairPriority j) (a.pairPriority i))⟩
  have htrans : IsTrans Nat r := ⟨fun i j k hij hjk => UInt64.le_trans hjk hij⟩
  have heq : a.orderedPairs = (List.range a.pairs.length).insertionSort r := h
  rw [heq]
  exact ⟨List.perm_insertionSort r _, List.pairwise_insertionSort r _⟩

/-- The priority `computePriority` gives to the candidates a pair points to now, in the role
the agent has now. -/
def currentPriority (a : Agent) (p : CandidatePair) : Option UInt64 :=
  (a.localDesc.candidates.at? p.localPtr).bind fun l =>
    (a.remoteDesc.candidates.at? p.remotePtr).map fun r =>
      CandidatePair.computePriority l.priority r.priority (a.mode = .controlling)

/-- In every run of steady steps in which the role stays while there are pairs, the pairs have
the priorities of that role and are listed in their order. -/
theorem pair_priorities_follow_role (h : Runs (fun a e => Steady a e ∧ KeepsRole a e) a) :
    (∀ p ∈ a.pairs, a.currentPriority p = some p.priority) ∧
      a.orderedPairs.Perm (List.range a.pairs.length) ∧
      a.orderedPairs.Pairwise fun i j => a.pairPriority j ≤ a.pairPriority i := by
  refine ⟨?_, h.ordered.sorted⟩
  have hpaired := (h.mono fun _ _ hok => hok.1).paired_of_steady
  intro p hp
  have hends : p.toPairEnds ∈ a.ends := List.mem_map_of_mem hp
  have hpriority : p.priority = priorityIn a.mode p.toPairEnds := h.ranked _ hends
  unfold currentPriority
  rw [hpaired.local_at _ hends, hpaired.remote_at _ hends, hpriority]
  rfl

theorem described_keepsRole : Runs (fun a e => Steady a e ∧ KeepsRole a e) described := by
  have hfresh : Runs (fun a e => Steady a e ∧ KeepsRole a e) (small {}) :=
    .start ⟨{}, localUfrag, localPwd, 7, rfl⟩
  have hgather : Steady (small {}) gatherHost ∧ KeepsRole (small {}) gatherHost :=
    ⟨fun _ => .inl rfl, fun _ _ => rfl⟩
  have hnone : ((small {}).step gatherHost).pairs = [] := by decide +kernel
  exact .next describePeer (.next gatherHost hfresh ⟨hgather, rfl⟩)
    ⟨⟨fun _ => hnone, fun _ _ _ _ _ => hnone⟩, rfl⟩

theorem pair_priorities_follow_role_unequal :
    Runs (fun a e => Steady a e ∧ KeepsRole a e) described ∧ described.pairs.length = 2 ∧
      (∀ p ∈ described.pairs, described.currentPriority p = some p.priority) ∧
      described.orderedPairs.Perm (List.range described.pairs.length) ∧
      described.orderedPairs.Pairwise fun i j =>
        described.pairPriority j ≤ described.pairPriority i :=
  ⟨described_keepsRole, by decide +kernel, pair_priorities_follow_role described_keepsRole⟩

/-- The peer claims the controlling role with the larger tiebreaker. -/
def claimRole : AgentEvent × AgentEnv :=
  (.udpPacket (peerRequest noTransaction [⟨.iceControlling, encodeTiebreaker 8⟩]) (udpAt 2 2000),
    calmEnv 3)

/-- After the switch of the role the pairs still have the priorities of the role before. -/
theorem pair_priorities_outlive_role :
    Runs (fun _ _ => True) (described.step claimRole) ∧
      described.mode = .controlling ∧ (described.step claimRole).mode = .controlled ∧
      ((described.step claimRole).pairs.map fun p =>
        (some p.priority, (described.step claimRole).currentPriority p)) =
        [(some 9151314440652587007, some 9151314440652587007),
          (some 7277816996102668288, some 7277816996102668287)] := by
  have hruns : Runs (fun _ _ => True) described := described_keepsRole.mono fun _ _ _ => trivial
  have hmode : described.mode = .controlling := by decide +kernel
  have hswitch : ((described.step claimRole).mode, (described.step claimRole).pairs.map fun p =>
      (some p.priority, (described.step claimRole).currentPriority p)) =
      (.controlled, [(some 9151314440652587007, some 9151314440652587007),
          (some 7277816996102668288, some 7277816996102668287)]) := by
    decide +kernel
  obtain ⟨hrole, hpriorities⟩ := Prod.mk.inj hswitch
  exact ⟨.next claimRole hruns ⟨trivial, rfl⟩, hmode, hrole, hpriorities⟩

end Agent

end Stice.Ice
