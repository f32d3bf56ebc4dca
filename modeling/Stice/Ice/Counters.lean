import Stice.Ice.Transactions

/-! The counters of gathering. They are the number of STUN servers that have not answered and of
allocations that have not ended, until the soft timeout sets them to zero. -/
namespace Stice.Ice
open Lib Net Stun

/-- A STUN server that has not answered. -/
def StunEntry.waiting (e : StunEntry) : Bool := e.type = .server && e.state = .pending

/-- An allocation whose end has not been counted. -/
def StunEntry.uncounted (e : StunEntry) : Bool := e.type = .relay && e.relay.any (!·.relayCounted)

theorem SameEntry.waiting {e d : StunEntry} (h : SameEntry e d) : d.waiting = e.waiting := by
  unfold StunEntry.waiting
  rw [h.type, h.state]

theorem SameEntry.uncounted {e d : StunEntry} (h : SameEntry e d) : d.uncounted = e.uncounted := by
  have hmap : ∀ r : Option Relay, r.any (!·.relayCounted) = (r.map (·.relayCounted)).any (! ·) := by
    intro r
    cases r <;> rfl
  unfold StunEntry.uncounted
  rw [h.type, hmap d.relay, hmap e.relay, h.counted]

namespace Agent

variable {env : AgentEnv} {a b : Agent}

/-- TURN clients are in the entries of relays. -/
def Relays (a : Agent) : Prop := ∀ e ∈ a.entries, e.relay.isSome = true → e.type = .relay

theorem Relays.unsent (h : Relays a) (hs : Unsent a b) : Relays b := by
  intro d hd hrelay
  rcases hs.entries d hd with ⟨e, he, hkin⟩ | hblank
  · rw [hkin.relay] at hrelay
    exact hkin.type.trans (h e he hrelay)
  · exact hblank.relay hrelay

theorem Move.relays {k : Kind} (hm : Move env a k b) (h : Relays a) : Relays b := by
  by_cases hk : k.unsent = true
  · exact h.unsent (hm.unsent hk)
  · cases hm with
    | @send j e he =>
      unfold Relays
      rcases sendCheck_entries env he with heq | ⟨tid, _, heq⟩
      · rw [heq]
        exact h
      · rw [heq]
        exact forall_mem_modify h fun _ _ => h e (List.mem_of_getElem? he)
    | resend => exact h
    | pushServer resolved => exact forall_mem_concat h fun hsome => by cases hsome
    | _ => exact absurd rfl hk

/-- The counters are exact. -/
structure Counted (a : Agent) : Prop where
  servers : a.pendingServerReflexive = a.entries.countP StunEntry.waiting
  relays : a.pendingRelayAllocations = a.entries.countP StunEntry.uncounted

theorem Counted.of_counts (h : Counted a)
    (hs : b.pendingServerReflexive = a.pendingServerReflexive)
    (hr : b.pendingRelayAllocations = a.pendingRelayAllocations)
    (hw : b.entries.countP StunEntry.waiting = a.entries.countP StunEntry.waiting)
    (hu : b.entries.countP StunEntry.uncounted = a.entries.countP StunEntry.uncounted) :
    Counted b :=
  ⟨by rw [hs, h.servers, hw], by rw [hr, h.relays, hu]⟩

theorem Counted.of_entries (h : Counted a)
    (hs : b.pendingServerReflexive = a.pendingServerReflexive)
    (hr : b.pendingRelayAllocations = a.pendingRelayAllocations) (he : b.entries = a.entries) :
    Counted b :=
  h.of_counts hs hr (by rw [he]) (by rw [he])

/-- An entry changes that is counted as before. -/
theorem Counted.modify {j : Nat} {f : StunEntry → StunEntry} (h : Counted a)
    (hs : b.pendingServerReflexive = a.pendingServerReflexive)
    (hr : b.pendingRelayAllocations = a.pendingRelayAllocations)
    (he : b.entries = a.entries.modify j f)
    (hf : ∀ e, a.entries[j]? = some e →
      (f e).waiting = e.waiting ∧ (f e).uncounted = e.uncounted) : Counted b :=
  h.of_counts hs hr (by rw [he]; exact countP_modify_same _ fun e hx => (hf e hx).1)
    (by rw [he]; exact countP_modify_same _ fun e hx => (hf e hx).2)

theorem Counted.map {f : StunEntry → StunEntry} (h : Counted a)
    (hs : b.pendingServerReflexive = a.pendingServerReflexive)
    (hr : b.pendingRelayAllocations = a.pendingRelayAllocations)
    (he : b.entries = a.entries.map f)
    (hf : ∀ e, (f e).waiting = e.waiting ∧ (f e).uncounted = e.uncounted) : Counted b :=
  h.of_counts hs hr (by rw [he]; exact countP_map_same _ fun e => (hf e).1)
    (by rw [he]; exact countP_map_same _ fun e => (hf e).2)

theorem not_waiting {e : StunEntry} (h : e.type ≠ .server ∨ e.state ≠ .pending) :
    e.waiting = false := by
  unfold StunEntry.waiting
  rcases h with h | h <;> simp [h]

/-- The state of an entry that is no server's is not counted. -/
theorem counted_same {e d : StunEntry} (htype : d.type = e.type) (hrelay : d.relay = e.relay)
    (h : (e.type ≠ .server ∨ e.state ≠ .pending) ∧ (d.type ≠ .server ∨ d.state ≠ .pending)) :
    d.waiting = e.waiting ∧ d.uncounted = e.uncounted := by
  refine ⟨by rw [not_waiting h.1, not_waiting h.2], ?_⟩
  unfold StunEntry.uncounted
  rw [htype, hrelay]

theorem sentEntry_counted (e : StunEntry) (tid : TransactionID) :
    (a.sentEntry e tid).waiting = e.waiting ∧ (a.sentEntry e tid).uncounted = e.uncounted :=
  ⟨rfl, rfl⟩

theorem Counted.sendCheck {j : Nat} {e : StunEntry} (h : Counted a)
    (he : a.entries[j]? = some e) : Counted (a.sendCheck env j) := by
  have hsent : ∀ tid, Counted (a.modifyEntry j fun _ => a.sentEntry e tid) := by
    intro tid
    refine h.modify rfl rfl rfl fun d hd => ?_
    cases he.symm.trans hd
    exact sentEntry_counted e tid
  rcases sendCheck_cases env he with heq | ⟨tid, _, ⟨_, _, _, heq⟩ | heq | heq⟩
  · rwa [heq]
  · rw [heq]
    exact (hsent tid).of_entries rfl rfl rfl
  · rw [heq]
    exact hsent tid
  · rw [heq]
    refine (hsent tid).of_entries ?_ ?_ (setPairState_entries _ _)
    · cases e.pair <;> rfl
    · cases e.pair <;> rfl

theorem Counted.markServer {j : Nat} {s : StunEntryState} {e : StunEntry} (h : Counted a)
    (he : a.entries[j]? = some e) (htype : e.type = .server) (hpending : e.state = .pending)
    (hs : s ≠ .pending) : Counted (a.markServer j s) := by
  have hcount := countP_modify (f := fun e => { e with state := s }) StunEntry.waiting he
  have hbefore : e.waiting = true := by
    unfold StunEntry.waiting
    simp [htype, hpending]
  rw [hbefore, @not_waiting { e with state := s } (.inr hs)] at hcount
  refine ⟨?_, ?_⟩
  · have hservers := h.servers
    change a.pendingServerReflexive - 1 = _
    change _ = ((a.entries.modify j fun e => { e with state := s }).countP _ : Int)
    simp only [Bool.toNat_true, Bool.toNat_false] at hcount
    omega
  · exact (h.relays).trans (by
      rw [show (a.markServer j s).entries = a.entries.modify j fun e =>
        { e with state := s } from rfl,
        countP_modify_same]
      exact fun _ _ => rfl)

theorem Counted.markCounted {j : Nat} {e : StunEntry} (h : Counted a)
    (he : a.entries[j]? = some e) (htype : e.type = .relay)
    (hu : e.relay.any (!·.relayCounted) = true) : Counted (a.markCounted j) := by
  let count (e : StunEntry) : StunEntry :=
    { e with relay := e.relay.map fun r => { r with relayCounted := true } }
  have hcount := countP_modify (f := count) StunEntry.uncounted he
  have hbefore : e.uncounted = true := by
    unfold StunEntry.uncounted
    simp [htype, hu]
  have hafter : (count e).uncounted = false := by
    obtain ⟨r, hr, _⟩ := exists_of_any hu
    simp [count, StunEntry.uncounted, hr]
  rw [hbefore, hafter] at hcount
  refine ⟨?_, ?_⟩
  · exact (h.servers).trans (by
      rw [show (a.markCounted j).entries = a.entries.modify j count from rfl, countP_modify_same]
      exact fun _ _ => rfl)
  · have hrelays := h.relays
    change a.pendingRelayAllocations - 1 = ((a.entries.modify j count).countP _ : Int)
    simp only [Bool.toNat_true, Bool.toNat_false] at hcount
    omega

/-- The moves that leave the counters to what they count. -/
def Kind.counting : Kind → Bool
  | .reset => false
  | _ => true

theorem Move.counted {k : Kind} (hm : Move env a k b) (hk : Kind.counting k = true)
    (hr : Relays a) (h : Counted a) : Counted b := by
  cases hm with
  | reset => exact absurd hk (by decide)
  | setup hs =>
    exact h.of_entries hs.pendingServerReflexive hs.pendingRelayAllocations hs.entries
  | gather =>
    have hframe := @Frame.changeState env a .gathering
    exact h.of_entries hframe.pendingServerReflexive hframe.pendingRelayAllocations hframe.entries
  | connect =>
    have hframe := @Frame.changeState env a .connecting
    exact h.of_entries hframe.pendingServerReflexive hframe.pendingRelayAllocations hframe.entries
  | update =>
    have hframe := @Frame.updateState env a
    exact h.of_entries hframe.pendingServerReflexive hframe.pendingRelayAllocations hframe.entries
  | armPair i =>
    refine h.of_counts rfl rfl ?_ ?_
    · exact List.countP_append.trans (by simp [armTransmission, checkEntry, StunEntry.waiting])
    · exact List.countP_append.trans (by simp [armTransmission, checkEntry, StunEntry.uncounted])
  | pushServer resolved =>
    have hs := h.servers
    have hr := h.relays
    refine ⟨?_, ?_⟩
    · rw [pushServer_entries, List.countP_append]
      change a.pendingServerReflexive + 1 = _
      simp [StunEntry.waiting, hs]
    · rw [pushServer_entries, List.countP_append]
      change a.pendingRelayAllocations = _
      simp [StunEntry.uncounted, hr]
  | pushRelay srv index resolved =>
    have hs := h.servers
    have hr := h.relays
    have hentries : (a.pushRelay env srv index resolved).entries =
        a.entries ++ [{ relayEntry env srv index resolved with serial := a.tally.created }] := rfl
    refine ⟨?_, ?_⟩
    · rw [hentries, List.countP_append]
      change a.pendingServerReflexive = _
      simp [relayEntry, StunEntry.waiting, hs]
    · rw [hentries, List.countP_append]
      change a.pendingRelayAllocations + 1 = _
      simp [relayEntry, StunEntry.uncounted, hr]
  | settleServer j s he htype hpending hs =>
    refine h.markServer he htype hpending ?_
    rcases hs with rfl | rfl <;> decide
  | countRelay j hu =>
    obtain ⟨e, he, hu⟩ := exists_of_any hu
    refine h.markCounted he (hr e (List.mem_of_getElem? he) ?_) hu
    obtain ⟨r, hr, _⟩ := exists_of_any hu
    rw [hr]
    rfl
  | relay j f hf =>
    refine h.modify rfl rfl rfl fun e _ => ⟨rfl, ?_⟩
    unfold StunEntry.uncounted
    cases e.relay with
    | none => rfl
    | some r => simp [hf r]
  | arm j delay he htype =>
    refine h.modify rfl rfl rfl fun d hd => counted_same rfl rfl ?_
    cases he.symm.trans hd
    exact ⟨.inl htype, .inl htype⟩
  | timer j f hf | flush j f hf =>
    exact h.modify rfl rfl rfl fun e _ => ⟨(hf e).waiting, (hf e).uncounted⟩
  | flushes f hf => exact h.map rfl rfl rfl fun e => ⟨(hf e).waiting, (hf e).uncounted⟩
  | send j he => exact h.sendCheck he
  | keepalive j he hs =>
    refine h.modify rfl rfl rfl fun d hd => counted_same rfl rfl ?_
    cases he.symm.trans hd
    exact ⟨.inr (by rw [hs]; decide), .inr (by simp [armKeepalive])⟩
  | @failEntry j e he hfree =>
    refine h.modify rfl rfl rfl fun d hd => counted_same rfl rfl ?_
    cases he.symm.trans hd
    refine ⟨?_, .inr (by simp)⟩
    by_cases htype : e.type = .server
    · exact .inr (hfree htype)
    · exact .inl htype
  | cancel f =>
    refine h.map rfl rfl rfl fun e => ?_
    split
    · rename_i hcancel
      simp only [Bool.and_eq_true, decide_eq_true_eq] at hcancel
      have htype : e.type ≠ .server := by
        rw [hcancel.1.1]
        decide
      exact counted_same rfl rfl ⟨.inl htype, .inl htype⟩
    · exact ⟨rfl, rfl⟩
  | erase keeps herase =>
    have hkeeps : ∀ e : StunEntry, e.type ≠ .check → keeps e = true := by
      intro e htype
      by_contra hfalse
      exact htype (herase e (Bool.eq_false_of_not_eq_true hfalse)).1
    refine h.of_counts rfl rfl (countP_filter_same _ _ fun e he => hkeeps e ?_)
      (countP_filter_same _ _ fun e he => hkeeps e ?_)
    · simp only [StunEntry.waiting, Bool.and_eq_true, decide_eq_true_eq] at he
      rw [he.1]
      decide
    · simp only [StunEntry.uncounted, Bool.and_eq_true, decide_eq_true_eq] at he
      rw [he.1]
      decide
  | failPair i =>
    refine h.of_entries ?_ ?_ (setPairState_entries i _)
    · cases i <;> rfl
    · cases i <;> rfl
  | freeze =>
    unfold freezeOthers
    split
    · exact h
    · exact h.of_entries rfl rfl rfl
  | accept j i he htype =>
    have hanswered := acceptAnswer_answered env a j i
    obtain ⟨time, hentries⟩ := hanswered.entries
    refine h.modify hanswered.pendingServerReflexive hanswered.pendingRelayAllocations hentries
      fun d hd => counted_same rfl rfl ?_
    cases he.symm.trans hd
    exact ⟨.inl htype, .inl htype⟩
  | request i _ _ _ htype =>
    have hasked := askNomination_asked env a i
    rcases askNomination_entries env a i with heq | ⟨j, c, hj, heq⟩
    · exact h.of_entries hasked.pendingServerReflexive hasked.pendingRelayAllocations heq
    · obtain ⟨e, he, hpair⟩ := findEntry_some hj
      have htype := htype e (List.mem_of_getElem? he) hpair
      refine h.modify hasked.pendingServerReflexive hasked.pendingRelayAllocations heq
        fun d hd => counted_same rfl rfl ?_
      cases he.symm.trans hd
      exact ⟨.inl htype, .inl htype⟩
  | _ => exact h.of_entries rfl rfl rfl

theorem Goes.counted {K : Kind → Bool} (hg : Goes env K a b)
    (hK : ∀ k, K k = true → Kind.counting k = true) (h : Relays a ∧ Counted a) :
    Relays b ∧ Counted b :=
  Goes.invariant (P := fun a => Relays a ∧ Counted a)
    (fun _ k _ hk hm h => ⟨hm.relays h.1, hm.counted (hK k hk) h.1 h.2⟩) hg h

/-- The soft timeout does not pass while something is pending. -/
def Unforced (a : Agent) (e : AgentEvent × AgentEnv) : Prop :=
  e.1 = .onBookkeeping → a.gatheringDone = false →
    a.gatherStartedAt.any (gatherTimeoutMs < e.2.now - ·) = true →
    a.pendingRelayAllocations = 0 ∧ a.pendingServerReflexive = 0

theorem Counted.gatherTimeout (h : Relays a ∧ Counted a)
    (hzero : a.gatheringDone = false →
      a.gatherStartedAt.any (gatherTimeoutMs < env.now - ·) = true →
      a.pendingRelayAllocations = 0 ∧ a.pendingServerReflexive = 0) :
    Relays (a.gatherTimeout env) ∧ Counted (a.gatherTimeout env) := by
  have hseed : Relays (a.seedGatherStart env) ∧ Counted (a.seedGatherStart env) := by
    unfold Agent.seedGatherStart
    split
    · exact ⟨h.1, h.2.of_entries rfl rfl rfl⟩
    · exact h
  unfold Agent.gatherTimeout Agent.forceGathering
  split
  · rename_i htime
    -- a round that has only now been given its start has not run out of time
    have hsame : a.seedGatherStart env = a := by
      unfold Agent.seedGatherStart at htime ⊢
      split
      · rename_i hseed
        rw [if_pos hseed] at htime
        have hlate : gatherTimeoutMs < env.now - env.now := by simpa using htime.2
        have hpositive : (0 : Int) < gatherTimeoutMs := by decide
        omega
      · rfl
    rw [hsame] at htime ⊢
    obtain ⟨hrelay, hserver⟩ := hzero htime.1 htime.2
    have hreset : Counted { a with pendingRelayAllocations := 0, pendingServerReflexive := 0 } :=
      h.2.of_entries hserver.symm hrelay.symm rfl
    refine (Goes.checkGatheringComplete _).counted (fun k hk => ?_) ⟨h.1, hreset⟩
    cases k <;> first | rfl | exact absurd hk (by decide)
  · exact hseed

/-- In every run in which the soft timeout finds nothing pending, the counters are exact. -/
theorem counters_exact (h : Runs Unforced a) :
    a.pendingServerReflexive = a.entries.countP StunEntry.waiting ∧
    a.pendingRelayAllocations = a.entries.countP StunEntry.uncounted ∧
    0 ≤ a.pendingServerReflexive ∧ 0 ≤ a.pendingRelayAllocations := by
  have hcounted : Relays a ∧ Counted a := by
    refine Runs.invariant (P := fun a => Relays a ∧ Counted a) ?_ ?_ h
    · rintro a ⟨config, ufrag, pwd, tiebreaker, rfl⟩
      exact ⟨fun e he => absurd he List.not_mem_nil, ⟨rfl, rfl⟩⟩
    · intro a e env hok hc hgoes ha
      by_cases he : e = .onBookkeeping
      · subst he
        have htimeout := @Counted.gatherTimeout env a ha (hok rfl)
        refine (Goes.bookkeepingRest hc).counted (fun k hk => ?_) htimeout
        cases k <;> first | rfl | exact absurd hk (by decide)
      · refine hgoes.counted (fun k hk => ?_) ha
        cases e <;> first
          | exact absurd rfl he
          | cases k <;> first | rfl | cases hk
  obtain ⟨_, hservers, hrelays⟩ := hcounted
  exact ⟨hservers, hrelays, by omega, by omega⟩

/-- A STUN server is asked. -/
def askServerEvents : List (AgentEvent × AgentEnv) :=
  [(.gatherCandidates [], quietEnv 1),
    (.gatherCandidatesWorker, { drawEnv 2 (oneTid 1) with
      resolveServer := fun _ _ _ => some (udpAt 9 3478) })]

def asking : Agent := askServerEvents.foldl step (small { stunServers := [(ascii "s", 3478)] })

theorem counters_exact_asking : asking.pendingServerReflexive = 1 ∧
    asking.pendingServerReflexive = asking.entries.countP StunEntry.waiting ∧
    asking.pendingRelayAllocations = asking.entries.countP StunEntry.uncounted ∧
    0 ≤ asking.pendingServerReflexive ∧ 0 ≤ asking.pendingRelayAllocations := by
  have hgather : Runs Unforced ((small { stunServers := [(ascii "s", 3478)] }).step
      (.gatherCandidates [], quietEnv 1)) :=
    .next _ (.start ⟨_, _, _, _, rfl⟩) ⟨(fun h => by cases h), rfl⟩
  have hrun : Runs Unforced asking :=
    .next (.gatherCandidatesWorker, { drawEnv 2 (oneTid 1) with
      resolveServer := fun _ _ _ => some (udpAt 9 3478) }) hgather ⟨(fun h => by cases h), rfl⟩
  exact ⟨by decide +kernel, counters_exact hrun⟩

/-- The soft timeout passes, and then the server answers. -/
def lateEvents : List (AgentEvent × AgentEnv) :=
  askServerEvents ++ [(.onBookkeeping, quietEnv 20000),
    (.udpPacket (peerResponse none (oneTid 1)) (udpAt 9 3478), quietEnv 20001)]

def lateServer : Agent := lateEvents.foldl step (small { stunServers := [(ascii "s", 3478)] })

theorem counters_negative : Runs (fun _ _ => True) lateServer ∧
    lateServer.pendingServerReflexive = -1 ∧
    lateServer.entries.countP StunEntry.waiting = 0 :=
  ⟨.of_events _ _ _ _ _, by decide +kernel, by decide +kernel⟩

end Agent

end Stice.Ice
