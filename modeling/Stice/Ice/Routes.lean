import Stice.Ice.Evidence

/-! The ways of checks and of application data. `sendStunBinding`, the fast path of `send` and
`sendViaSelectedPair` choose one each by themselves. -/
namespace Stice.Ice
open Lib Net Stun

namespace Agent

variable {a : Agent} {i : Nat} {c : Candidate} {e : StunEntry}

/-! ## Which relay -/

/-- Two allocations are made, and the peer is described. -/
def twoRelaysEvents : List (AgentEvent × AgentEnv) :=
  [(.gatherCandidates [], quietEnv 1),
    (.gatherCandidatesWorker, { quietEnv 2 with
      resolveServer := fun host _ _ => some (udpAt (host.headD 0) 3478) }),
    (.onAllocated 0 (udpAt 9 5000), quietEnv 3), (.onAllocated 1 (udpAt 9 5001), quietEnv 4),
    quietDescribe]

def twoRelays : Agent :=
  twoRelaysEvents.foldl step (small { turnServers := [⟨[7], 3478, false⟩, ⟨[8], 3478, false⟩] })

/-- The end of a way: messages over UDP and through relays have an address, those of the mux go
to the remote candidate, and a connection has its own peer. -/
def destination (a : Agent) (pair : Option Nat) (record : Option AddrRecord) :
    Route → Route × Option AddrRecord
  | .udp => (.udp, record)
  | .relay j => (.relay j, record)
  | .tcpMux => (.tcpMux, (pair.bind a.remoteOf).bind (·.resolved))
  | .tcp => (.tcp, none)
  | .turnData => (.turnData, none)

/-- Where `sendStunBinding` sends a check. -/
def checkTarget (a : Agent) (e : StunEntry) : Option (Route × Option AddrRecord) :=
  (a.checkRoute e).map (a.destination e.pair e.record)

def remoteRecord (a : Agent) (i : Nat) : Option AddrRecord := (a.remoteOf i).bind (·.resolved)

/-- Where `sendViaSelectedPair` sends data. -/
def sendViaSelectedPair (a : Agent) (i : Nat) : Option (Route × Option AddrRecord) :=
  (a.dataRoute i).map (a.destination (some i) (a.remoteRecord i))

/-- Data is to go through a relay. -/
def routeViaRelay (a : Agent) (i : Nat) : Bool :=
  (a.localOf i).any (·.type = .relayed) ||
    (a.remoteOf i).any (·.type = .relayed) && a.allocatedRelay.isSome

/-- The fast path of `send`: the datagram that is written without the lock, if there is one.
`mux` is a UDP mux, `ds` the DSCP mark, and `prepared` whether the client has a channel. -/
def sendFast (a : Agent) (mux : Bool) (ds : Int) (prepared : Bool) (i : Nat) :
    Option (Route × Option AddrRecord) :=
  if !mux && ds < 0 && !a.pairIsTcpRelay (some i) && !a.pairIsTcp (some i) then
    if a.routeViaRelay i then
      if prepared then a.allocatedRelay.map fun j => (.relay j, a.remoteRecord i) else none
    else some (.udp, a.remoteRecord i)
  else none

/-- Where `send` sends data. -/
def sendTarget (a : Agent) (mux : Bool) (ds : Int) (prepared : Bool) (i : Nat) :
    Option (Route × Option AddrRecord) :=
  a.sendFast mux ds prepared i <|> a.sendViaSelectedPair i

/-- A pair that takes neither the data connection nor TCP. -/
def Udp (a : Agent) (i : Nat) : Prop :=
  a.pairIsTcpRelay (some i) = false ∧ a.pairIsTcp (some i) = false

theorem dataRoute_udp (h : a.Udp i) : a.dataRoute i =
    if a.routeViaRelay i then a.allocatedRelay.map .relay else some .udp := by
  unfold dataRoute routeViaRelay
  rw [h.1, h.2, if_neg Bool.false_ne_true, if_neg Bool.false_ne_true]
  cases (a.localOf i).any (·.type = .relayed) with
  | true => rfl
  | false =>
    cases (a.remoteOf i).any (·.type = .relayed) <;> cases a.allocatedRelay <;> rfl

theorem sendFast_agrees {mux prepared : Bool} {ds : Int} {t : Route × Option AddrRecord}
    (h : a.sendFast mux ds prepared i = some t) : a.sendViaSelectedPair i = some t := by
  unfold sendFast at h
  split at h
  · rename_i hfast
    simp only [Bool.and_eq_true, Bool.not_eq_true'] at hfast
    unfold sendViaSelectedPair
    rw [dataRoute_udp ⟨hfast.1.2, hfast.2⟩]
    split at h
    · rename_i hrelay
      rw [if_pos hrelay]
      split at h
      · rw [← h, Option.map_map]
        rfl
      · cases h
    · rename_i hrelay
      rw [if_neg hrelay, ← h]
      rfl
  · cases h

/-- The two routines for data agree. -/
theorem sendTarget_eq (a : Agent) (mux : Bool) (ds : Int) (prepared : Bool) (i : Nat) :
    a.sendTarget mux ds prepared i = a.sendViaSelectedPair i := by
  unfold sendTarget
  cases h : a.sendFast mux ds prepared i with
  | none => rfl
  | some t => exact (sendFast_agrees h).symm

/-- A relayed candidate of the peer is at the address of a check. -/
def relayedAt (a : Agent) (e : StunEntry) : Bool :=
  a.remoteDesc.candidates.elems.any fun c => c.type = .relayed && e.record.any (c.isAt ·)

/-- What has to hold for checks and data of a pair over UDP to take the same way: the check goes
to the remote candidate; a relayed local candidate has an allocation; what goes through a relay
does not loop; and what does not is not for a relayed candidate of the peer. -/
structure SamePath (a : Agent) (i : Nat) (e : StunEntry) : Prop where
  record : e.record = a.remoteRecord i
  allocated : (a.localOf i).any (·.type = .relayed) = true → a.allocatedRelay.isSome = true
  loop : a.routeViaRelay i = true → a.selfLoop e = false
  reflexive : a.routeViaRelay i = false → a.allocatedRelay.isSome = true → a.relayedAt e = false

theorem wantsRelay_eq (hpair : e.pair = some i) : a.wantsRelay e =
    (a.routeViaRelay i || a.allocatedRelay.isSome && a.relayedAt e) := by
  unfold wantsRelay routeViaRelay relayedAt
  rw [hpair, Option.bind_some, Option.bind_some]
  cases (a.localOf i).any (·.type = .relayed) <;> cases (a.remoteOf i).any (·.type = .relayed) <;>
    cases a.allocatedRelay <;> simp

theorem checkRoute_udp (h : a.Udp i) (hpair : e.pair = some i) : a.checkRoute e =
    if a.routeViaRelay i || a.allocatedRelay.isSome && a.relayedAt e then
      a.allocatedRelay.elim (some .udp) fun j => if a.selfLoop e then none else some (.relay j)
    else some .udp := by
  unfold checkRoute
  rw [wantsRelay_eq hpair, hpair, h.1, h.2, if_neg Bool.false_ne_true, if_neg Bool.false_ne_true]
  cases a.allocatedRelay <;> rfl

theorem routeViaRelay_of_none (h : a.allocatedRelay = none) :
    a.routeViaRelay i = (a.localOf i).any (·.type = .relayed) := by
  unfold routeViaRelay
  rw [h]
  simp

/-- Over UDP data takes the way of the checks exactly on those conditions. -/
theorem samePath_iff (h : a.Udp i) (hpair : e.pair = some i) :
    a.sendViaSelectedPair i = a.checkTarget e ↔ a.SamePath i e := by
  unfold sendViaSelectedPair checkTarget
  rw [dataRoute_udp h, checkRoute_udp h hpair, hpair]
  cases halloc : a.allocatedRelay with
  | none =>
    -- without an allocation a check is sent directly, and data of a relayed candidate is not
    have hlocal := @routeViaRelay_of_none a i halloc
    cases hvia : a.routeViaRelay i with
    | true =>
      have hno : ¬a.SamePath i e := by
        intro hsame
        have := hsame.allocated (hlocal ▸ hvia)
        rw [halloc] at this
        cases this
      simp [hno, destination]
    | false =>
      constructor
      · intro heq
        have heq : a.remoteRecord i = e.record := by simpa [destination] using heq
        refine ⟨heq.symm, fun hl => ?_, fun hv => ?_, fun _ hs => ?_⟩
        · rw [← hlocal, hvia] at hl
          cases hl
        · rw [hvia] at hv
          cases hv
        · rw [halloc] at hs
          cases hs
      · intro hsame
        simp [destination, hsame.record]
  | some j =>
    cases hvia : a.routeViaRelay i with
    | true =>
      cases hloop : a.selfLoop e with
      | true =>
        have hno : ¬a.SamePath i e := by
          intro hsame
          have := hsame.loop hvia
          rw [hloop] at this
          cases this
        simp [hno]
      | false =>
        constructor
        · intro heq
          have heq : a.remoteRecord i = e.record := by simpa [destination] using heq
          refine ⟨heq.symm, fun _ => by rw [halloc]; rfl, fun _ => hloop, fun hv => ?_⟩
          rw [hvia] at hv
          cases hv
        · intro hsame
          simp [destination, hsame.record]
    | false =>
      cases hat : a.relayedAt e with
      | true =>
        have hno : ¬a.SamePath i e := by
          intro hsame
          have := hsame.reflexive hvia (by rw [halloc]; rfl)
          rw [hat] at this
          cases this
        cases hloop : a.selfLoop e <;> simp [hno, destination]
      | false =>
        constructor
        · intro heq
          have heq : a.remoteRecord i = e.record := by simpa [destination] using heq
          refine ⟨heq.symm, fun _ => by rw [halloc]; rfl, fun hv => ?_, fun _ _ => hat⟩
          rw [hvia] at hv
          cases hv
        · intro hsame
          simp [destination, hsame.record]

/-- The routines for data agree with each other, and they send data where a check of the pair
goes if and only if the pair takes the data connection or TCP, or the conditions hold. -/
theorem data_follows_checks (hpair : e.pair = some i) :
    (∀ mux ds prepared, a.sendTarget mux ds prepared i = a.sendViaSelectedPair i) ∧
    (a.sendViaSelectedPair i = a.checkTarget e ↔ ¬a.Udp i ∨ a.SamePath i e) := by
  refine ⟨fun mux ds prepared => sendTarget_eq a mux ds prepared i, ?_⟩
  by_cases hudp : a.Udp i
  · rw [samePath_iff hudp hpair]
    exact ⟨.inr, fun h => h.resolve_left (not_not_intro hudp)⟩
  · refine ⟨fun _ => .inl hudp, fun _ => ?_⟩
    have hroute : a.dataRoute i = a.checkRoute e ∧ ∀ route, a.dataRoute i = some route →
        route = .turnData ∨ route = .tcpMux ∨ route = .tcp := by
      unfold dataRoute checkRoute
      rw [hpair]
      cases hrelay : a.pairIsTcpRelay (some i) with
      | true =>
        refine ⟨rfl, fun route h => ?_⟩
        rw [if_pos rfl] at h
        split at h
        · cases h
          exact .inl rfl
        · cases h
      | false =>
        have htcp : a.pairIsTcp (some i) = true := by
          by_contra hne
          exact hudp ⟨hrelay, Bool.eq_false_of_not_eq_true hne⟩
        rw [htcp]
        refine ⟨rfl, fun route h => ?_⟩
        rw [if_neg Bool.false_ne_true, if_pos rfl] at h
        unfold tcpRoute at h
        split at h
        · cases h
          exact .inr (.inl rfl)
        · split at h
          · cases h
            exact .inr (.inr rfl)
          · cases h
    unfold sendViaSelectedPair checkTarget
    rw [← hroute.1, hpair]
    cases hdata : a.dataRoute i with
    | none => rfl
    | some route =>
      rcases hroute.2 route hdata with rfl | rfl | rfl <;> rfl

/-- The first of two allocations carries the first pair. -/
theorem data_follows_checks_first :
    (∃ e ∈ twoRelays.entries, e.pair = some 0) ∧
    ∀ e ∈ twoRelays.entries, e.pair = some 0 →
      (∀ mux ds prepared, twoRelays.sendTarget mux ds prepared 0 =
        twoRelays.sendViaSelectedPair 0) ∧
      (twoRelays.sendViaSelectedPair 0 = twoRelays.checkTarget e ↔
        ¬twoRelays.Udp 0 ∨ twoRelays.SamePath 0 e) :=
  ⟨by decide +kernel, fun _ _ hpair => data_follows_checks hpair⟩

/-- The check of a relayed pair is answered, and then the allocation fails. -/
def lostRelayEvents : List (AgentEvent × AgentEnv) :=
  [(.gatherCandidates [], quietEnv 1),
    (.gatherCandidatesWorker,
      { quietEnv 2 with resolveServer := fun _ _ _ => some (udpAt 7 3478) }),
    (.onAllocated 0 (udpAt 9 5000), quietEnv 3), quietDescribe, (.onBookkeeping, calmEnv 100),
    (.udpPacket (peerResponse none (oneTid 2)) (udpAt 2 2000), quietEnv 110),
    (.onFailed 0, quietEnv 120)]

def lostRelay : Agent :=
  lostRelayEvents.foldl step (small { turnServers := [⟨[7], 3478, false⟩] })

/-- A check of the selected pair is then sent directly, and data is not sent. -/
theorem data_leaves_checks : Runs (fun _ _ => True) lostRelay ∧
    lostRelay.selectedPair = some 0 ∧
    (lostRelay.entries.any fun e => e.pair = some 0 &&
      lostRelay.checkTarget e = some (.udp, some (udpAt 2 2000))) = true ∧
    lostRelay.sendViaSelectedPair 0 = none :=
  ⟨.of_events _ _ _ _ _, by decide +kernel, by decide +kernel, by decide +kernel⟩

end Agent

end Stice.Ice
