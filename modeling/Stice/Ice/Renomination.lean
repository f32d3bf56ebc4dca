import Stice.Ice.Consent
import Stice.Ice.States

/-! Renomination. `updateState` selects by priority among the pairs that have succeeded, and a
nomination changes no priority. -/
namespace Stice.Ice
open Lib Net Stun

namespace Agent

variable {env : AgentEnv} {a b : Agent} {i k : Nat}

/-! ## What `updateState` selects -/

/-- The selected pair is a TCP relay and the policy stays with those. -/
def sticks (a : Agent) : Bool :=
  a.pairing.reselectPolicy = .stickySelected && a.pairIsTcpRelay a.selectedPair

/-- Of two pairs of one class the one with the higher priority comes first, then the older. -/
def Precedes (a : Agent) (i k : Nat) : Prop :=
  a.pairPriority k < a.pairPriority i ∨ a.pairPriority k = a.pairPriority i ∧ i < k

/-- An agent that sticks to TCP relays puts them first; any other puts them behind the pairs of
equal priority. -/
def Outranks (a : Agent) (i k : Nat) : Prop :=
  if a.pairIsTcpRelay (some i) = a.pairIsTcpRelay (some k) then a.Precedes i k
  else if a.sticks then a.pairIsTcpRelay (some i) = true
  else a.pairPriority k < a.pairPriority i ∨
    a.pairPriority k = a.pairPriority i ∧ a.pairIsTcpRelay (some k) = true

/-- A pair outranks every other pair that has succeeded. -/
def Leads (a : Agent) (i : Nat) : Prop :=
  ∀ k, a.pairState k = some .succeeded → k ≠ i → a.Outranks i k

theorem Precedes.asymm (h : a.Precedes i k) (h' : a.Precedes k i) : False := by
  unfold Precedes at h h'
  rw [UInt64.lt_iff_toNat_lt, ← UInt64.toNat_inj] at h h'
  omega

theorem Outranks.asymm (h : a.Outranks i k) (h' : a.Outranks k i) : False := by
  unfold Outranks at h h'
  by_cases hclass : a.pairIsTcpRelay (some i) = a.pairIsTcpRelay (some k)
  · rw [if_pos hclass] at h
    rw [if_pos hclass.symm] at h'
    exact h.asymm h'
  · rw [if_neg hclass] at h
    rw [if_neg (Ne.symm hclass)] at h'
    split at h
    · rw [if_pos ‹_›] at h'
      exact hclass (h.trans h'.symm)
    · rw [if_neg ‹_›] at h'
      rw [UInt64.lt_iff_toNat_lt, ← UInt64.toNat_inj] at h h'
      rcases h with h | ⟨h, hk⟩
      · rcases h' with h' | ⟨h', _⟩ <;> omega
      · rcases h' with h' | ⟨_, hi⟩
        · omega
        · exact hclass (hi.trans hk.symm)

/-- What a scan in the order of the table has found. -/
structure Best (a : Agent) (keep : Nat → Bool) (n : Nat) (best : Option Nat) : Prop where
  found : ∀ i, best = some i → a.pairState i = some .succeeded ∧ keep i = true ∧ i < n ∧
    ∀ k < n, a.pairState k = some .succeeded → keep k = true → k ≠ i → a.Precedes i k
  none : best = none → ∀ k < n, a.pairState k = some .succeeded → keep k = false

theorem best_succ {keep : Nat → Bool} {n : Nat} {best : Option Nat} (h : Best a keep n best) :
    Best a keep (n + 1) (if a.pairState n = some .succeeded && keep n &&
      best.all fun j => a.pairPriority j < a.pairPriority n then some n else best) := by
  split
  · rename_i htake
    simp only [Bool.and_eq_true, decide_eq_true_eq] at htake
    obtain ⟨⟨hstate, hkeep⟩, hbeats⟩ := htake
    refine ⟨fun i hi => ?_, fun hnone => by cases hnone⟩
    cases hi
    refine ⟨hstate, hkeep, Nat.lt_succ_self n, fun k hk hs hkept hne => ?_⟩
    have hkn : k < n := by omega
    left
    cases hbest : best with
    | none =>
      rw [h.none hbest k hkn hs] at hkept
      cases hkept
    | some j =>
      obtain ⟨_, _, _, hlead⟩ := h.found j hbest
      have hj : a.pairPriority j < a.pairPriority n := by
        rw [hbest] at hbeats
        simpa using hbeats
      by_cases hkj : k = j
      · exact hkj ▸ hj
      · have hprecedes := hlead k hkn hs hkept hkj
        unfold Precedes at hprecedes
        rw [UInt64.lt_iff_toNat_lt, ← UInt64.toNat_inj] at hprecedes
        rw [UInt64.lt_iff_toNat_lt] at hj ⊢
        omega
  · rename_i hskip
    refine ⟨fun i hi => ?_, fun hnone k hk hs => ?_⟩
    · obtain ⟨hstate, hkeep, hin, hlead⟩ := h.found i hi
      refine ⟨hstate, hkeep, by omega, fun k hk hs hkept hne => ?_⟩
      by_cases hkn : k = n
      · subst hkn
        have hle : ¬a.pairPriority i < a.pairPriority k := by
          intro hlt
          exact hskip (by simp [hs, hkept, hi, hlt])
        unfold Precedes
        rw [UInt64.lt_iff_toNat_lt] at hle ⊢
        rw [← UInt64.toNat_inj]
        omega
      · exact hlead k (by omega) hs hkept hne
    · by_cases hkn : k = n
      · subst hkn
        by_contra hkept
        exact hskip (by simp [hs, hnone, Bool.eq_true_of_not_eq_false hkept])
      · exact h.none hnone k (by omega) hs

theorem bestPair_best (a : Agent) (keep : Nat → Bool) :
    Best a keep a.pairs.length (a.bestPair keep) := by
  unfold bestPair
  induction a.pairs.length with
  | zero => exact ⟨(fun i hi => by cases hi), fun _ k hk => absurd hk (Nat.not_lt_zero k)⟩
  | succ n ih =>
    rw [List.range_succ, List.foldl_append]
    exact best_succ ih

/-- The first pair of a class: it precedes the others of that class. -/
theorem bestPair_precedes {relay : Bool}
    (h : a.bestPair (fun i => a.pairIsTcpRelay (some i) == relay) = some i)
    (hs : a.pairState k = some .succeeded) (hk : a.pairIsTcpRelay (some k) = relay) (hne : k ≠ i) :
    a.pairIsTcpRelay (some i) = relay ∧ a.Precedes i k := by
  obtain ⟨_, hrelay, _, hlead⟩ := (bestPair_best a _).found i h
  exact ⟨by simpa using hrelay, hlead k (lt_of_pairState hs) hs (by simpa using hk) hne⟩

theorem bestPair_none {relay : Bool}
    (h : a.bestPair (fun i => a.pairIsTcpRelay (some i) == relay) = none)
    (hs : a.pairState k = some .succeeded) : a.pairIsTcpRelay (some k) ≠ relay := by
  have hkeep := (bestPair_best a _).none h k (lt_of_pairState hs) hs
  simpa using hkeep

/-- The pairs of a class are looked at by themselves. -/
theorem selection_eq (a : Agent) : a.selection =
    let tcp := a.bestPair fun i => a.pairIsTcpRelay (some i) == true
    let udp := a.bestPair fun i => a.pairIsTcpRelay (some i) == false
    if a.sticks then tcp <|> udp
    else
      match tcp, udp with
      | some t, some u => if a.pairPriority u < a.pairPriority t then some t else some u
      | some t, none => some t
      | none, u => u := by
  have htcp : (fun i => a.pairIsTcpRelay (some i) == true) =
      fun i => a.pairIsTcpRelay (some i) := by
    funext i
    cases a.pairIsTcpRelay (some i) <;> rfl
  have hudp : (fun i => a.pairIsTcpRelay (some i) == false) =
      fun i => !a.pairIsTcpRelay (some i) := by
    funext i
    cases a.pairIsTcpRelay (some i) <;> rfl
  rw [htcp, hudp]
  rfl

/-- A pair of a class leads if it is the first of its class and outranks that of the other. -/
theorem leads_of_best {relay : Bool}
    (h : a.bestPair (fun i => a.pairIsTcpRelay (some i) == relay) = some i)
    (hother : ∀ k, a.pairState k = some .succeeded → a.pairIsTcpRelay (some k) = !relay →
      a.Outranks i k) : a.Leads i := by
  intro k hs hne
  by_cases hk : a.pairIsTcpRelay (some k) = relay
  · obtain ⟨hi, hprecedes⟩ := bestPair_precedes h hs hk hne
    unfold Outranks
    rwa [if_pos (hi.trans hk.symm)]
  · exact hother k hs (Bool.eq_not_of_ne hk)

theorem bestPair_class {relay : Bool}
    (h : a.bestPair (fun i => a.pairIsTcpRelay (some i) == relay) = some i) :
    a.pairIsTcpRelay (some i) = relay := by
  simpa using ((bestPair_best a _).found i h).2.1

theorem bestPair_priority {relay : Bool}
    (h : a.bestPair (fun i => a.pairIsTcpRelay (some i) == relay) = some i)
    (hs : a.pairState k = some .succeeded) (hk : a.pairIsTcpRelay (some k) = relay) :
    (a.pairPriority k).toNat ≤ (a.pairPriority i).toNat := by
  by_cases hne : k = i
  · rw [hne]
  · have hprecedes := (bestPair_precedes h hs hk hne).2
    unfold Precedes at hprecedes
    rw [UInt64.lt_iff_toNat_lt, ← UInt64.toNat_inj] at hprecedes
    omega

theorem selection_leads (h : a.selection = some i) : a.Leads i := by
  rw [selection_eq] at h
  dsimp only at h
  cases htcp : a.bestPair fun i => a.pairIsTcpRelay (some i) == true with
  | none =>
    -- there are no relays to compare with
    rw [htcp] at h
    have hudp : a.bestPair (fun i => a.pairIsTcpRelay (some i) == false) = some i := by
      split at h <;> exact h
    exact leads_of_best hudp fun k hs hk => absurd hk (bestPair_none htcp hs)
  | some t =>
    rw [htcp] at h
    have ht := bestPair_class htcp
    split at h
    · rename_i hsticks
      cases h
      refine leads_of_best htcp fun k hs hk => ?_
      unfold Outranks
      rw [if_neg (by rw [ht, hk]; decide), if_pos hsticks]
      exact ht
    · rename_i hsticks
      cases hudp : a.bestPair fun i => a.pairIsTcpRelay (some i) == false with
      | none =>
        rw [hudp] at h
        cases h
        exact leads_of_best htcp fun k hs hk => absurd hk (bestPair_none hudp hs)
      | some u =>
        rw [hudp] at h
        have hu := bestPair_class hudp
        dsimp only at h
        split at h
        · rename_i hlt
          cases h
          refine leads_of_best htcp fun k hs hk => ?_
          have hle := bestPair_priority hudp hs hk
          unfold Outranks
          rw [if_neg (by rw [ht, hk]; decide), if_neg hsticks]
          rw [UInt64.lt_iff_toNat_lt] at hlt ⊢
          exact .inl (by omega)
        · rename_i hle
          cases h
          refine leads_of_best hudp fun k hs hk => ?_
          have hkt := bestPair_priority htcp hs hk
          unfold Outranks
          rw [if_neg (by rw [hu, hk]; decide), if_neg hsticks]
          rw [UInt64.lt_iff_toNat_lt] at hle ⊢
          rw [← UInt64.toNat_inj]
          by_cases heq : (a.pairPriority k).toNat = (a.pairPriority i).toNat
          · exact .inr ⟨heq, hk⟩
          · exact .inl (by omega)

/-- If a pair has succeeded, one is selected. -/
theorem exists_selection (hs : a.pairState i = some .succeeded) : ∃ k, a.selection = some k := by
  cases hsel : a.selection with
  | some k => exact ⟨k, rfl⟩
  | none =>
    exfalso
    rw [selection_eq] at hsel
    dsimp only at hsel
    have hboth : a.bestPair (fun i => a.pairIsTcpRelay (some i) == true) = none ∧
        a.bestPair (fun i => a.pairIsTcpRelay (some i) == false) = none := by
      split at hsel
      · simpa using hsel
      · split at hsel
        · split at hsel <;> cases hsel
        · cases hsel
        · rename_i htcp
          exact ⟨htcp, hsel⟩
    cases hclass : a.pairIsTcpRelay (some i) with
    | true => exact bestPair_none hboth.1 hs hclass
    | false => exact bestPair_none hboth.2 hs hclass

/-- A pair that has succeeded is selected if and only if it leads. -/
theorem selection_iff (hs : a.pairState i = some .succeeded) :
    a.selection = some i ↔ a.Leads i := by
  refine ⟨selection_leads, fun hleads => ?_⟩
  obtain ⟨k, hsel⟩ := exists_selection hs
  rw [hsel]
  by_contra hne
  have hki : k ≠ i := fun h => hne (congrArg some h)
  exact (hleads k (selection_succeeded hsel) hki).asymm (selection_leads hsel i hs (Ne.symm hki))

/-! ## Nominations -/

/-- A Binding request, with its source and the way it came. -/
structure PeerRequest where
  msg : Message
  src : AddrRecord
  transport : CandidateTransport

/-- The pair that `findOrCreatePair` finds. -/
def knownPair (a : Agent) (src : AddrRecord) (transport : CandidateTransport) : Option Nat :=
  if addrIsLinkLocal src.ip then none
  else (a.remoteDesc.candidates.refs.find? fun r => remoteAt src transport r.1).bind fun r =>
    (a.localDesc.candidates.refs.find? fun l => localFor r.1 transport l.1).bind fun l =>
      a.pairs.findIdx? (·.joins l r)

/-- An authenticated nomination on a pair: the request is not the agent's own, carries the
credentials and the other role, USE-CANDIDATE and a NOMINATION. -/
structure Nominating (a : Agent) (r : PeerRequest) (i : Nat) (value : UInt32) : Prop where
  foreign : (a.localDesc.candidates.elems.any fun c => c.type = .relayed && c.isAt r.src) = false
  verified : a.verifyBindingRequest r.msg = true
  role : a.resolveRole r.msg = some a.mode
  use : hasUseCandidate r.msg = true
  nomination : readNomination r.msg = some value
  pair : a.knownPair r.src r.transport = some i

theorem findOrCreatePair_known {src : AddrRecord} {transport : CandidateTransport}
    (h : a.knownPair src transport = some i) (env : AgentEnv) (priority : UInt32) :
    a.findOrCreatePair env src priority transport = (some i, a) := by
  unfold knownPair at h
  split at h
  · cases h
  · rename_i hlink
    obtain ⟨r, hr, h⟩ := Option.bind_eq_some_iff.mp h
    obtain ⟨l, hl, h⟩ := Option.bind_eq_some_iff.mp h
    unfold findOrCreatePair pairRemote
    rw [if_neg hlink, hr]
    dsimp only
    rw [hl]
    dsimp only
    rw [h]

/-- Only marks of nomination and the log differ. -/
structure Marked (a b : Agent) : Prop where
  localDesc : b.localDesc = a.localDesc
  remoteDesc : b.remoteDesc = a.remoteDesc
  mode : b.mode = a.mode
  tiebreaker : b.tiebreaker = a.tiebreaker
  pairing : b.pairing = a.pairing
  selectedPair : b.selectedPair = a.selectedPair
  ends : b.pairs.map (·.toPairEnds) = a.pairs.map (·.toPairEnds)
  states : b.pairs.map (·.state) = a.pairs.map (·.state)

theorem Marked.refl (a : Agent) : Marked a a := (by constructor <;> rfl)

theorem Marked.nominate (h : Marked a b) (i : Nat) (msg : Message) (dst : AddrRecord) :
    Marked a ((b.modifyPair i (Agent.nominate msg)).sendBindingResponse msg dst 0) := by
  have hends : (b.modifyPair i (Agent.nominate msg)).pairs.map (·.toPairEnds) =
      b.pairs.map (·.toPairEnds) := by
    apply map_modify_eq
    intro p
    rfl
  have hstates : (b.modifyPair i (Agent.nominate msg)).pairs.map (·.state) =
      b.pairs.map (·.state) := by
    apply map_modify_eq
    intro p
    exact (nominate_state msg p.toPairCheck).1
  exact ⟨h.localDesc, h.remoteDesc, h.mode, h.tiebreaker, h.pairing, h.selectedPair,
    hends.trans h.ends, hstates.trans h.states⟩

theorem Marked.pairState (h : Marked a b) (i : Nat) : b.pairState i = a.pairState i := by
  unfold Agent.pairState
  rw [← List.getElem?_map, ← List.getElem?_map, h.states]

theorem Marked.rows (h : Marked a b) (i : Nat) :
    b.pairs[i]?.map (·.toPairEnds) = a.pairs[i]?.map (·.toPairEnds) := by
  rw [← List.getElem?_map, ← List.getElem?_map, h.ends]

theorem Marked.localOf (h : Marked a b) (i : Nat) : b.localOf i = a.localOf i := by
  have hbind : ∀ c : Agent, c.localOf i =
      (c.pairs[i]?.map (·.toPairEnds)).bind fun p => c.localDesc.candidates.at? p.localPtr := by
    intro c
    unfold Agent.localOf
    cases c.pairs[i]? <;> rfl
  rw [hbind, hbind, h.rows, h.localDesc]

theorem Marked.pairPriority (h : Marked a b) (i : Nat) : b.pairPriority i = a.pairPriority i := by
  have hmap : ∀ c : Agent, c.pairPriority i =
      ((c.pairs[i]?.map (·.toPairEnds)).map (·.priority)).getD 0 := by
    intro c
    unfold Agent.pairPriority
    cases c.pairs[i]? <;> rfl
  rw [hmap, hmap, h.rows]

theorem Marked.pairIsTcpRelay (h : Marked a b) (i : Option Nat) :
    b.pairIsTcpRelay i = a.pairIsTcpRelay i := by
  unfold Agent.pairIsTcpRelay
  simp only [h.localOf]

theorem Marked.selection (h : Marked a b) : b.selection = a.selection := by
  have hlength : b.pairs.length = a.pairs.length := by
    simpa using congrArg List.length h.states
  unfold Agent.selection bestPair
  simp only [h.pairState, h.pairPriority, h.pairIsTcpRelay, h.pairing, h.selectedPair, hlength]

theorem Marked.findIdx? (h : Marked a b) (l r : Candidate × Nat) :
    b.pairs.findIdx? (·.joins l r) = a.pairs.findIdx? (·.joins l r) := by
  have hmap : ∀ pairs : List CandidatePair, pairs.findIdx? (·.joins l r) =
      (pairs.map (·.toPairEnds)).findIdx? fun p => p.localPtr = l.2 && p.remotePtr = r.2 := by
    intro pairs
    rw [List.findIdx?_map]
    rfl
  rw [hmap, hmap, h.ends]

theorem Nominating.marked {r : PeerRequest} {value : UInt32} (h : Nominating a r i value)
    (hm : Marked a b) : Nominating b r i value where
  foreign := by
    rw [hm.localDesc]
    exact h.foreign
  verified := by
    unfold verifyBindingRequest
    rw [hm.localDesc, hm.remoteDesc]
    exact h.verified
  role := by
    unfold resolveRole
    rw [hm.mode, hm.tiebreaker]
    exact h.role
  use := h.use
  nomination := h.nomination
  pair := by
    unfold knownPair
    simp only [hm.localDesc, hm.remoteDesc, hm.findIdx?]
    exact h.pair

/-- A nomination on a pair that has succeeded marks the pair and is answered. -/
theorem Nominating.handleBindingRequest {r : PeerRequest} {value : UInt32}
    (h : Nominating a r i value) (hs : a.pairState i = some .succeeded) (env : AgentEnv) :
    a.handleBindingRequest env r.msg r.src r.transport =
      (a.modifyPair i (Agent.nominate r.msg)).sendBindingResponse r.msg r.src 0 := by
  have hstate : (a.modifyPair i (Agent.nominate r.msg)).pairState i = some .succeeded :=
    (((Marked.refl a).nominate i r.msg r.src).pairState i).trans hs
  unfold Agent.handleBindingRequest
  rw [h.foreign, if_neg Bool.false_ne_true, h.verified, if_neg (by decide), h.role]
  dsimp only
  unfold setMode answerRequest
  rw [if_pos rfl, findOrCreatePair_known h.pair]
  dsimp only
  unfold triggerCheck
  exact if_neg fun htrigger => htrigger.1 hstate

/-- Requests arrive, in some order and perhaps more than once. -/
def receive (a : Agent) (arrivals : List (PeerRequest × AgentEnv)) : Agent :=
  arrivals.foldl (fun a r => a.handleBindingRequest r.2 r.1.msg r.1.src r.1.transport) a

/-- Every request that arrives nominates a pair that has succeeded. -/
theorem Marked.receive {arrivals : List (PeerRequest × AgentEnv)} (h : Marked a b)
    (hon : ∀ r ∈ arrivals, ∃ i value, Nominating a r.1 i value ∧
      a.pairState i = some .succeeded) : Marked a (b.receive arrivals) := by
  unfold Agent.receive
  induction arrivals generalizing b with
  | nil => exact h
  | cons r arrivals ih =>
    obtain ⟨i, value, hnominates, hs⟩ := hon r (List.mem_cons_self ..)
    rw [List.foldl_cons, (hnominates.marked h).handleBindingRequest ((h.pairState i).trans hs)]
    exact ih (h.nominate i _ _) fun r hr => hon r (List.mem_cons_of_mem _ hr)

theorem changeState_selectedPair (env : AgentEnv) (a : Agent) (s : AgentState) :
    (a.changeState env s).selectedPair = a.selectedPair := by
  unfold changeState
  split
  · rfl
  · dsimp only
    split <;> rfl

theorem updateState_selectedPair (env : AgentEnv) (h : a.selection = some k) :
    (a.updateState env).selectedPair = some k := by
  unfold updateState
  rw [h]
  dsimp only
  unfold enterConnected
  dsimp only
  split
  · split
    · rw [changeState_selectedPair, changeState_selectedPair]
    · split
      · rw [changeState_selectedPair]
      · rfl
  · split
    · rw [changeState_selectedPair]
    · rfl

/-- A controlled agent is sent nominations with different values on pairs that have succeeded;
they arrive in any order, each at least once. -/
structure Renomination (a : Agent) (requests : List PeerRequest)
    (arrivals : List (PeerRequest × AgentEnv)) : Prop where
  controlled : a.mode = .controlled
  on : ∀ r ∈ requests, ∃ i value, Nominating a r i value ∧ a.pairState i = some .succeeded
  distinct : requests.Pairwise fun r r' => readNomination r.msg ≠ readNomination r'.msg
  same : ∀ r, r ∈ arrivals.map (·.1) ↔ r ∈ requests

/-- The request with the largest value, on its pair. -/
structure Largest (a : Agent) (requests : List PeerRequest) (top : PeerRequest) (i : Nat)
    (value : UInt32) : Prop extends Nominating a top i value where
  mem : top ∈ requests
  max : ∀ r ∈ requests, ∀ v, readNomination r.msg = some v → v ≤ value

/-- Nominations leave it to the pairs before them what is selected. -/
theorem Renomination.selectedPair {requests : List PeerRequest}
    {arrivals : List (PeerRequest × AgentEnv)} (h : Renomination a requests arrivals)
    (hsel : a.selection = some k) :
    ((a.receive arrivals).updateState env).selectedPair = some k := by
  have hmarked : Marked a (a.receive arrivals) := by
    refine (Marked.refl a).receive fun r hr => h.on r.1 ?_
    exact (h.same r.1).mp (List.mem_map_of_mem hr)
  exact updateState_selectedPair env (hmarked.selection.trans hsel)

/-- After nominations in any order the pair with the largest value is selected if and only if it
outranks all the others by its priority. -/
theorem renomination_selects {requests : List PeerRequest}
    {arrivals : List (PeerRequest × AgentEnv)} {top : PeerRequest} {value : UInt32}
    (h : Renomination a requests arrivals) (htop : Largest a requests top i value) :
    ((a.receive arrivals).updateState env).selectedPair = some i ↔ a.Leads i := by
  have hs : a.pairState i = some .succeeded := by
    obtain ⟨k, v, hk, hs⟩ := h.on top htop.mem
    cases htop.pair.symm.trans hk.pair
    exact hs
  obtain ⟨k, hsel⟩ := exists_selection hs
  rw [h.selectedPair hsel, ← selection_iff hs, hsel]

/-! ## Two pairs -/

def twoPairsEvents : List (AgentEvent × AgentEnv) :=
  [(.setRemoteDescription peerSdpWithCandidates, quietEnv 1),
    (.gatherCandidates [hostAt (udpAt 1 1000)], quietEnv 2), (.onBookkeeping, calmEnv 100),
    (.udpPacket (peerResponse none (oneTid 1)) (udpAt 2 2000), quietEnv 110),
    (.udpPacket (peerResponse none (oneTid 2)) (udpAt 3 2000), quietEnv 111)]

/-- A controlled agent with two pairs that have succeeded, the first of higher priority. -/
def twoPairs : Agent := twoPairsEvents.foldl step (small {})

def nominationMessage (value : UInt32) : Message :=
  { method := .binding, cls := .request, transactionID := noTransaction, raw := []
    attributes := [⟨.username, localUfrag ++ [58] ++ remoteUfrag⟩, ⟨.useCandidate, []⟩,
      ⟨.nomination, be32 value⟩] : Message }.encode (some localPwd) none none

/-- The peer nominates the pair of one of its candidates. -/
def nomination (host : UInt8) (value : UInt32) : PeerRequest :=
  ⟨nominationMessage value, udpAt host 2000, .udp⟩

/-- What a request has to do with the agent apart from its pair. -/
def acceptable (a : Agent) (msg : Message) (value : UInt32) : Bool :=
  a.verifyBindingRequest msg && a.resolveRole msg = some a.mode && hasUseCandidate msg &&
    readNomination msg = some value

theorem nominating_twoPairs (host : UInt8) {value : UInt32} {i : Nat}
    (hmsg : twoPairs.acceptable (nominationMessage value) value = true)
    (hpair : twoPairs.knownPair (udpAt host 2000) .udp = some i) :
    Nominating twoPairs (nomination host value) i value := by
  have hlocal : twoPairs.localDesc.candidates.elems.all (fun c => c.type ≠ .relayed) = true := by
    decide +kernel
  unfold acceptable at hmsg
  simp only [Bool.and_eq_true, decide_eq_true_eq] at hmsg
  obtain ⟨⟨⟨hverified, hrole⟩, huse⟩, hvalue⟩ := hmsg
  refine ⟨?_, hverified, hrole, huse, hvalue, hpair⟩
  rw [List.any_eq_false]
  intro c hc
  have htype := List.all_eq_true.mp hlocal c hc
  simp only [decide_eq_true_eq] at htype
  simp [htype]

theorem twoPairs_pairs : twoPairs.mode = .controlled ∧ twoPairs.selection = some 0 ∧
    (twoPairs.knownPair (udpAt 2 2000) .udp = some 0 ∧ twoPairs.pairState 0 = some .succeeded) ∧
    twoPairs.knownPair (udpAt 3 2000) .udp = some 1 ∧ twoPairs.pairState 1 = some .succeeded := by
  decide +kernel

/-- One of the pairs is nominated with 1 and then the other with 2. -/
theorem renomination_twoPairs {first second : UInt8} {i k : Nat}
    (hfirst : twoPairs.knownPair (udpAt first 2000) .udp = some i ∧
      twoPairs.pairState i = some .succeeded)
    (hsecond : twoPairs.knownPair (udpAt second 2000) .udp = some k ∧
      twoPairs.pairState k = some .succeeded) :
    Renomination twoPairs [nomination first 1, nomination second 2]
      [(nomination first 1, quietEnv 120), (nomination second 2, quietEnv 121)] ∧
    Largest twoPairs [nomination first 1, nomination second 2] (nomination second 2) k 2 := by
  have hone := @nominating_twoPairs first 1 i (by decide +kernel) hfirst.1
  have htwo := @nominating_twoPairs second 2 k (by decide +kernel) hsecond.1
  refine ⟨⟨twoPairs_pairs.1, ?_, ?_, fun r => Iff.rfl⟩, htwo, by simp, ?_⟩
  · intro r hr
    rcases List.mem_pair.mp hr with rfl | rfl
    · exact ⟨i, 1, hone, hfirst.2⟩
    · exact ⟨k, 2, htwo, hsecond.2⟩
  · refine List.pairwise_pair.mpr ?_
    rw [hone.nomination, htwo.nomination]
    decide
  · intro r hr v hv
    rcases List.mem_pair.mp hr with rfl | rfl
    · cases hone.nomination.symm.trans hv
      decide
    · cases htwo.nomination.symm.trans hv
      decide

/-- The pair of the higher priority is nominated last. -/
theorem renomination_selects_higher : twoPairs.Leads 0 ∧
    (((twoPairs.receive [(nomination 3 1, quietEnv 120),
      (nomination 2 2, quietEnv 121)]).updateState
      (quietEnv 130)).selectedPair = some 0 ↔ twoPairs.Leads 0) := by
  obtain ⟨_, hsel, hhigh, hlow⟩ := twoPairs_pairs
  obtain ⟨hall, htop⟩ := renomination_twoPairs hlow hhigh
  exact ⟨selection_leads hsel, renomination_selects hall htop⟩

/-- The pair of the lower priority is nominated last, and is not selected. -/
theorem renomination_without_effect : Runs (fun _ _ => True) twoPairs ∧
    Renomination twoPairs [nomination 2 1, nomination 3 2]
      [(nomination 2 1, quietEnv 120), (nomination 3 2, quietEnv 121)] ∧
    Largest twoPairs [nomination 2 1, nomination 3 2] (nomination 3 2) 1 2 ∧
    ((twoPairs.receive [(nomination 2 1, quietEnv 120), (nomination 3 2, quietEnv 121)]).updateState
      (quietEnv 130)).selectedPair = some 0 := by
  obtain ⟨_, hsel, hhigh, hlow⟩ := twoPairs_pairs
  obtain ⟨hall, htop⟩ := renomination_twoPairs hhigh hlow
  exact ⟨.of_events _ _ _ _ _, hall, htop, hall.selectedPair hsel⟩

end Agent

end Stice.Ice
