import Stice.Ice.Transactions

/-! What makes a pair succeed. A move touches the checks of the pairs in few ways (`Touch`), and
only an accepted response makes one succeed or extends its consent. -/
namespace Stice.Ice
open Lib Net Stun

/-- What a move does to the check of a pair. -/
inductive Touch (env : AgentEnv) : Kind → PairCheck → PairCheck → Prop
  | same (k : Kind) (c : PairCheck) : Touch env k c c
  | fail (k : Kind) (c : PairCheck) (h : k = .failPair ∨ k = .send) :
      Touch env k c { c with state := .failed }
  | pend (c : PairCheck) (h : c.state ≠ .succeeded) : Touch env .pend c { c with state := .pending }
  | freeze (c : PairCheck) (h : c.state = .pending) :
      Touch env .freeze c { c with state := .frozen }
  | nominate (msg : Message) (c : PairCheck) (h : hasUseCandidate msg = true) :
      Touch env .nominate c (Agent.nominate msg c)
  | request (c : PairCheck) : Touch env .request c { c with nominationRequested := true }
  | accept (c : PairCheck) : Touch env .accept c (Agent.accept env c)

namespace Agent

variable {env : AgentEnv} {a b : Agent}

/-- The check of a pair; one that does not exist is like a new one. -/
def checkOf (a : Agent) (i : Nat) : PairCheck := ((a.pairs[i]?).map (·.toPairCheck)).getD {}

theorem checkOf_of_some {i : Nat} {p : CandidatePair} (h : a.pairs[i]? = some p) :
    a.checkOf i = p.toPairCheck := by
  unfold checkOf
  rw [h]
  rfl

theorem checkOf_of_pairs (h : b.pairs = a.pairs) (i : Nat) : b.checkOf i = a.checkOf i := by
  unfold checkOf
  rw [h]

theorem checkOf_modify (a : Agent) (i : Nat) (f : PairCheck → PairCheck) (k : Nat) :
    (a.modifyPair i f).checkOf k = a.checkOf k ∨
      k = i ∧ (a.modifyPair i f).checkOf k = f (a.checkOf k) := by
  unfold checkOf modifyPair
  rw [List.getElem?_modify]
  cases a.pairs[k]? with
  | none => exact .inl rfl
  | some p =>
    by_cases hik : i = k
    · right
      subst hik
      simp
    · left
      simp [hik]

theorem checkOf_append {news : List CandidatePair} (h : b.pairs = a.pairs ++ news)
    (hnew : ∀ p ∈ news, p.toPairCheck = {}) (i : Nat) : b.checkOf i = a.checkOf i := by
  unfold checkOf
  rw [h, List.getElem?_append]
  split
  · rfl
  · rename_i hlen
    rw [List.getElem?_eq_none (Nat.le_of_not_lt hlen)]
    cases hget : news[i - a.pairs.length]? with
    | none => rfl
    | some p => exact hnew p (List.mem_of_getElem? hget)

theorem fillPairs_append (a : Agent) : ∃ news, a.fillPairs.pairs = a.pairs ++ news ∧
    ∀ p ∈ news, p.toPairCheck = {} := by
  refine fill_rule (P := fun pairs => ∃ news, pairs = a.pairs ++ news ∧
    ∀ p ∈ news, p.toPairCheck = {}) ?_ ⟨[], (List.append_nil _).symm, fun _ h => by cases h⟩
  rintro pairs l _ r _ _ _ _ ⟨news, rfl, hnew⟩
  exact ⟨news ++ [a.newPair l r], by rw [List.append_assoc],
    forall_mem_concat hnew rfl⟩

theorem checkOf_mapIdx {f : Nat → CandidatePair → CandidatePair}
    (h : b.pairs = a.pairs.mapIdx f) (i : Nat) : b.checkOf i = a.checkOf i ∨
      ∃ p, a.pairs[i]? = some p ∧ b.checkOf i = (f i p).toPairCheck := by
  unfold checkOf
  rw [h, List.getElem?_mapIdx]
  cases hp : a.pairs[i]? with
  | none => exact .inl rfl
  | some p => exact .inr ⟨p, rfl, rfl⟩

theorem setPairState_touch {k : Kind} (hk : k = .failPair ∨ k = .send) (i : Option Nat) (l : Nat) :
    Touch env k (a.checkOf l) ((a.setPairState i .failed).checkOf l) := by
  cases i with
  | none => exact .same k _
  | some i =>
    rcases checkOf_modify a i (fun c => { c with state := .failed }) l with heq | ⟨_, heq⟩
    · exact heq ▸ .same k _
    · exact heq ▸ .fail k _ hk

theorem checkOf_state {i : Nat} (h : (a.checkOf i).state ≠ .frozen) :
    a.pairState i = some (a.checkOf i).state := by
  unfold checkOf at h ⊢
  unfold pairState
  cases hp : a.pairs[i]? with
  | none =>
    rw [hp] at h
    exact absurd rfl h
  | some p => rfl

theorem Move.touch {k : Kind} (h : Move env a k b) (l : Nat) :
    Touch env k (a.checkOf l) (b.checkOf l) := by
  have hsame : ∀ {k : Kind} {b : Agent}, b.pairs = a.pairs →
      Touch env k (a.checkOf l) (b.checkOf l) := by
    intro k b hpairs
    rw [checkOf_of_pairs hpairs]
    exact .same k _
  cases h with
  | setup h => exact hsame h.pairs
  | gather => exact hsame (@Frame.changeState env a .gathering).pairs
  | connect => exact hsame (Frame.changeState a _).pairs
  | update => exact hsame (Frame.updateState a).pairs
  | fill =>
    obtain ⟨news, hpairs, hnew⟩ := fillPairs_append a
    rw [checkOf_append hpairs hnew]
    exact .same _ _
  | append p r =>
    have happend : ({ a with pairs := a.pairs ++ [a.newPair p r] }.updateOrderedPairs).pairs =
        a.pairs ++ [a.newPair p r] := rfl
    rw [checkOf_append happend (fun q hq => by rw [List.mem_singleton.mp hq]; rfl)]
    exact .same _ _
  | send j he =>
    rcases sendCheck_cases env he with heq | ⟨tid, _, ⟨_, _, _, heq⟩ | heq | heq⟩
    · exact hsame (by rw [heq])
    · exact hsame (by rw [heq]; rfl)
    · exact hsame (by rw [heq]; rfl)
    · rw [heq]
      exact @setPairState_touch env (a.modifyEntry j fun _ => a.sentEntry _ tid) .send
        (.inr rfl) _ l
  | failPair i => exact setPairState_touch (.inl rfl) i l
  | failPairs f =>
    rcases @checkOf_mapIdx a (a.failPairs f) _ rfl l with heq | ⟨p, hp, heq⟩
    · rw [heq]
      exact .same _ _
    · rw [heq, checkOf_of_some hp]
      split
      · exact .fail _ _ (.inl rfl)
      · exact .same _ _
  | pend i h =>
    rcases checkOf_modify a i (fun c => { c with state := .pending }) l with heq | ⟨rfl, heq⟩
    · exact heq ▸ .same _ _
    · refine heq ▸ .pend _ ?_
      intro hs
      refine h ?_
      rw [checkOf_state (by rw [hs]; decide), hs]
  | freeze =>
    unfold freezeOthers
    split
    · exact .same _ _
    · rename_i n _
      let b : Agent := { a with pairs := a.pairs.mapIdx fun i p =>
        if i ≠ n ∧ p.state = .pending then
          ⟨p.toPairEnds, { p.toPairCheck with state := .frozen }⟩
        else p }
      change Touch env .freeze (a.checkOf l) (b.checkOf l)
      rcases @checkOf_mapIdx a b _ rfl l with heq | ⟨p, hp, heq⟩
      · rw [heq]
        exact .same _ _
      · rw [heq, checkOf_of_some hp]
        split
        · rename_i hfreeze
          exact .freeze _ hfreeze.2
        · exact .same _ _
  | accept j i =>
    rw [checkOf_of_pairs (acceptAnswer_answered env a j i).pairs]
    rcases checkOf_modify a i (Agent.accept env) l with heq | ⟨_, heq⟩
    · exact heq ▸ .same _ _
    · exact heq ▸ .accept _
  | nominate i msg huse =>
    rcases checkOf_modify a i (Agent.nominate msg) l with heq | ⟨_, heq⟩
    · exact heq ▸ .same _ _
    · exact heq ▸ .nominate msg _ huse
  | request i =>
    rw [checkOf_of_pairs (askNomination_pairs env a i)]
    rcases checkOf_modify a i (fun c => { c with nominationRequested := true }) l with
      heq | ⟨_, heq⟩
    · exact heq ▸ .same _ _
    · exact heq ▸ .request _
  | _ => exact hsame rfl

/-! ## Success -/

/-- No pair has succeeded or had its consent extended. -/
def Unproven (a b : Agent) : Prop :=
  ∀ i, ((b.checkOf i).state = .succeeded → (a.checkOf i).state = .succeeded) ∧
    (b.checkOf i).consentExpiry = (a.checkOf i).consentExpiry

theorem nominate_state (msg : Message) (c : PairCheck) :
    (Agent.nominate msg c).state = c.state ∧
      (Agent.nominate msg c).consentExpiry = c.consentExpiry := by
  unfold Agent.nominate
  dsimp only
  split
  · split
    · split
      · split <;> exact ⟨rfl, rfl⟩
      · exact ⟨rfl, rfl⟩
    · split <;> exact ⟨rfl, rfl⟩
  · exact ⟨rfl, rfl⟩

theorem touch_unproven {k : Kind} {c d : PairCheck} (h : Touch env k c d) (hk : k ≠ .accept) :
    (d.state = .succeeded → c.state = .succeeded) ∧ d.consentExpiry = c.consentExpiry := by
  cases h with
  | same => exact ⟨id, rfl⟩
  | fail | pend | freeze => exact ⟨(fun h => by cases h), rfl⟩
  | nominate msg =>
    obtain ⟨hstate, hconsent⟩ := nominate_state msg c
    exact ⟨fun h => hstate ▸ h, hconsent⟩
  | request => exact ⟨id, rfl⟩
  | accept => exact absurd rfl hk

theorem Goes.unproven {K : Kind → Bool} (h : Goes env K a b) (hK : K .accept = false) :
    Unproven a b := by
  refine Goes.invariant (P := Unproven a) ?_ h fun _ => ⟨id, rfl⟩
  intro b k c hk hm ha i
  have htouch := touch_unproven (hm.touch i) (by rintro rfl; rw [hK] at hk; cases hk)
  exact ⟨fun hs => (ha i).1 (htouch.1 hs), htouch.2.trans (ha i).2⟩

theorem findIdx?_id {j : Nat} {e : StunEntry} {t : TransactionID}
    (h : a.entries.findIdx? (·.transactionID = t) = some j) (he : a.entries[j]? = some e) :
    e.transactionID = t := by
  obtain ⟨hj, hid, _⟩ := List.findIdx?_eq_some_iff_getElem.mp h
  rw [List.getElem?_eq_getElem hj] at he
  cases he
  simpa using hid

/-- The moves of an event other than the acceptance of an answer. -/
def unaccepting (e : AgentEvent) (k : Kind) : Bool := moves e k && k ≠ .accept

/-- A step accepts no answer, or it takes a success response with the id of the entry of a pair,
and does nothing else. -/
theorem step_accepts (hc : Checks a) (e : AgentEvent) :
    Goes env (unaccepting e) a (a.step (e, env)) ∨ ∃ msg src transport j d i,
      a.inbound e = some (msg, src, transport) ∧ msg.cls = .successResponse ∧
      Matched a src j d ∧ d.transactionID = msg.transactionID ∧ d.pair = some i ∧
      ¬(d.type = .check ∧ a.pairState i = some .failed) ∧
      a.step (e, env) = a.acceptAnswer env j i := by
  by_cases he : isPacket e = true
  · have hmoves : moves e = Kind.received := by cases e <;> first | rfl | cases he
    have hpath {K : Kind → Bool} {b : Agent}
        (hK : ∀ k, K k = true → (k.received && k ≠ .accept) = true)
        (h : Goes env K a b) : Goes env (unaccepting e) a b :=
      h.mono fun k hk => by rw [unaccepting, hmoves]; exact hK k hk
    cases hin : a.inbound e with
    | none =>
      exact .inl (hpath (by decide)
        (Goes.packet_quiet hin he))
    | some m =>
      obtain ⟨msg, src, transport⟩ := m
      have hreceived := @handleStunMessage_received env a msg src transport
      rw [step_inbound hin]
      generalize a.handleStunMessage env msg src transport = b at hreceived
      cases hreceived with
      | ignored => exact .inl (.refl a)
      | request =>
        exact .inl (hpath (by decide)
          (Goes.handleBindingRequest hc msg src transport))
      | served _ _ htype =>
        exact .inl (hpath (by decide)
          (Goes.handleServerReflexiveResponse a msg src _ htype))
      | response hcls hj _ h =>
        cases h with
        | ignored => exact .inl (.refl a)
        | conflict h =>
          exact .inl (hpath (by decide)
            (Goes.switchRole h.entry h.type))
        | refused h =>
          exact .inl (hpath (by decide)
            (Goes.failCheck h.entry h.type))
        | @accepted d i h hne hpair hfailed =>
          have hsuccess : msg.cls = .successResponse := by
            cases hmsg : msg.cls with
            | successResponse => rfl
            | errorResponse => exact absurd hmsg hne
            | request | indication =>
              rw [hmsg] at hcls
              cases hcls
          exact .inr ⟨msg, src, transport, _, d, i, rfl, hsuccess, h, findIdx?_id hj h.entry,
            hpair, hfailed, rfl⟩
  · left
    refine (Goes.step hc e).mono fun k hk => ?_
    rw [unaccepting, hk, Bool.true_and, decide_eq_true_eq]
    rintro rfl
    cases e <;> first | exact he rfl | cases hk

/-- A step proves nothing of a pair, or it takes a success response with the id of the entry of
a pair, and proves something of that one only. -/
theorem step_proves (hc : Checks a) (e : AgentEvent) :
    Unproven a (a.step (e, env)) ∨ ∃ msg src transport j d i,
      a.inbound e = some (msg, src, transport) ∧ msg.cls = .successResponse ∧
      Matched a src j d ∧ d.transactionID = msg.transactionID ∧ d.pair = some i ∧
      ¬(d.type = .check ∧ a.pairState i = some .failed) ∧
      a.step (e, env) = a.acceptAnswer env j i :=
  (step_accepts hc e).imp_left fun h => h.unproven (by rw [unaccepting]; exact Bool.and_false _)

theorem acceptAnswer_unproven (a : Agent) (j : Nat) {i k : Nat} (h : k ≠ i) :
    (a.acceptAnswer env j i).checkOf k = a.checkOf k := by
  rw [checkOf_of_pairs (acceptAnswer_answered env a j i).pairs]
  rcases checkOf_modify a i (accept env) k with heq | ⟨hk, _⟩
  · exact heq
  · exact absurd hk h

/-- A success response carries an id that was drawn, and none that is still unknown outside: one
of an entry whose request no transport has taken. -/
def Answers (a : Agent) (e : AgentEvent × AgentEnv) : Prop :=
  ∀ msg src transport, a.inbound e.1 = some (msg, src, transport) →
    msg.cls = .successResponse → msg.transactionID ≠ noTransaction ∧
      ((∃ d ∈ a.entries, d.transactionID = msg.transactionID) →
        ∃ p m, (p, m) ∈ a.requests ∧ m.transactionID = msg.transactionID)

theorem Runs.traced {ok : Agent → AgentEvent × AgentEnv → Prop} (hok : ∀ a e, ok a e → Draws a e)
    (h : Runs ok a) : Traced a := by
  refine Runs.invariant (P := Traced) ?_ ?_ h
  · rintro a ⟨config, ufrag, pwd, tiebreaker, rfl⟩
    exact ⟨.nil, fun e he => absurd he List.not_mem_nil, fun e he => absurd he List.not_mem_nil⟩
  · intro a e env hstep hc _ ha
    exact ha.step hc e (hok a (e, env) hstep)

/-- In every run in which drawn ids are new and success responses carry ids that were sent, a
pair succeeds or has its consent extended only while a success response is taken whose id a
request for that same pair carried. -/
theorem success_answers_request {e : AgentEvent}
    (h : Runs (fun a e => Draws a e ∧ Answers a e) a) (hstep : Answers a (e, env)) {i : Nat}
    (hproved : (a.checkOf i).state ≠ .succeeded ∧
        ((a.step (e, env)).checkOf i).state = .succeeded ∨
      ((a.step (e, env)).checkOf i).consentExpiry ≠ (a.checkOf i).consentExpiry) :
    ∃ msg src transport, a.inbound e = some (msg, src, transport) ∧
      msg.cls = .successResponse ∧
      ∃ m, (some i, m) ∈ a.requests ∧ m.transactionID = msg.transactionID := by
  have hc := Runs.checks h
  have htraced := Runs.traced (fun _ _ h => h.1) h
  rcases @step_proves env a hc e with hunproven |
    ⟨msg, src, transport, j, d, k, hin, hcls, hmatched, hid, hpair, _, heq⟩
  · obtain ⟨hstate, hconsent⟩ := hunproven i
    rcases hproved with ⟨hnot, hsucceeded⟩ | hextended
    · exact absurd (hstate hsucceeded) hnot
    · exact absurd hconsent hextended
  · have hik : i = k := by
      by_contra hne
      rw [heq, acceptAnswer_unproven a j hne] at hproved
      rcases hproved with ⟨hnot, hsucceeded⟩ | hextended
      · exact hnot hsucceeded
      · exact hextended rfl
    subst hik
    have hmem := List.mem_of_getElem? hmatched.entry
    obtain ⟨hne, hsent⟩ := hstep msg src transport hin hcls
    obtain ⟨p, m, hm, hmid⟩ := hsent ⟨d, hmem, hid⟩
    have howner := htraced.owner d hmem (by rw [hid]; exact hne) p m hm (hmid.trans hid.symm)
    rw [hpair] at howner
    subst howner
    exact ⟨msg, src, transport, hin, hcls, m, hm, hmid⟩

/-! ## Small runs -/

theorem Draws.of_none {e : AgentEvent} (h : ∀ j, env.randomTid j = none) : Draws a (e, env) where
  unused j t ht := by
    rw [h j] at ht
    cases ht
  apart i j t ht _ := by
    rw [h i] at ht
    cases ht

theorem Draws.of_first {e : AgentEvent} {now : Int} {t : TransactionID}
    (h : t ≠ noTransaction ∧ (∀ e ∈ a.entries, e.transactionID ≠ t) ∧
      ∀ r ∈ a.requests, r.2.transactionID ≠ t) : Draws a (e, drawEnv now t) := by
  have hfirst : ∀ j u, (drawEnv now t).randomTid j = some u → j = 0 ∧ t = u := by
    intro j u hu
    change (if j = 0 then some t else none) = some u at hu
    split at hu
    · rename_i hj
      cases hu
      exact ⟨hj, rfl⟩
    · cases hu
  refine ⟨?_, ?_⟩
  · intro j u hu
    obtain ⟨_, rfl⟩ := hfirst j u hu
    exact ⟨h.1, h.2.1, fun p m hm => h.2.2 (p, m) hm⟩
  · intro i j u hi hj
    rw [(hfirst i u hi).1, (hfirst j u hj).1]

theorem Answers.of_none {e : AgentEvent × AgentEnv} (h : a.inbound e.1 = none) : Answers a e := by
  intro msg src transport hin
  rw [h] at hin
  cases hin

/-- A response to a request that was sent. -/
theorem Answers.of_sent {e : AgentEvent × AgentEnv} {t : TransactionID}
    (hid : (a.inbound e.1).map (·.1.transactionID) = some t) (ht : t ≠ noTransaction)
    (hsent : ∃ r ∈ a.requests, r.2.transactionID = t) : Answers a e := by
  intro msg src transport hin _
  rw [hin] at hid
  have hmsg : msg.transactionID = t := Option.some.inj hid
  rw [hmsg]
  obtain ⟨⟨p, m⟩, hm, hmid⟩ := hsent
  exact ⟨ht, fun _ => ⟨p, m, hm, hmid⟩⟩

/-- The agent has sent its first check. -/
def checked : Agent := armed.step (drivePass 100 (oneTid 1))

theorem runs_checked : Runs (fun a e => Draws a e ∧ Answers a e) checked := by
  have hgather : Runs (fun a e => Draws a e ∧ Answers a e) ((small {}).step quietGather) :=
    .next quietGather (.start ⟨{}, localUfrag, localPwd, 7, rfl⟩)
      ⟨⟨.of_none fun _ => rfl, .of_none rfl⟩, rfl⟩
  have harmed : Runs (fun a e => Draws a e ∧ Answers a e) armed :=
    .next quietDescribe hgather ⟨⟨.of_none fun _ => rfl, .of_none rfl⟩, rfl⟩
  have hnew : oneTid 1 ≠ noTransaction ∧ (∀ e ∈ armed.entries, e.transactionID ≠ oneTid 1) ∧
      ∀ r ∈ armed.requests, r.2.transactionID ≠ oneTid 1 := by
    decide +kernel
  exact .next (drivePass 100 (oneTid 1)) harmed ⟨⟨.of_first hnew, .of_none rfl⟩, rfl⟩

theorem success_answers_request_first :
    ((checked.step (peerAnswers 110 (oneTid 1))).checkOf 0).state = .succeeded ∧
    ∃ msg src transport, checked.inbound (peerAnswers 110 (oneTid 1)).1 =
        some (msg, src, transport) ∧ msg.cls = .successResponse ∧
      ∃ m, (some 0, m) ∈ checked.requests ∧ m.transactionID = msg.transactionID := by
  have hid : (checked.inbound (peerAnswers 110 (oneTid 1)).1).map (·.1.transactionID) =
      some (oneTid 1) := by
    decide +kernel
  have hsent : ∃ r ∈ checked.requests, r.2.transactionID = oneTid 1 := by decide +kernel
  have hproved : (checked.checkOf 0).state ≠ .succeeded ∧
      ((checked.step (peerAnswers 110 (oneTid 1))).checkOf 0).state = .succeeded := by
    decide +kernel
  exact ⟨hproved.2, @success_answers_request (peerAnswers 110 (oneTid 1)).2 checked _
    runs_checked (.of_sent hid (by decide) hsent) 0 (.inl hproved)⟩

/-- The check of a pair has been armed, but no request has been sent; then a response with the
all-zero id comes from the address of the peer. -/
theorem success_without_request : Runs (fun _ _ => True) armed ∧ armed.requests = [] ∧
    (armed.checkOf 0).state ≠ .succeeded ∧
    ((armed.step (peerAnswers 3 noTransaction)).checkOf 0).state = .succeeded := by
  have hrun : Runs (fun _ _ => True) armed :=
    .of_events {} localUfrag localPwd 7 [quietGather, quietDescribe]
  exact ⟨hrun, by decide +kernel, by decide +kernel, by decide +kernel⟩

/-! ## Integrity of responses -/

/-- MESSAGE-INTEGRITY is there and made with the remote password. -/
def verifiesResponse (a : Agent) (msg : Message) : Bool :=
  msg.checkIntegrity a.remoteDesc.icePwd false

/-- A response that is acted on for a check: it has the id of an entry that is no server's and
comes from the address of the check, and it is no 487 for another role and no success for a
pair that has failed. -/
def takes (a : Agent) (msg : Message) (src : AddrRecord) : Bool :=
  ((a.entries.findIdx? (·.transactionID = msg.transactionID)).bind (a.entries[·]?)).any fun e =>
    e.type ≠ .server && e.record.any (·.isEqual src true) &&
      if msg.cls = .errorResponse then
        ((readErrorCode msg).map (·.1)).getD 0 ≠ 487 || e.mode = a.mode
      else e.pair.any fun i => !(e.type = .check && a.pairState i = some .failed)

/-- The state or the consent of a pair, the nominated or the selected pair or the role differs. -/
def Changed (a b : Agent) : Prop :=
  (∃ i, (b.checkOf i).state ≠ (a.checkOf i).state ∨
    (b.checkOf i).consentExpiry ≠ (a.checkOf i).consentExpiry) ∨
  b.nominatedPair ≠ a.nominatedPair ∨ b.selectedPair ≠ a.selectedPair ∨ b.mode ≠ a.mode

theorem not_changed (a : Agent) : ¬Changed a a := by
  rintro (⟨i, h | h⟩ | h | h | h)
  · exact h rfl
  · exact h rfl
  · exact h rfl
  · exact h rfl
  · exact h rfl

/-- The response is to a check: the first entry with its id is no server's. -/
def ToCheck (a : Agent) (msg : Message) : Prop :=
  isResponseType msg.cls = true ∧ ∀ j e,
    a.entries.findIdx? (·.transactionID = msg.transactionID) = some j →
    a.entries[j]? = some e → e.type ≠ .server

theorem Responded.takes {msg : Message} {src : AddrRecord} {j : Nat}
    (h : Responded env a msg src j b)
    (hj : a.entries.findIdx? (·.transactionID = msg.transactionID) = some j) :
    b = a ∨ a.takes msg src = true := by
  have htakes : ∀ e, Matched a src j e → (if msg.cls = .errorResponse then
      decide (((readErrorCode msg).map (·.1)).getD 0 ≠ 487) || decide (e.mode = a.mode)
      else e.pair.any fun i => !(decide (e.type = .check) &&
        decide (a.pairState i = some .failed))) = true → a.takes msg src = true := by
    intro e hm hrest
    unfold Agent.takes
    rw [hj, Option.bind_some, hm.entry]
    simp only [Option.any_some, hm.record, hm.type, hrest, ne_eq, not_false_eq_true, decide_true,
      Bool.and_self]
  cases h with
  | ignored => exact .inl rfl
  | @conflict e hm hcls hcode hmode =>
    refine .inr (htakes e hm ?_)
    rw [if_pos hcls, hmode]
    simp
  | @refused e hm hcls hcode =>
    refine .inr (htakes e hm ?_)
    rw [if_pos hcls]
    simp [hcode]
  | @accepted e i hm hcls hpair hfailed =>
    refine .inr (htakes e hm ?_)
    rw [if_neg hcls, hpair]
    simpa using not_and_or.mp hfailed

/-- If every response that is acted on for a check is signed with the remote password, then a
response to a check changes a pair, the nomination, the selection or the role only if it is. -/
theorem response_changes_signed {e : AgentEvent} {msg : Message} {src : AddrRecord}
    {transport : CandidateTransport} (hin : a.inbound e = some (msg, src, transport))
    (hcheck : ToCheck a msg)
    (hsigned : a.takes msg src = true → a.verifiesResponse msg = true)
    (hchanged : Changed a (a.step (e, env))) : a.verifiesResponse msg = true := by
  refine hsigned ?_
  have hreceived := @handleStunMessage_received env a msg src transport
  rw [step_inbound hin] at hchanged
  generalize a.handleStunMessage env msg src transport = b at hreceived hchanged
  cases hreceived with
  | ignored => exact absurd hchanged (not_changed a)
  | request hcls =>
    have hresponse := hcheck.1
    rw [hcls] at hresponse
    cases hresponse
  | served _ hj htype =>
    obtain ⟨d, hd, hserver⟩ := exists_of_any htype
    exact absurd (by simpa using hserver) (hcheck.2 _ d hj hd)
  | response _ hj _ h =>
    rcases h.takes hj with heq | htakes
    · rw [heq] at hchanged
      exact absurd hchanged (not_changed a)
    · exact htakes

/-- The first check of the pair is answered with a signed response. -/
theorem response_changes_signed_first :
    Changed checked (checked.step (peerAnswers 110 (oneTid 1))) ∧
    (checked.inbound (peerAnswers 110 (oneTid 1)).1).any
      (fun m => checked.verifiesResponse m.1) = true := by
  have hsigned : (checked.inbound (peerAnswers 110 (oneTid 1)).1).any
      (fun m => checked.verifiesResponse m.1 && isResponseType m.1.cls) = true := by
    decide +kernel
  have hchecks : ∀ e ∈ checked.entries, e.type ≠ .server := by decide +kernel
  have hproved : ((checked.step (peerAnswers 110 (oneTid 1))).checkOf 0).state ≠
      (checked.checkOf 0).state := by
    decide +kernel
  have hchanged : Changed checked (checked.step (peerAnswers 110 (oneTid 1))) :=
    .inl ⟨0, .inl hproved⟩
  obtain ⟨⟨msg, src, transport⟩, hin, hmsg⟩ := exists_of_any hsigned
  simp only [Bool.and_eq_true] at hmsg
  refine ⟨hchanged, ?_⟩
  rw [hin]
  exact @response_changes_signed (peerAnswers 110 (oneTid 1)).2 checked _ msg src transport hin
    ⟨hmsg.2, fun j e _ he => hchecks e (List.mem_of_getElem? he)⟩ (fun _ => hmsg.1) hchanged

/-- The same check is answered without MESSAGE-INTEGRITY. -/
def forgedAnswer : AgentEvent × AgentEnv :=
  (.udpPacket (peerResponse none (oneTid 1)) (udpAt 2 2000), quietEnv 110)

theorem unsigned_response_changes : Runs (fun _ _ => True) checked ∧
    (checked.inbound forgedAnswer.1).all (fun m => !checked.verifiesResponse m.1) = true ∧
    Changed checked (checked.step forgedAnswer) := by
  have hrun : Runs (fun _ _ => True) checked :=
    .of_events {} localUfrag localPwd 7 [quietGather, quietDescribe, drivePass 100 (oneTid 1)]
  have hproved : ((checked.step forgedAnswer).checkOf 0).state ≠ (checked.checkOf 0).state := by
    decide +kernel
  exact ⟨hrun, by decide +kernel, .inl ⟨0, .inl hproved⟩⟩

end Agent

end Stice.Ice
