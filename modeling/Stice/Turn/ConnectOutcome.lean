import Stice.Turn.InFlight

/-! The outcome of a Connect request. A transaction that ends is reported once, as a success
or as a failure, where the response to it says which; one that is answered by a success
without CONNECTION-ID, or given up by the timer, is not reported at all. -/
namespace Stice.Turn.Client
open Std Net Stun Lib

def connectPeer : TxKind → Option AddrRecord
  | .connect peer => some peer
  | _ => none

/-- The peers of the Connect transactions of `c` that `d` does not have. -/
def ended (c d : Client) : List AddrRecord :=
  c.pending.toList.filterMap fun x =>
    if d.pending[x.1]?.map PendingTx.request = some x.2.request then none
    else connectPeer x.2.kind

section
variable {env : ClientEnv} {c d e : Client} {peer : AddrRecord} {b : PeerBinding}

/-! ## What does not end a Connect transaction -/

/-- No outcome is reported, and no Connect transaction ends unless the whole allocation
fails or its id is drawn again. -/
structure Hushed (env : ClientEnv) (c d : Client) : Prop where
  drawn : c.drawn ≤ d.drawn
  failed : c.failedEmitted = true → d.failedEmitted = true
  same : outcomes d.out = outcomes c.out
  keeps : d.failedEmitted = c.failedEmitted → ∀ (k : Bytes) (tx : PendingTx),
    c.pending[k]? = some tx → (connectPeer tx.kind).isSome = true →
    (∀ n, c.drawn ≤ n → n < d.drawn → (env.tid n).1 ≠ k) →
    ∃ tx' : PendingTx, d.pending[k]? = some tx' ∧ tx'.kind = tx.kind ∧ tx'.request = tx.request

theorem Hushed.of_eq (hpending : d.pending = c.pending) (hout : outcomes d.out = outcomes c.out)
    (hdrawn : c.drawn ≤ d.drawn) (hfailed : d.failedEmitted = c.failedEmitted) :
    Hushed env c d := by
  refine ⟨hdrawn, fun h => hfailed.trans h, hout, fun _ k tx htx _ _ => ?_⟩
  rw [hpending]
  exact ⟨tx, htx, rfl, rfl⟩

theorem Hushed.refl (c : Client) : Hushed env c c := .of_eq rfl rfl (Nat.le_refl _) rfl

theorem Hushed.trans (h : Hushed env c d) (h' : Hushed env d e) : Hushed env c e := by
  refine ⟨Nat.le_trans h.drawn h'.drawn, fun hf => h'.failed (h.failed hf), h'.same.trans h.same,
    fun hf k tx htx hconnect hids => ?_⟩
  -- a failure in between would show at the end
  have hmid : d.failedEmitted = c.failedEmitted := by
    cases hc : c.failedEmitted with
    | true => exact h.failed hc
    | false =>
      cases hd : d.failedEmitted with
      | false => rfl
      | true => exact absurd ((h'.failed hd).symm.trans (hf.trans hc)) (by decide)
  obtain ⟨tx₁, htx₁, hkind₁, hrequest₁⟩ := h.keeps hmid k tx htx hconnect fun n hle hlt =>
    hids n hle (Nat.lt_of_lt_of_le hlt h'.drawn)
  rw [← hkind₁] at hconnect
  obtain ⟨tx₂, htx₂, hkind₂, hrequest₂⟩ := h'.keeps (hf.trans hmid.symm) k tx₁ htx₁ hconnect
    fun n hle hlt => hids n (Nat.le_trans h.drawn hle) hlt
  exact ⟨tx₂, htx₂, hkind₂.trans hkind₁, hrequest₂.trans hrequest₁⟩

theorem Hushed.startTx (h : Hushed env c d) (kind : TxKind) (build : TransactionID → Message) :
    Hushed env c (startTx env d kind build) := by
  refine h.trans ?_
  rw [startTx_eq]
  refine ⟨Nat.le_succ _, fun hf => hf, ?_, fun _ k tx htx _ hids => ⟨tx, ?_, rfl, rfl⟩⟩
  · dsimp only
    split
    · exact outcomes_snoc d.out rfl
    · rw [List.append_nil]
  · have hne : (env.tid d.drawn).1 ≠ k := hids _ (Nat.le_refl _) (Nat.lt_succ_self _)
    dsimp only
    rw [getElem?_insert_of_ne hne.symm]
    exact htx

theorem Hushed.erase {key : Bytes} {tx : PendingTx} (h : c.pending[key]? = some tx)
    (hkind : connectPeer tx.kind = none) :
    Hushed env c { c with pending := c.pending.erase key } := by
  refine ⟨Nat.le_refl _, fun hf => hf, rfl, fun _ k tx' htx' hconnect _ => ⟨tx', ?_, rfl, rfl⟩⟩
  have hne : k ≠ key := by
    rintro rfl
    cases h.symm.trans htx'
    rw [hkind] at hconnect
    cases hconnect
  dsimp only
  rw [getElem?_erase_of_ne hne]
  exact htx'

theorem Hushed.failAllocation (c : Client) (code : Nat) (reason : Bytes) :
    Hushed env c (c.failAllocation code reason) := by
  unfold Client.failAllocation
  split
  · exact .refl c
  · rename_i hf
    refine ⟨Nat.le_refl _, fun _ => rfl, outcomes_snoc c.out rfl, fun heq => ?_⟩
    exact absurd heq.symm hf

theorem passive_hushed (env : ClientEnv) : Passive env (Hushed env) where
  trans := .trans
  same hpending _ _ _ hout hfailed hdrawn := .of_eq hpending hout hdrawn hfailed
  fail := .failAllocation
  bind c peer := by
    unfold Client.withBinding
    split
    · exact .refl c
    · exact .of_eq rfl rfl (Nat.le_refl _) rfl
  flags _ _ _ := .of_eq rfl rfl (Nat.le_refl _) rfl
  start c kind build _ := .startTx (.refl c) kind build

/-! ### The timer -/

/-- No Connect transaction is due with its retransmissions used up. -/
def NotOverdue (env : ClientEnv) (c : Client) : Prop :=
  ∀ x ∈ c.pending.toList, (connectPeer x.2.kind).isSome = true → x.2.nextRetransmitAt ≤ env.now →
    x.2.retries < turnMaxRtxCount

theorem notOverdue_iff : NotOverdue env c ↔ ∀ (k : Bytes) (tx : PendingTx),
    c.pending[k]? = some tx → (connectPeer tx.kind).isSome = true →
    tx.nextRetransmitAt ≤ env.now → tx.retries < turnMaxRtxCount := by
  unfold NotOverdue
  constructor
  · intro h k tx htx
    exact h (k, tx) (TreeMap.mem_toList_iff_getElem?_eq_some.mpr htx)
  · rintro h ⟨k, tx⟩ hmem
    exact h k tx (TreeMap.mem_toList_iff_getElem?_eq_some.mp hmem)

theorem NotOverdue.tickTx (h : NotOverdue env c) {key : Bytes}
    (hd : c.tickTx env key = (false, d)) : NotOverdue env d ∧ Hushed env c d := by
  rw [notOverdue_iff] at h
  obtain ⟨heq, -⟩ | ⟨tx, htx, hdue, ⟨hretries, heq⟩ | ⟨-, heq⟩⟩ := tickTx_cases env c key
  · cases hd.symm.trans heq
    exact ⟨notOverdue_iff.mpr h, .refl c⟩
  · have hkind : connectPeer tx.kind = none := by
      cases hconnect : connectPeer tx.kind with
      | none => rfl
      | some peer =>
        exact absurd (h key tx htx (by rw [hconnect]; rfl) hdue) (Nat.not_lt.mpr hretries)
    have htimeout := (passive_hushed env).timeoutTx { c with pending := c.pending.erase key }
      tx.kind
    rw [← heq, hd] at htimeout
    have hpending : d.pending = c.pending.erase key := by
      have heq := hd.symm.trans heq
      cases hk : tx.kind <;> rw [hk] at heq <;> cases heq <;> rfl
    refine ⟨notOverdue_iff.mpr fun k tx' htx' => ?_, (Hushed.erase htx hkind).trans htimeout⟩
    rw [hpending] at htx'
    exact h k tx' (getElem?_erase_some htx').2
  · cases hd.symm.trans heq
    constructor
    · refine notOverdue_iff.mpr fun k tx' htx' hconnect hdue' => ?_
      obtain ⟨rfl, rfl⟩ | ⟨-, htx'⟩ := getElem?_insert_some htx'
      · have hpos := rtxInterval_pos (tx.retries + 1)
        simp only [advance] at hdue'
        omega
      · exact h k tx' htx' hconnect hdue'
    · refine ⟨Nat.le_refl _, fun hf => hf, ?_, fun _ k tx' htx' _ _ => ?_⟩
      · unfold resent
        dsimp only
        split
        · exact outcomes_snoc c.out rfl
        · rw [List.append_nil]
      · by_cases hk : k = key
        · subst hk
          cases htx.symm.trans htx'
          exact ⟨advance env tx, TreeMap.getElem?_insert_self, rfl, rfl⟩
        · refine ⟨tx', ?_, rfl, rfl⟩
          rw [getElem?_insert_of_ne hk]
          exact htx'

theorem Hushed.timeout_early {key : Bytes} (hd : c.tickTx env key = (true, d)) :
    Hushed env c d := by
  obtain ⟨heq, -⟩ | ⟨tx, htx, hdue, ⟨-, heq⟩ | ⟨-, heq⟩⟩ := tickTx_cases env c key
  · cases hd.symm.trans heq
  · have hkind : connectPeer tx.kind = none := by
      have heq := hd.symm.trans heq
      cases hk : tx.kind with
      | connect peer => rw [hk] at heq; cases heq
      | _ => rfl
    have htimeout := (passive_hushed env).timeoutTx { c with pending := c.pending.erase key }
      tx.kind
    rw [← heq, hd] at htimeout
    exact (Hushed.erase htx hkind).trans htimeout
  · cases hd.symm.trans heq

theorem Hushed.tickPending (h : NotOverdue env c) (keys : List Bytes) :
    Hushed env c (c.tickPending env keys).2 := by
  induction keys generalizing c with
  | nil => exact .refl c
  | cons key rest ih =>
    unfold Client.tickPending
    split
    · rename_i d hd
      exact .timeout_early hd
    · rename_i d hd
      obtain ⟨hnext, hstep⟩ := h.tickTx hd
      exact hstep.trans (ih hnext)

/-- A call other than the response to a Connect request. -/
theorem Hushed.call {e : Call} (hresponse : ∀ m tx, c.responseOf e = some (m, tx) →
      connectPeer tx.kind = none) (htick : e = .tick → NotOverdue env c) :
    Hushed env c (c.call env e) := by
  have hR := passive_hushed env
  refine hR.call (fun m tx hm => ?_) fun he => ?_
  · have htx := responseOf_pending hm
    have hkind := hresponse m tx hm
    refine hR.handleStunResponse htx (.erase htx hkind)
      (fun _ _ _ _ => .of_eq rfl rfl (Nat.le_refl _) rfl)
      (fun _ _ _ _ => .of_eq rfl rfl (Nat.le_refl _) rfl)
      (fun _ _ _ _ => .of_eq rfl rfl (Nat.le_refl _) rfl)
      (fun _ _ _ _ _ _ => .of_eq rfl rfl (Nat.le_refl _) rfl) fun peer hconnect => ?_
    rw [hconnect] at hkind
    cases hkind
  · exact hR.tick c (.tickPending (htick he) _) fun _ => .of_eq rfl rfl (Nat.le_refl _) rfl

/-! ## The transactions that end -/

theorem Hushed.ended_eq_nil (h : Hushed env c d) (hf : d.failedEmitted = c.failedEmitted)
    (hids : ∀ n, c.drawn ≤ n → n < d.drawn → c.pending[(env.tid n).1]?.isNone) :
    ended c d = [] := by
  refine List.filterMap_eq_nil_iff.mpr ?_
  rintro ⟨k, tx⟩ hmem
  have htx := TreeMap.mem_toList_iff_getElem?_eq_some.mp hmem
  cases hconnect : connectPeer tx.kind with
  | none =>
    dsimp only
    split
    · rfl
    · rfl
  | some peer =>
    obtain ⟨tx', htx', -, hrequest⟩ := h.keeps hf k tx htx (by rw [hconnect]; rfl)
      fun n hle hlt => by
      rintro rfl
      have hnone := hids n hle hlt
      rw [htx] at hnone
      cases hnone
    dsimp only
    rw [htx', Option.map_some, hrequest, if_pos rfl]

theorem filterMap_eq_singleton {α β : Type} {f : α → Option β} {l : List α} {x : α} {y : β}
    (hn : l.Nodup) (hx : x ∈ l) (hy : f x = some y) (hother : ∀ z ∈ l, z ≠ x → f z = none) :
    l.filterMap f = [y] := by
  obtain ⟨as, bs, rfl⟩ := List.append_of_mem hx
  obtain ⟨-, hbs, has⟩ := List.nodup_append.mp hn
  have hleft : as.filterMap f = [] := List.filterMap_eq_nil_iff.mpr fun z hz =>
    hother z (List.mem_append_left _ hz) (has z hz x List.mem_cons_self)
  have hright : bs.filterMap f = [] := List.filterMap_eq_nil_iff.mpr fun z hz =>
    hother z (List.mem_append_right _ (List.mem_cons_of_mem x hz)) fun heq =>
      (List.nodup_cons.mp hbs).1 (heq ▸ hz)
  rw [List.filterMap_append, hleft, List.filterMap_cons_some hy, hright, List.nil_append]

/-- The transaction that is erased is the one that ends. -/
theorem ended_erase {key : Bytes} {tx : PendingTx} (htx : c.pending[key]? = some tx)
    (hkind : connectPeer tx.kind = some peer) (hd : d.pending = c.pending.erase key) :
    ended c d = [peer] := by
  refine filterMap_eq_singleton (x := (key, tx)) ?_ ?_ ?_ ?_
  · exact nodup_toList c.pending
  · exact TreeMap.mem_toList_iff_getElem?_eq_some.mpr htx
  · dsimp only
    rw [hd, TreeMap.getElem?_erase_self, hkind]
    rfl
  · rintro ⟨k, tx'⟩ hmem hne
    have htx' := TreeMap.mem_toList_iff_getElem?_eq_some.mp hmem
    have hk : k ≠ key := by
      rintro rfl
      cases htx.symm.trans htx'
      exact hne rfl
    dsimp only
    rw [hd, getElem?_erase_of_ne hk, htx', Option.map_some, if_pos rfl]

/-! ## Runs -/

/-- The ids of a call are not in use; the success of a Connect request has a CONNECTION-ID,
and the timer does not find one whose retransmissions are used up. -/
structure Answered (env : ClientEnv) (c : Client) (e : Call) : Prop where
  ids : DistinctIds env c e
  response : ∀ m tx, c.responseOf e = some (m, tx) → (connectPeer tx.kind).isSome = true →
    m.cls = .successResponse → (readConnectionId m).isSome = true
  tick : e = .tick → NotOverdue env c

theorem connectPeer_eq {kind : TxKind} (h : connectPeer kind = some peer) :
    kind = .connect peer := by
  cases kind with
  | connect _ => cases h; rfl
  | _ => cases h

/-- The response to a Connect request ends it and is reported, for its peer. -/
theorem outcome_of_response {e : Call} {m : Message} {tx : PendingTx}
    (hm : c.responseOf e = some (m, tx)) (hkind : connectPeer tx.kind = some peer)
    (hid : m.cls = .successResponse → (readConnectionId m).isSome = true) :
    ∃ x, outcomeOf x = some peer ∧ c.call env e =
      { c with pending := c.pending.erase m.transactionID.1, out := c.out ++ [x] } := by
  obtain ⟨data, -, -, -, hcls, htx⟩ := responseOf_some hm
  rw [call_of_responseOf env hm]
  simp only [handleStunResponse, htx, connectPeer_eq hkind, handleConnectResponse]
  obtain hcls | hcls := hcls
  · obtain ⟨connId, hconn⟩ := Option.isSome_iff_exists.mp (hid hcls)
    refine ⟨.onConnectSuccess connId peer, rfl, ?_⟩
    simp [hcls, hconn, effect]
  · refine ⟨.onConnectFailed (errorOf m).1 (errorOf m).2 peer, rfl, ?_⟩
    simp [hcls, effect]

end

/-- A client, and the peers of the Connect transactions that have ended other than with the
whole allocation. -/
structure Watch where
  client : Client
  left : List AddrRecord

def Watch.step (s : Watch) (i : ClientEnv × Call) : Watch :=
  let d := s.client.step i
  ⟨d, if d.failedEmitted = s.client.failedEmitted then s.left ++ ended s.client d else s.left⟩

theorem Watch.step_eq (s : Watch) (env : ClientEnv) (e : Call) :
    s.step (env, e) = ⟨s.client.call env e,
      if (s.client.call env e).failedEmitted = s.client.failedEmitted
      then s.left ++ ended s.client (s.client.call env e) else s.left⟩ := rfl

def Watch.Fresh (s : Watch) : Prop := Client.Fresh s.client ∧ s.left = []

/-- Every Connect transaction that ends has one outcome, and there is no outcome without. -/
theorem connect_has_outcome (s : Watch)
    (h : Reach Watch.Fresh (Guarded (fun s i => Answered i.1 s.client i.2) Watch.step) s) :
    outcomes s.client.out = s.left := by
  induction h with
  | start h =>
    obtain ⟨⟨cfg, hasSend, hc⟩, hleft⟩ := h
    rw [hc, hleft]
    rfl
  | @next s t i _ hstep ih =>
    obtain ⟨hok, rfl⟩ := hstep
    obtain ⟨env, e⟩ := i
    have hids : ∀ n, s.client.drawn ≤ n → n < (s.client.call env e).drawn →
        s.client.pending[(env.tid n).1]?.isNone := fun n hle hlt => (hok.ids n hlt hle).1
    by_cases hconnect : ∃ m tx peer, s.client.responseOf e = some (m, tx) ∧
        connectPeer tx.kind = some peer
    · obtain ⟨m, tx, peer, hm, hkind⟩ := hconnect
      obtain ⟨x, hx, heq⟩ := @outcome_of_response env _ _ e m tx hm hkind
        (hok.response m tx hm (by rw [hkind]; rfl))
      have hended : ended s.client (s.client.call env e) = [peer] :=
        ended_erase (responseOf_pending hm) hkind (by rw [heq])
      have hfailed : (s.client.call env e).failedEmitted = s.client.failedEmitted := by rw [heq]
      rw [Watch.step_eq]
      dsimp only
      rw [if_pos hfailed, hended, heq, ← ih]
      simp [outcomes, hx]
    · have hhushed : Hushed env s.client (s.client.call env e) := by
        refine .call (fun m tx hm => ?_) hok.tick
        cases hkind : connectPeer tx.kind with
        | none => rfl
        | some peer => exact absurd ⟨m, tx, peer, hm, hkind⟩ hconnect
      have hout := hhushed.same.trans ih
      rw [Watch.step_eq]
      dsimp only
      split
      · rename_i hf
        rw [hhushed.ended_eq_nil hf hids, List.append_nil]
        exact hout
      · exact hout

/-- A Connect request to a peer, after an allocation. -/
def connecting : List (ClientEnv × Call) := allocation ++ [(clientEnv 0, .sendConnect peerA)]

/-- The success of the Connect request, with these attributes. -/
def connectReply (attrs : Bytes) : ClientEnv × Call :=
  (clientEnv 0, .handleInbound (some (reply .connect .successResponse (numberedTid 1) attrs)))

/-- A check that implies `Answered`, for calls that are not ticks. -/
def answersConnect (s : Watch) (i : ClientEnv × Call) : Bool :=
  decide (DistinctIds i.1 s.client i.2) &&
    ((s.client.responseOf i.2).all fun p =>
      (connectPeer p.2.kind).isNone || (readConnectionId p.1).isSome) &&
    match i.2 with
    | .tick => false
    | _ => true

theorem answered_of_answersConnect {s : Watch} {i : ClientEnv × Call}
    (h : answersConnect s i = true) :
    Answered i.1 s.client i.2 := by
  simp only [answersConnect, Bool.and_eq_true, decide_eq_true_eq] at h
  obtain ⟨⟨hids, hresponse⟩, htick⟩ := h
  refine ⟨hids, fun m tx hm hconnect _ => ?_, fun he => ?_⟩
  · rw [hm] at hresponse
    simpa [Option.isSome_iff_ne_none.mp hconnect] using hresponse
  · rw [he] at htick
    cases htick

theorem connect_has_outcome_success :
    ∃ s, checkedRun answersConnect Watch.step ⟨smallClient, []⟩
        (connecting ++ [connectReply (appendAttr [] .connectionId [0, 0, 0, 7])]) = some s ∧
      s.left = [peerA] ∧ outcomes s.client.out = s.left := by
  have hrun : (checkedRun answersConnect Watch.step ⟨smallClient, []⟩
      (connecting ++ [connectReply (appendAttr [] .connectionId [0, 0, 0, 7])])).map
        Watch.left = some [peerA] := by
    decide +kernel
  obtain ⟨s, hs, hleft⟩ := Option.map_eq_some_iff.mp hrun
  have hreach := Reach.of_checkedRun Watch.Fresh (fun _ _ => answered_of_answersConnect)
    (.start ⟨⟨_, _, rfl⟩, rfl⟩) hs
  exact ⟨s, hs, hleft, connect_has_outcome s hreach⟩

/-- Eight times the timer, every ten seconds. -/
def ticks : List (ClientEnv × Call) :=
  [1, 2, 3, 4, 5, 6, 7, 8].map fun n => (clientEnv (10000 * n), .tick)

def afterConnect (rest : List (ClientEnv × Call)) : Watch :=
  (connecting ++ rest).foldl Watch.step ⟨smallClient, []⟩

/-- A success without CONNECTION-ID, and retransmissions without an answer: the transaction
ends, the allocation stays, and nothing is reported. -/
theorem connect_without_outcome :
    ((afterConnect [connectReply []]).client.state = .allocated ∧
      (afterConnect [connectReply []]).left = [peerA] ∧
      outcomes (afterConnect [connectReply []]).client.out = []) ∧
    ((afterConnect ticks).client.state = .allocated ∧ (afterConnect ticks).left = [peerA] ∧
      outcomes (afterConnect ticks).client.out = []) := by
  constructor
  · decide +kernel
  · decide +kernel

end Stice.Turn.Client
