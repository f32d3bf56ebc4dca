import Stice.Lib.Retransmit
import Stice.Turn.Paths

/-! Retransmission of requests by the TURN client: how often, when, and for how long. The
table of transactions follows a policy, and a ledger tells for every request in the log
to which transaction it belongs, also where transaction ids collide. -/
namespace Stice.Turn.Client
open Std Net Stun Lib

def policy (c : Client) : Policy Message where
  gap := rtxInterval
  limit := turnMaxRtxCount
  sends := c.hasSend
  repeats m := c.cfg.transport = .udp && !m.raw.isEmpty
  gap_pos := rtxInterval_pos

def timed (tx : PendingTx) : Timed Message := ⟨tx.request, tx.retries, tx.nextRetransmitAt⟩

def table (c : Client) (k : Bytes) : Option (Timed Message) := c.pending[k]?.map timed

def eventOf : Action → TimerEvent Bytes Message
  | .start key tx => .start key tx.request
  | .resend key _ => .resend key
  | .finish key => .close key
  | .abort => .closeAll
  | .data _ | .quiet => .idle

def request? : Effect → Option Message
  | .send m => if m.cls = .request then some m else none
  | _ => none

/-- The requests handed to the transport. -/
def requests (c : Client) : List Message := c.out.filterMap request?

def isTick : Call → Bool
  | .tick => true
  | _ => false

/-- A run of the client with its ledger. A tick is a round of the timer. -/
inductive Recorded : Client → Ledger Bytes Message → Prop
  | init {c : Client} (h : Fresh c) : Recorded c .empty
  | call {c : Client} {L : Ledger Bytes Message} {env : ClientEnv} {e : Call} {as : List Action}
      (h : Recorded c L) (hpath : Path (Move env) c as (c.call env e))
      (htraffic : as.filterMap Action.traffic? = c.trafficBy env e) :
      Recorded (c.call env e)
        (as.foldl (fun L a => L.record c.policy env.now (eventOf a))
          (if isTick e then L.round env.now else L))

section
variable {env : ClientEnv} {c d : Client} {a : Action}

/-! ## One step -/

theorem encodeRequest_cls (c : Client) (m : Message) : (c.encodeRequest m).cls = m.cls := by
  unfold encodeRequest
  cases c.creds with
  | none => rfl
  | some k => dsimp only; split <;> rfl

theorem Built.cls {m : Message} (h : Built m) : m.cls = .request := by
  cases h <;> rfl

/-- Every transaction is for a request. -/
def AllRequests (c : Client) : Prop :=
  ∀ (k : Bytes) (tx : PendingTx), c.pending[k]? = some tx → tx.request.cls = .request

theorem table_erase (c : Client) (key k : Bytes) :
    (c.pending.erase key)[k]?.map timed = if k = key then none else c.table k := by
  split
  · rename_i h
    rw [h, TreeMap.getElem?_erase_self]
    rfl
  · rename_i h
    rw [getElem?_erase_of_ne h]
    rfl

theorem table_insert (c : Client) (key k : Bytes) (tx : PendingTx) :
    (c.pending.insert key tx)[k]?.map timed = if k = key then some (timed tx) else c.table k := by
  split
  · rename_i h
    rw [h, TreeMap.getElem?_insert_self]
    rfl
  · rename_i h
    rw [getElem?_insert_of_ne h]
    rfl

theorem filterMap_quiet {e : Effect} (h : isSent e = false) : [e].filterMap request? = [] := by
  cases e with
  | send m => cases h
  | sendFrame frame => cases h
  | _ => rfl

theorem arm_out (env : ClientEnv) (c : Client) (kind : TxKind) : (c.arm env kind).out = c.out := by
  cases kind <;> rfl

theorem arm_hasSend (env : ClientEnv) (c : Client) (kind : TxKind) :
    (c.arm env kind).hasSend = c.hasSend := by
  cases kind <;> rfl

theorem arm_cfg (env : ClientEnv) (c : Client) (kind : TxKind) : (c.arm env kind).cfg = c.cfg := by
  cases kind <;> rfl

/-- A step of the client is a step of the table, and sends what the table sends. -/
structure Follows (env : ClientEnv) (c : Client) (ev : TimerEvent Bytes Message) (d : Client) :
    Prop where
  step : c.policy.Step env.now c.table ev d.table
  sent : d.requests = c.requests ++ c.policy.sentBy c.table ev
  cfg : d.cfg = c.cfg
  hasSend : d.hasSend = c.hasSend
  requests : AllRequests d

/-- A step that touches neither the table nor the requests. -/
theorem Follows.idle (hc : AllRequests c) (hpending : d.pending = c.pending)
    (hout : d.requests = c.requests) (hcfg : d.cfg = c.cfg) (hsend : d.hasSend = c.hasSend) :
    Follows env c .idle d where
  step := .idle fun k => by rw [table, hpending]; rfl
  sent := by rw [hout]; exact (List.append_nil _).symm
  cfg := hcfg
  hasSend := hsend
  requests := fun k tx htx => hc k tx (hpending ▸ htx)

theorem requests_append (later : List Effect) (h : d.out = c.out ++ later) :
    d.requests = c.requests ++ later.filterMap request? := by
  rw [Client.requests, h, List.filterMap_append]
  rfl

theorem Follows.start (hc : AllRequests c) (kind : TxKind) {build : TransactionID → Message}
    (hbuilt : ∀ tid, Built (build tid)) :
    Follows env c (.start (env.tid c.drawn).1 (txRequest env (c.arm env kind) build))
      (startTx env (c.arm env kind) kind build) := by
  have hcls : (txRequest env (c.arm env kind) build).cls = .request := by
    rw [txRequest, encodeRequest_cls]
    exact (hbuilt _).cls
  have hkey : (c.arm env kind).drawn = c.drawn := arm_drawn env c kind
  rw [startTx_eq, hkey]
  refine ⟨.start fun k => ?_, ?_, arm_cfg env c kind, arm_hasSend env c kind, fun k tx htx => ?_⟩
  · have hgap : rtxInterval 0 = turnRtoMs := by decide
    show (TreeMap.insert (c.arm env kind).pending _ _)[k]?.map timed = _
    rw [arm_pending, table_insert]
    simp only [timed, policy, hgap]
  · refine (requests_append (if (c.arm env kind).hasSend
      then [.send (txRequest env (c.arm env kind) build)] else [])
        (by rw [← arm_out env c kind])).trans ?_
    rw [arm_hasSend]
    unfold Policy.sentBy policy
    dsimp only
    split
    · simp [request?, hcls]
    · rfl
  · have htx : (TreeMap.insert (c.arm env kind).pending _ _)[k]? = some tx := htx
    rw [arm_pending] at htx
    obtain ⟨-, rfl⟩ | ⟨-, htx⟩ := getElem?_insert_some htx
    · exact hcls
    · exact hc k tx htx

theorem Follows.resend (hc : AllRequests c) {key : Bytes} {tx : PendingTx}
    (htx : c.pending[key]? = some tx) (hdue : tx.nextRetransmitAt ≤ env.now)
    (hretries : tx.retries < turnMaxRtxCount) :
    Follows env c (.resend key) { c with
      pending := c.pending.insert key (advance env tx), out := c.out ++ c.resent tx } := by
  have hentry : c.table key = some (timed tx) := by rw [table, htx]; rfl
  refine ⟨.resend hentry hdue hretries fun k => table_insert c key k _, ?_, rfl, rfl,
    fun k tx' htx' => ?_⟩
  · refine (requests_append _ rfl).trans ?_
    unfold Policy.sentBy
    dsimp only
    rw [hentry]
    unfold resent policy timed
    dsimp only
    by_cases h : c.hasSend = true ∧ c.cfg.transport = .udp ∧ tx.request.raw ≠ []
    · simp [h, request?, hc key tx htx]
    · rw [if_neg h, if_neg (by simpa using h)]
      rfl
  · obtain ⟨-, rfl⟩ | ⟨-, htx'⟩ := getElem?_insert_some htx'
    · exact hc key tx htx
    · exact hc k tx' htx'

theorem hand_request? {b : PeerBinding} {peer : AddrRecord} {pkt : Bytes} {r : Relay}
    (h : hand env c b peer pkt = some (d, r)) : request? r.sent = none := by
  unfold hand at h
  split at h
  · obtain ⟨frame, -, h⟩ := Option.map_eq_some_iff.mp h
    cases h
    rfl
  · cases h
    rfl

theorem finish_out (c : Client) (key : Bytes) (kind : TxKind) :
    (c.finish key kind).out = c.out := by
  cases kind <;> rfl

theorem finish_cfg (c : Client) (key : Bytes) (kind : TxKind) :
    (c.finish key kind).cfg = c.cfg := by
  cases kind <;> rfl

theorem finish_hasSend (c : Client) (key : Bytes) (kind : TxKind) :
    (c.finish key kind).hasSend = c.hasSend := by
  cases kind <;> rfl

theorem Move.follows (h : Move env c a d) (hc : AllRequests c) : Follows env c (eventOf a) d := by
  have hquiet {d : Client} {e : Effect} (he : isSent e = false) (hout : d.out = c.out ++ [e]) :
      d.requests = c.requests := by
    rw [requests_append _ hout, filterMap_quiet he, List.append_nil]
  have hhand {d d' : Client} {b : PeerBinding} {peer : AddrRecord} {pkt : Bytes} {r : Relay}
      (hr : hand env c b peer pkt = some (d, r)) (hout : d'.out = c.out ++ [r.sent]) :
      d'.requests = c.requests := by
    rw [requests_append _ hout, List.filterMap_cons, hand_request? hr]
    exact List.append_nil _
  cases h with
  | note he => exact .idle hc rfl (hquiet he rfl) rfl rfl
  | auth => exact .idle hc rfl rfl rfl rfl
  | schedule => exact .idle hc rfl rfl rfl rfl
  | draw => exact .idle hc rfl rfl rfl rfl
  | bind => exact .idle hc rfl rfl rfl rfl
  | start kind _ hbuilt => exact .start hc kind hbuilt
  | resend htx hdue hretries => exact .resend hc htx hdue hretries
  | @finish key tx htx =>
    refine ⟨.close fun k => ?_, ?_, finish_cfg .., finish_hasSend .., fun k tx' htx' => ?_⟩
    · rw [table, finish_pending]
      exact table_erase c key k
    · rw [Client.requests, finish_out]
      exact (List.append_nil _).symm
    · rw [finish_pending] at htx'
      exact hc k tx' (getElem?_erase_some htx').2
  | @abort code reason hf =>
    unfold failAllocation
    rw [if_neg (by simp [hf])]
    refine ⟨.closeAll fun k => ?_, ?_, rfl, rfl, fun k tx htx => ?_⟩
    · exact congrArg (Option.map timed) TreeMap.getElem?_emptyc
    · rw [hquiet rfl rfl]
      exact (List.append_nil _).symm
    · exact nomatch TreeMap.getElem?_emptyc.symm.trans htx
  | allocated => exact .idle hc rfl rfl rfl rfl
  | reject => exact .idle hc rfl (hquiet rfl rfl) rfl rfl
  | giveUp => exact .idle hc rfl rfl rfl rfl
  | permit => exact .idle hc rfl rfl rfl rfl
  | ready => exact .idle hc rfl rfl rfl rfl
  | keep => exact .idle hc rfl rfl rfl rfl
  | drop => exact .idle hc rfl rfl rfl rfl
  | collect => exact .idle hc rfl rfl rfl rfl
  | accept => exact .idle hc rfl rfl rfl rfl
  | direct _ _ _ _ _ hr =>
    obtain ⟨n, -, rfl, -⟩ := hand_eq hr
    exact .idle hc rfl (hhand hr rfl) rfl rfl
  | flush _ _ _ _ hr =>
    obtain ⟨n, -, rfl, -⟩ := hand_eq hr
    exact .idle hc rfl (hhand hr rfl) rfl rfl

/-! ## Paths -/

theorem policy_congr (hcfg : d.cfg = c.cfg) (hsend : d.hasSend = c.hasSend) :
    d.policy = c.policy := by
  unfold policy
  rw [hcfg, hsend]

/-- The client with a ledger that describes it. -/
structure Described (p : Policy Message) (extra : Int → Nat) (c : Client)
    (L : Ledger Bytes Message) : Prop where
  policy : c.policy = p
  requests : AllRequests c
  ok : L.Ok p c.table
  sent : c.requests = L.sent
  counted : L.Counted p extra

theorem Described.path {p : Policy Message} {extra : Int → Nat} {L : Ledger Bytes Message}
    {as : List Action} (h : Described p extra c L) (hpath : Path (Move env) c as d)
    (hextra : ∀ next, extra next ≤ 1) (hlater : ∀ next, env.now < next → extra next = 0)
    (hresend : ∀ a ∈ as, (∃ k, eventOf a = .resend k) → extra = dueAt env.now) :
    Described p extra d (as.foldl (fun L a => L.record p env.now (eventOf a)) L) := by
  induction hpath generalizing L with
  | nil => exact h
  | cons hmove _ ih =>
    have hf := hmove.follows h.requests
    have hstep := h.policy ▸ hf.step
    refine ih ?_ fun a ha => hresend a (List.mem_cons_of_mem _ ha)
    refine ⟨(policy_congr hf.cfg hf.hasSend).trans h.policy, hf.requests, h.ok.record hstep, ?_, ?_⟩
    · rw [hf.sent, h.sent, h.policy, Ledger.sent_record h.ok hstep]
    · exact h.counted.record h.ok hextra hlater hstep (hresend _ List.mem_cons_self)

theorem AllRequests.path {as : List Action} (hc : AllRequests c) (hpath : Path (Move env) c as d) :
    AllRequests d :=
  hpath.invariant (fun _ _ _ hc hmove => (hmove.follows hc).requests) hc

theorem later_of_path {as : List Action} (hpath : Path (Move env) c as d) (hc : AllRequests c)
    {k : Bytes} {e : Timed Message} (he : d.table k = some e) :
    c.table k = some e ∨ env.now < e.next := by
  induction hpath with
  | nil => exact .inl he
  | cons hmove _ ih =>
    have hf := hmove.follows hc
    obtain he | he := ih hf.requests he
    · exact hf.step.later he
    · exact .inr he

/-! ## Ticks -/

/-- A timeout that makes `tick` return leaves no transaction. -/
theorem tickPending_early {keys : List Bytes} (hw : Wired c)
    (h : c.tickPending env keys = (true, d)) : d.pending = ∅ := by
  induction keys generalizing c with
  | nil => cases h
  | cons key rest ih =>
    have hpath := Goes.tickTx env hw key
    unfold tickPending at h
    split at h
    · rename_i d' heq
      cases h
      have htrue : (c.tickTx env key).1 = true := by rw [heq]
      obtain ⟨tx, htx, hdue, hretries, hkind⟩ := tickTx_true.mp htrue
      have hfailed : c.failedEmitted = false := by
        cases hf : c.failedEmitted with
        | false => rfl
        | true =>
          obtain hkind | hkind := hkind
          · cases (hw.failed hf).symm.trans (hw.allocating htx hkind)
          · exact absurd hkind (hw.ended hf key tx htx)
      obtain ⟨heq', -⟩ | ⟨tx', htx', -, ⟨-, heq'⟩ | ⟨-, heq'⟩⟩ := tickTx_cases env c key
      · cases heq.symm.trans heq'
      · cases htx.symm.trans htx'
        rw [heq] at heq'
        obtain hkind | hkind := hkind <;> rw [hkind] at heq' <;> cases heq' <;>
          simp [failAllocation, hfailed, effect]
      · cases heq.symm.trans heq'
    · rename_i d' heq
      rw [heq] at hpath
      exact ih (hpath.wired hw) h

theorem tick_later (hw : Wired c) (hc : AllRequests c) {k : Bytes} {e : Timed Message}
    (he : (c.tick env).2.table k = some e) : env.now < e.next := by
  unfold tick at he
  split at he
  · rename_i d heq
    rw [table, tickPending_early hw heq, TreeMap.getElem?_emptyc] at he
    cases he
  · rename_i d heq
    obtain ⟨as, hpath, -⟩ := Goes.tickPending env hw c.pending.keys
    have hwd := (Goes.tickPending env hw c.pending.keys).wired hw
    rw [heq] at hpath hwd
    obtain ⟨bs, hpath', -⟩ := Goes.tickBindings env hwd
    obtain he | he := later_of_path hpath' (hc.path hpath) he
    · obtain ⟨hrearms, hkeys⟩ := tickPending_false heq
      obtain ⟨tx, htx, rfl⟩ := Option.map_eq_some_iff.mp he
      obtain hold | hlater := hrearms.pending k tx htx
      · refine hkeys k ?_ tx htx
        rw [TreeMap.mem_keys, TreeMap.mem_iff_isSome_getElem?, hold]
        rfl
      · exact hlater
    · exact he

/-! ## Runs -/

theorem resend_trafficBy (env : ClientEnv) (c : Client) {e : Call} (h : isTick e = false)
    (k : Bytes) :
    .resend k ∉ c.trafficBy env e := by
  cases e with
  | tick => cases h
  | sendData peer data =>
    unfold trafficBy sendTraffic
    dsimp only
    split
    · exact List.not_mem_nil
    · split
      · simp
      · split
        · exact List.not_mem_nil
        · split <;> simp
  | handleInbound data =>
    unfold trafficBy
    dsimp only
    split <;> simp
  | _ => exact List.not_mem_nil

theorem eventOf_resend {k : Bytes} (h : eventOf a = .resend k) : ∃ tx, a = .resend k tx := by
  cases a <;> cases h
  exact ⟨_, rfl⟩

/-- A call keeps the description: a tick as a round of the timer. -/
theorem Described.call {p : Policy Message} {L : Ledger Bytes Message} {e : Call}
    {as : List Action} (h : Described p (fun _ => 0) c L) (hw : Wired c)
    (hpath : Path (Move env) c as (c.call env e))
    (htraffic : as.filterMap Action.traffic? = c.trafficBy env e) :
    Described p (fun _ => 0) (c.call env e)
      (as.foldl (fun L a => L.record p env.now (eventOf a))
        (if isTick e then L.round env.now else L)) := by
  cases htick : isTick e with
  | false =>
    refine h.path hpath (fun _ => Nat.zero_le 1) (fun _ _ => rfl) fun a ha hev => ?_
    obtain ⟨k, hev⟩ := hev
    obtain ⟨tx, rfl⟩ := eventOf_resend hev
    refine absurd ?_ (resend_trafficBy env c htick k)
    rw [← htraffic]
    exact List.mem_filterMap.mpr ⟨_, ha, rfl⟩
  | true =>
    have hround : Described p (dueAt env.now) c (L.round env.now) :=
      ⟨h.policy, h.requests, h.ok.round env.now, by rw [Ledger.sent_round]; exact h.sent,
        h.counted.round env.now⟩
    have hend := hround.path hpath ?_ ?_ fun _ _ _ => rfl
    · refine ⟨hend.policy, hend.requests, hend.ok, hend.sent, hend.counted.settled hend.ok ?_⟩
      cases e with
      | tick => exact fun k e he => tick_later hw h.requests he
      | _ => cases htick
    · intro next
      unfold dueAt
      split <;> decide
    · intro next hnext
      exact if_neg (Int.not_le.mpr hnext)

theorem Recorded.described {L : Ledger Bytes Message} (h : Recorded c L) :
    Described c.policy (fun _ => 0) c L ∧ Wired c ∧ Phase c := by
  induction h with
  | @init c hc =>
    refine ⟨?_, ?_, hc.phase⟩
    · obtain ⟨cfg, hasSend, rfl⟩ := hc
      exact ⟨rfl, nofun, .empty, rfl, nofun⟩
    · obtain ⟨cfg, hasSend, rfl⟩ := hc
      exact .init cfg hasSend
  | @call c L env e as _ hpath htraffic ih =>
    obtain ⟨hd, hw, hp⟩ := ih
    have hcall := hd.call hw hpath htraffic
    refine ⟨hcall.policy ▸ hcall, hw.call env hp e, phase_call env c e hp⟩

theorem recorded_of_runs (h : Runs (fun _ _ => True) c) : ∃ L, Recorded c L := by
  induction h with
  | start h => exact ⟨_, .init h⟩
  | next i _ hs ih =>
    obtain ⟨L, hL⟩ := ih
    obtain ⟨-, rfl⟩ := hs
    obtain ⟨-, hw, hp⟩ := hL.described
    obtain ⟨as, hpath, htraffic⟩ := Goes.call i.1 hw hp i.2
    exact ⟨_, .call hL hpath htraffic⟩

end

theorem retransmission_discipline {c : Client} (h : Runs (fun _ _ => True) c) :
    (∃ L, Recorded c L) ∧ ∀ L, Recorded c L →
      c.requests = L.sent ∧
      (∀ (k : Bytes) (tx : PendingTx), c.pending[k]? = some tx →
        ∃ (i : Nat) (r : Record Bytes Message),
        L.records[i]? = some r ∧ r.live = true ∧ r.key = k ∧ r.request = tx.request) ∧
      ∀ (i : Nat) (r : Record Bytes Message), L.records[i]? = some r →
        (c.cfg.transport = .udp → (L.times i).length ≤ 1 + turnMaxRtxCount) ∧
        (c.cfg.transport ≠ .udp → (L.times i).length = if c.hasSend then 1 else 0) ∧
        Spaced rtxInterval (L.times i) ∧ r.due ≤ turnMaxRtxCount + 1 ∧
        (r.live = true → r.due ≤ turnMaxRtxCount) := by
  refine ⟨recorded_of_runs h, fun L hL => ?_⟩
  obtain ⟨hd, -, -⟩ := hL.described
  refine ⟨hd.sent, fun k tx htx => ?_, fun i r hr => ⟨fun _ => ?_, fun htcp => ?_, ?_, ?_⟩⟩
  · have hentry : c.table k = some (timed tx) := by rw [table, htx]; rfl
    obtain ⟨i, r, hr, hlive, rfl⟩ := hd.ok.covers k _ hentry
    have hsame := hd.ok.live i r hr hlive
    rw [hentry] at hsame
    exact ⟨i, r, hr, hlive, rfl, congrArg Timed.request (Option.some.inj hsame).symm⟩
  · exact hd.ok.transmissions_le hr
  · rw [hd.ok.count i r hr]
    simp [policy, htcp]
  · exact hd.ok.spaced i
  · exact hd.counted.due_le hd.ok hr

/-- An Allocate request that is not answered, with late ticks. -/
theorem retransmission_discipline_unanswered :
    let c := [(clientEnv 0, Call.allocate), (clientEnv 200, .tick), (clientEnv 599, .tick),
      (clientEnv 1000, .tick)].foldl step smallClient
    c.requests.length = 3 ∧ ∃ L, Recorded c L ∧ c.requests = L.sent ∧
      ∀ (i : Nat) (r : Record Bytes Message), L.records[i]? = some r →
        (L.times i).length ≤ 1 + turnMaxRtxCount ∧ Spaced rtxInterval (L.times i) := by
  intro c
  have hruns : Runs (fun _ _ => True) c := runs_foldl _
  have hudp : c.cfg.transport = .udp := by decide +kernel
  obtain ⟨⟨L, hL⟩, hall⟩ := retransmission_discipline hruns
  obtain ⟨hsent, -, hrecords⟩ := hall L hL
  exact ⟨by decide +kernel, L, hL, hsent, fun i r hr =>
    ⟨(hrecords i r hr).1 hudp, (hrecords i r hr).2.2.1⟩⟩

end Stice.Turn.Client
