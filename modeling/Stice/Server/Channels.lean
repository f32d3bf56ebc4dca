import Stice.Server.Authorization

/-! The channel table of an allocation. A ChannelBind compares the peer with the
bound ones by IP only, while a channel is used by its full peer address. Where the
ports of equal IPs agree and no expired channel is left in the table, numbers and
peer addresses correspond one to one, and a binding keeps its peer. -/
namespace Stice.Server
open Std Net Stun Turn Lib

variable {cfg : Config} {env : Env} {s : State} {t t' : Tables} {p : Ptr} {cs : List Channel}
  {channel : UInt16} {peer : AddrRecord}

/-! ## Addresses -/

theorem decodeXorAddr_socktype {value : Bytes} {tid : TransactionID}
    (h : decodeXorAddr value tid = some peer) : peer.socktype = .dgram := by
  unfold decodeXorAddr at h
  split at h
  · cases h
  · dsimp only at h
    split at h
    · split at h
      · cases h
      · cases h
        rfl
    · split at h
      · split at h
        · cases h
        · cases h
          rfl
      · cases h

theorem readXorAddress_socktype {msg : Message} {type : AttrType} {tid : TransactionID}
    (h : readXorAddress msg type tid = some peer) : peer.socktype = .dgram := by
  obtain ⟨v, -, hv⟩ := Option.bind_eq_some_iff.mp h
  exact decodeXorAddr_socktype hv

/-- Datagram addresses are equal if IP and port are. -/
theorem key_eq_iff {a b : AddrRecord} (hs : a.socktype = b.socktype) :
    a.key = b.key ↔ samePeerIP a b = true ∧ a.port = b.port := by
  rw [← AddrRecord.isEqual_iff_key]
  simp [AddrRecord.isEqual, samePeerIP, addrEqual, hs]

/-! ## The table -/

/-- Numbers and full peer addresses correspond one to one. -/
structure OneToOne (cs : List Channel) : Prop where
  iff : ∀ c ∈ cs, ∀ d ∈ cs, c.number = d.number ↔ c.peer.key = d.peer.key
  dgram : ∀ c ∈ cs, c.peer.socktype = .dgram

/-- A table that a ChannelBind with that peer finds swept, without a channel to
another port of the peer's IP. -/
def PortsAgree (now : Int) (peer : AddrRecord) (cs : List Channel) : Prop :=
  ∀ c ∈ cs, now < c.expiryMs ∧ (samePeerIP c.peer peer = true → c.peer.port = peer.port)

/-- The number is unbound or bound to the peer, and the peer is unbound or bound
to the number. -/
def Bindable (now : Int) (channel : UInt16) (peer : AddrRecord) (cs : List Channel) : Prop :=
  ∀ c ∈ cs, now < c.expiryMs → (c.number = channel ↔ c.peer.key = peer.key)

theorem badBinding_eq_false_iff :
    badBinding channel peer cs = false ↔
      ∀ c ∈ cs, c.number = channel ↔ samePeerIP c.peer peer = true := by
  simp only [badBinding, List.any_eq_false]
  refine forall_congr' fun c => imp_congr_right fun _ => ?_
  by_cases hn : c.number = channel <;> cases hip : samePeerIP c.peer peer <;> simp [hn]

/-- Where the ports agree, the test by IP is the test by full address. -/
theorem PortsAgree.badBinding_iff {now : Int} (h : PortsAgree now peer cs) (hcs : OneToOne cs)
    (hpeer : peer.socktype = .dgram) (channel : UInt16) :
    badBinding channel peer cs = false ↔ Bindable now channel peer cs := by
  have hkey (c : Channel) (hc : c ∈ cs) :
      c.peer.key = peer.key ↔ samePeerIP c.peer peer = true := by
    rw [key_eq_iff ((hcs.dgram c hc).trans hpeer.symm)]
    exact ⟨fun hx => hx.1, fun hx => ⟨hx, (h c hc).2 hx⟩⟩
  rw [badBinding_eq_false_iff]
  constructor
  · intro hb c hc _
    rw [hkey c hc]
    exact hb c hc
  · intro hb c hc
    rw [← hkey c hc]
    exact hb c hc (h c hc).1

theorem mem_addChannel {expiry : Int} {c : Channel}
    (h : c ∈ addChannel channel peer expiry cs) : c ∈ cs ∨ c = ⟨channel, peer, expiry⟩ := by
  induction cs with
  | nil => exact .inr (List.mem_singleton.mp h)
  | cons d cs ih =>
    unfold addChannel at h
    split at h
    · rcases List.mem_cons.mp h with rfl | h
      · exact .inr rfl
      · exact .inl (List.mem_cons_of_mem d h)
    · rcases List.mem_cons.mp h with rfl | h
      · exact .inl List.mem_cons_self
      · exact (ih h).imp_left (List.mem_cons_of_mem d)

/-- A bound number stays bound. -/
theorem addChannel_bound {expiry : Int} {c : Channel} (h : c ∈ cs) :
    c ∈ addChannel channel peer expiry cs ∨
      c.number = channel ∧ ⟨channel, peer, expiry⟩ ∈ addChannel channel peer expiry cs := by
  induction cs with
  | nil => cases h
  | cons d cs ih =>
    unfold addChannel
    split
    · rename_i hd
      rcases List.mem_cons.mp h with rfl | h
      · exact .inr ⟨hd, List.mem_cons_self⟩
      · exact .inl (List.mem_cons_of_mem _ h)
    · rcases List.mem_cons.mp h with rfl | h
      · exact .inl List.mem_cons_self
      · exact (ih h).imp (List.mem_cons_of_mem _) fun hx => ⟨hx.1, List.mem_cons_of_mem _ hx.2⟩

theorem OneToOne.addChannel {now expiry : Int} (h : OneToOne cs) (hpeer : peer.socktype = .dgram)
    (hagree : PortsAgree now peer cs) (hb : badBinding channel peer cs = false) :
    OneToOne (addChannel channel peer expiry cs) := by
  have hnew := (hagree.badBinding_iff h hpeer channel).mp hb
  constructor
  case iff =>
    intro c hc d hd
    rcases mem_addChannel hc with hc | rfl
    · rcases mem_addChannel hd with hd | rfl
      · exact h.iff c hc d hd
      · exact hnew c hc (hagree c hc).1
    · rcases mem_addChannel hd with hd | rfl
      · rw [eq_comm, hnew d hd (hagree d hd).1, eq_comm]
      · simp
  case dgram =>
    intro c hc
    rcases mem_addChannel hc with hc | rfl
    · exact h.dgram c hc
    · exact hpeer

/-- An unexpired binding of one table is an unexpired binding of the other, with
the same number and peer. -/
def KeepsBindings (now : Int) (cs cs' : List Channel) : Prop :=
  ∀ c ∈ cs, now < c.expiryMs →
    ∃ d ∈ cs', now < d.expiryMs ∧ d.number = c.number ∧ d.peer.key = c.peer.key

theorem KeepsBindings.refl (now : Int) (cs : List Channel) : KeepsBindings now cs cs :=
  fun c hc hlive => ⟨c, hc, hlive, rfl, rfl⟩

theorem KeepsBindings.trans {now : Int} {cs₁ cs₂ cs₃ : List Channel}
    (h : KeepsBindings now cs₁ cs₂) (h' : KeepsBindings now cs₂ cs₃) :
    KeepsBindings now cs₁ cs₃ := by
  intro c hc hlive
  obtain ⟨d, hd, hlive, hn, hk⟩ := h c hc hlive
  obtain ⟨e, he, hlive, hn', hk'⟩ := h' d hd hlive
  exact ⟨e, he, hlive, hn'.trans hn, hk'.trans hk⟩

theorem KeepsBindings.filter (now : Int) (cs : List Channel) :
    KeepsBindings now cs (cs.filter fun c => now < c.expiryMs) :=
  fun c hc hlive => ⟨c, List.mem_filter.mpr ⟨hc, decide_eq_true hlive⟩, hlive, rfl, rfl⟩

theorem KeepsBindings.addChannel {now expiry : Int} (h : OneToOne cs)
    (hpeer : peer.socktype = .dgram) (hagree : PortsAgree now peer cs)
    (hb : badBinding channel peer cs = false) (hexp : now < expiry) :
    KeepsBindings now cs (addChannel channel peer expiry cs) := by
  intro c hc hlive
  obtain hc' | ⟨hn, hnew⟩ := @addChannel_bound _ channel peer expiry c hc
  · exact ⟨c, hc', hlive, rfl, rfl⟩
  · refine ⟨_, hnew, hexp, hn.symm, ?_⟩
    exact (((hagree.badBinding_iff h hpeer channel).mp hb c hc hlive).mp hn).symm

/-! ## Events -/

/-- What an event may do to the tables: every allocation has a table that is one
to one, and one that was there before has kept its bindings. -/
structure ChannelsFrom (now : Int) (t t' : Tables) : Prop where
  next : t.nextPtr ≤ t'.nextPtr
  table : ∀ (p : Ptr) (b : Allocation), t'.heap[p]? = some b → OneToOne b.channels ∧
    ∀ a, t.heap[p]? = some a → KeepsBindings now a.channels b.channels

variable {now : Int} {t₀ : Tables}

/-- The allocations of `t'` are those of `t` with other tables. -/
theorem ChannelsFrom.step (h : ChannelsFrom now t₀ t) (hnext : t'.nextPtr = t.nextPtr)
    {R : Allocation → Allocation → Prop} (hfrom : Tables.From R t t')
    (hR : ∀ a b, OneToOne a.channels → R a b →
      OneToOne b.channels ∧ KeepsBindings now a.channels b.channels) :
    ChannelsFrom now t₀ t' := by
  refine ⟨hnext ▸ h.next, fun p c hc => ?_⟩
  obtain ⟨b, hb, hbc⟩ := hfrom p c hc
  obtain ⟨hone, hkeep⟩ := h.table p b hb
  obtain ⟨hone', hkeep'⟩ := hR b c hone hbc
  exact ⟨hone', fun a ha => (hkeep a ha).trans hkeep'⟩

theorem destroyAllocation_nextPtr (cfg : Config) (p : Ptr) (t : Tables) :
    (Tables.destroyAllocation cfg p t).nextPtr = t.nextPtr := by
  unfold Tables.destroyAllocation
  split
  · rfl
  · rename_i a _
    rw [Tables.OnlyPorts.releaseRelayPort a.relayPort (some p) (Tables.eraseLookups a t)]
    unfold Tables.eraseAllocation
    split <;> rfl

theorem ChannelsFrom.destroyAllocation (h : ChannelsFrom now t₀ t) (cfg : Config) (p : Ptr) :
    ChannelsFrom now t₀ (Tables.destroyAllocation cfg p t) := by
  refine h.step (destroyAllocation_nextPtr cfg p t)
    (Tables.From.destroyAllocation (R := Eq) (fun _ => rfl) cfg t p) ?_
  rintro a _ hone rfl
  exact ⟨hone, .refl now _⟩

theorem ChannelsFrom.modify (h : ChannelsFrom now t₀ t) (p : Ptr) {f : Allocation → Allocation}
    (hf : ∀ a, t.heap[p]? = some a → OneToOne a.channels →
      OneToOne (f a).channels ∧ KeepsBindings now a.channels (f a).channels) :
    ChannelsFrom now t₀ (t.modify p f) := by
  refine ⟨h.next, fun q c hc => ?_⟩
  obtain ⟨b, hb, ⟨rfl, rfl⟩ | ⟨-, rfl⟩⟩ := getElem?_modify_some hc
  · obtain ⟨hone, hkeep⟩ := h.table q b hb
    obtain ⟨hone', hkeep'⟩ := hf b hb hone
    exact ⟨hone', fun a ha => (hkeep a ha).trans hkeep'⟩
  · exact h.table q c hb

theorem ChannelsFrom.same (h : ChannelsFrom now t₀ t) (p : Ptr) {f : Allocation → Allocation}
    (hf : ∀ a, (f a).channels = a.channels) : ChannelsFrom now t₀ (t.modify p f) :=
  h.modify p fun a _ hone => by
    rw [hf a]
    exact ⟨hone, .refl now _⟩

theorem OneToOne.filter (h : OneToOne cs) (f : Channel → Bool) : OneToOne (cs.filter f) :=
  ⟨fun c hc d hd => h.iff c (List.mem_filter.mp hc).1 d (List.mem_filter.mp hd).1,
    fun c hc => h.dgram c (List.mem_filter.mp hc).1⟩

theorem ChannelsFrom.sweep (h : ChannelsFrom now t₀ t) (p : Ptr) (a : Allocation) :
    ChannelsFrom now t₀ (t.sweep now p a) := by
  have hmod : ChannelsFrom now t₀ (t.modify p (Tables.dropExpired now)) :=
    h.modify p fun b _ hone => ⟨hone.filter _, .filter now b.channels⟩
  exact ⟨hmod.next, hmod.table⟩

theorem ChannelsFrom.register (h : ChannelsFrom now t₀ t) (hkeyed : t₀.Keyed cfg)
    (a : Allocation) (overTcp : Bool) (ha : a.Fresh) :
    ChannelsFrom now t₀ (Tables.register cfg a overTcp t) := by
  have hnext : (Tables.register cfg a overTcp t).nextPtr = t.nextPtr + 1 := by
    unfold Tables.register Tables.assignAllocation Tables.eraseAllocation Tables.enterLookups
    dsimp only
    split <;> split <;> split <;> rfl
  refine ⟨hnext ▸ Nat.le_succ_of_le h.next, fun q b hb => ?_⟩
  obtain ⟨rfl, rfl⟩ | ⟨-, hb⟩ := getElem?_insert_some hb
  · rw [ha.channels]
    refine ⟨⟨(fun _ hc => nomatch hc), (fun _ hc => nomatch hc)⟩, fun a' ha' => ?_⟩
    exact absurd (hkeyed _ a' ha').2 (Nat.not_lt.mpr h.next)
  · obtain ⟨c, hc, rfl⟩ := Tables.From.eraseAllocation (R := Eq) (fun _ => rfl) _ _ q b hb
    rw [Tables.enterLookups_heap] at hc
    exact h.table q c hc

/-- Every ChannelBind that is accepted as a request finds a table whose ports
agree. -/
def ChannelsAgree (cfg : Config) (s : State) (e : Event × Env) : Prop :=
  ∀ conn msg p a peer, dispatched cfg s e.1 = some (conn, msg, some (p, a)) →
    Accepts cfg e.2 s msg .channelBind →
    readXorAddress msg .xorPeerAddress msg.transactionID = some peer →
    PortsAgree e.2.now peer a.channels

theorem dispatched_heap {e : Event} {conn : Option Ptr} {msg : Message} {a : Allocation}
    (h : dispatched cfg s e = some (conn, msg, some (p, a))) : s.tables.heap[p]? = some a := by
  cases e with
  | udpData data ip port =>
    obtain ⟨m, -, he⟩ := Option.map_eq_some_iff.mp h
    simp only [Prod.mk.injEq] at he
    exact (Tables.deref_eq_some he.2.2).2
  | tcpParse sock =>
    obtain ⟨⟨c, x, m⟩, -, he⟩ := Option.map_eq_some_iff.mp h
    simp only [Prod.mk.injEq] at he
    exact (Tables.deref_eq_some he.2.2).2
  | _ => cases h

theorem step_channelsFrom (hkeyed : s.tables.Keyed cfg)
    (hone : ∀ (p : Ptr) (a : Allocation), s.tables.heap[p]? = some a → OneToOne a.channels)
    {e : Event} (he : ChannelsAgree cfg s (e, env)) :
    ChannelsFrom env.now s.tables (step cfg s (e, env)).tables := by
  have hrefl : ChannelsFrom env.now s.tables s.tables := by
    refine ⟨Nat.le_refl _, fun p b hb => ⟨hone p b hb, fun a ha => ?_⟩⟩
    cases ha.symm.trans hb
    exact .refl _ _
  have hports {t t' : Tables} (h : ChannelsFrom env.now s.tables t) (ht : Tables.OnlyPorts t t') :
      ChannelsFrom env.now s.tables t' := by
    rw [ht]
    exact ⟨h.next, h.table⟩
  refine step_tables_rule (R := fun t _ => ChannelsFrom env.now s.tables t)
    ⟨fun _ _ => hports, fun _ a overTcp h ha => h.register hkeyed a overTcp ha⟩ hrefl
    ⟨hrefl.destroyAllocation cfg, ?_, ?_, ?_, ?_, ?_, ?_⟩
  case refine_1 =>
    exact expireAllocations_rule (R := ChannelsFrom env.now s.tables) hrefl (fun _ _ => hports)
      (fun _ p h => h.destroyAllocation cfg p) fun _ p a h _ => h.sweep p a
  case refine_2 =>
    refine fun p f hf => hrefl.same p fun a => ?_
    rw [hf a]
  case refine_3 =>
    intro conn msg p a channel peer hd hacc hch hv hpeer hbad
    have hdgram := readXorAddress_socktype hpeer
    refine hrefl.modify p fun b hb hb1 => ?_
    cases hb.symm.trans (dispatched_heap hd)
    have hagree := he conn msg p a peer hd hacc hpeer
    exact ⟨hb1.addChannel hdgram hagree hbad, .addChannel hb1 hdgram hagree hbad
      (Int.lt_add_of_pos_right _ (by decide))⟩
  case refine_4 =>
    intro p a pc _ _ _
    have hmod := hrefl.same p
      (f := fun a => { a with pendingConnects := a.pendingConnects ++ [pc] }) fun _ => rfl
    exact ⟨hmod.next, hmod.table⟩
  case refine_5 => exact fun _ _ _ _ _ p _ _ _ _ _ _ => hrefl.same p fun _ => rfl
  case refine_6 =>
    intro c msg alloc id p pc _ _ _ _ _
    have hmod := hrefl.same p (f := fun a => { a with
      pendingConnects := a.pendingConnects.filter fun pc => pc.connId ≠ id }) fun _ => rfl
    exact ⟨hmod.next, hmod.table⟩

/-! ## The verdict -/

/-- What the server does with a ChannelBind: it binds and answers with success, or
it answers with 400. -/
theorem step_channelBind {e : Event} {conn : Option Ptr} {msg : Message} {a : Allocation}
    (hd : dispatched cfg s e = some (conn, msg, some (p, a)))
    (hacc : Accepts cfg env s msg .channelBind) (hch : readChannelNumber msg = some channel)
    (hv : channelValid channel = true)
    (hpeer : readXorAddress msg .xorPeerAddress msg.transactionID = some peer) :
    ∃ k src, step cfg s (e, env) =
      if badBinding channel peer a.channels then
        replyError { s with conns := k } src conn msg 400
      else
        reply (State.updateAlloc { s with conns := k } p
            (Allocation.bindChannel env.now channel peer)) src conn
          (successResponse cfg s .channelBind msg.transactionID a.username []) := by
  obtain ⟨k, src, hstep⟩ := step_of_dispatched env hd
  obtain ⟨hcls, hm, hauth⟩ := hacc
  have hdispatch : dispatchStun cfg env { s with conns := k } src conn msg (some (p, a)) =
      onAllocation cfg env { s with conns := k } src conn msg (some (p, a)) fun s p a =>
        handleChannelBind cfg env s src conn msg p a := by
    simp only [dispatchStun, hcls, hm]
    rfl
  have hauth : (authenticate cfg env { s with conns := k } msg).1 = 0 :=
    (@authenticate_congr cfg env s { s with conns := k } msg rfl rfl).trans hauth
  refine ⟨k, src, ?_⟩
  rw [hstep, hdispatch, onAllocation, authenticated_eq hauth]
  simp only [handleChannelBind, hch, hv, Bool.not_true, Bool.false_eq_true, if_false, hpeer, hm]
  rfl

/-- In every run whose ChannelBinds find tables with agreeing ports, every table
is one to one, an event keeps the peer of every unexpired binding, and a ChannelBind
succeeds exactly if number and peer are free or bound to each other. -/
theorem channels_one_to_one
    (hr : Reach (fun s => ∃ env, s = State.start cfg env)
      (Guarded (ChannelsAgree cfg) (step cfg)) s) :
    (∀ (p : Ptr) (a : Allocation), s.tables.heap[p]? = some a → OneToOne a.channels) ∧
    ∀ e env, ChannelsAgree cfg s (e, env) →
      (∀ (p : Ptr) (a b : Allocation), s.tables.heap[p]? = some a →
        (step cfg s (e, env)).tables.heap[p]? = some b →
          KeepsBindings env.now a.channels b.channels) ∧
      ∀ conn msg p a channel peer, dispatched cfg s e = some (conn, msg, some (p, a)) →
        Accepts cfg env s msg .channelBind → readChannelNumber msg = some channel →
        channelValid channel = true →
        readXorAddress msg .xorPeerAddress msg.transactionID = some peer →
        (Bindable env.now channel peer a.channels → ∃ k src, step cfg s (e, env) =
          reply (State.updateAlloc { s with conns := k } p
              (Allocation.bindChannel env.now channel peer)) src conn
            (successResponse cfg s .channelBind msg.transactionID a.username [])) ∧
        (¬Bindable env.now channel peer a.channels → ∃ k src, step cfg s (e, env) =
          replyError { s with conns := k } src conn msg 400) := by
  have hinv : s.tables.Keyed cfg ∧
      ∀ (p : Ptr) (a : Allocation), s.tables.heap[p]? = some a → OneToOne a.channels := by
    refine Reach.invariant (P := fun s => s.tables.Keyed cfg ∧
      ∀ (p : Ptr) (a : Allocation), s.tables.heap[p]? = some a → OneToOne a.channels) ?_ ?_ hr
    · rintro s ⟨env, rfl⟩
      constructor
      · intro p a ha
        simp [State.start, Tables.empty] at ha
      · intro p a ha
        simp [State.start, Tables.empty] at ha
    · rintro s ⟨e, env⟩ s' ⟨hkeyed, hone⟩ ⟨he, rfl⟩
      exact ⟨step_keyed hkeyed (e, env),
        fun p b hb => ((step_channelsFrom hkeyed hone he).table p b hb).1⟩
  obtain ⟨hkeyed, hone⟩ := hinv
  refine ⟨hone, fun e env he => ⟨fun p a b ha hb => ?_, ?_⟩⟩
  · exact ((step_channelsFrom hkeyed hone he).table p b hb).2 a ha
  · intro conn msg p a channel peer hd hacc hch hv hpeer
    have hverdict := (he conn msg p a peer hd hacc hpeer).badBinding_iff
      (hone p a (dispatched_heap hd)) (readXorAddress_socktype hpeer) channel
    obtain ⟨k, src, hstep⟩ := step_channelBind hd hacc hch hv hpeer
    constructor
    · intro hb
      rw [hverdict.mpr hb] at hstep
      exact ⟨k, src, hstep⟩
    · intro hb
      cases hbad : badBinding channel peer a.channels with
      | false => exact absurd (hverdict.mp hbad) hb
      | true =>
        rw [hbad] at hstep
        exact ⟨k, src, hstep⟩

/-- A sufficient check of the condition. -/
def portsAgree (cfg : Config) (s : State) (e : Event × Env) : Bool :=
  match dispatched cfg s e.1 with
  | some (_, msg, some (_, a)) =>
      match readXorAddress msg .xorPeerAddress msg.transactionID with
      | some peer => a.channels.all fun c =>
          e.2.now < c.expiryMs && (!samePeerIP c.peer peer || c.peer.port = peer.port)
      | none => true
  | _ => true

theorem channelsAgree_of_portsAgree (cfg : Config) (s : State) (e : Event × Env)
    (h : portsAgree cfg s e = true) : ChannelsAgree cfg s e := by
  intro conn msg p a peer hd _ hpeer c hc
  simp only [portsAgree, hd, hpeer, List.all_eq_true] at h
  have hcheck := h c hc
  simp only [Bool.and_eq_true, decide_eq_true_eq, Bool.or_eq_true, Bool.not_eq_true'] at hcheck
  refine ⟨hcheck.1, fun hip => ?_⟩
  rcases hcheck.2 with hno | hport
  · rw [hip] at hno
    cases hno
  · exact hport

/-- A ChannelBind of 0x4001 to 192.168.0.10:6000, signed by `u`. -/
def secondBindRequest : Bytes :=
  [0, 9, 0, 76, 33, 18, 164, 66, 9, 9, 9, 9, 9, 9, 9, 9, 9, 9, 9, 9, 0, 6, 0, 1, 117, 0, 0, 0, 0,
    20, 0, 1, 114, 0, 0, 0, 0, 21, 0, 1, 110, 0, 0, 0, 0, 18, 0, 8, 0, 1, 54, 98, 225, 186, 164,
    72, 0, 12, 0, 4, 64, 1, 0, 0, 0, 8, 0, 20, 165, 222, 28, 133, 184, 239, 134, 170, 224, 136,
    230, 156, 79, 219, 242, 245, 164, 198, 238, 118, 128, 40, 0, 4, 223, 128, 221, 191]

/-- Two channels are bound, and the first of them again. -/
def twoBinds : List (Event × Env) :=
  [allocateUdp, channelBindRequest, secondBindRequest, channelBindRequest].map fun data =>
    (.udpData data (.v4 192 168 0 7) 50000, smallEnv)

theorem channels_one_to_one_two_binds :
    ∃ s a, checkedRun (portsAgree smallConfig) (step smallConfig)
        (State.start smallConfig smallEnv) twoBinds = some s ∧
      s.tables.heap[(0 : Ptr)]? = some a ∧ a.channels.map (·.number) = [0x4000, 0x4001] ∧
      OneToOne a.channels := by
  have hrun : (checkedRun (portsAgree smallConfig) (step smallConfig)
      (State.start smallConfig smallEnv) twoBinds).bind (fun s =>
        s.tables.heap[(0 : Ptr)]?.map fun a => a.channels.map (·.number)) =
      some [0x4000, 0x4001] := by
    decide +kernel
  obtain ⟨s, hs, hnumbers⟩ := Option.bind_eq_some_iff.mp hrun
  obtain ⟨a, ha, hnumbers⟩ := Option.map_eq_some_iff.mp hnumbers
  have hreach := Reach.of_checkedRun (fun s => ∃ env, s = State.start smallConfig env)
    (channelsAgree_of_portsAgree smallConfig) (.start ⟨smallEnv, rfl⟩) hs
  exact ⟨s, a, hs, ha, hnumbers, (channels_one_to_one hreach).1 0 a ha⟩

/-- A ChannelBind of 0x4000 to 192.168.0.9:6001, signed by `u`. -/
def channelRebindRequest : Bytes :=
  [0, 9, 0, 76, 33, 18, 164, 66, 1, 2, 3, 4, 5, 6, 7, 8, 9, 10, 11, 12, 0, 6, 0, 1, 117, 0, 0, 0,
    0, 20, 0, 1, 114, 0, 0, 0, 0, 21, 0, 1, 110, 0, 0, 0, 0, 12, 0, 4, 64, 0, 0, 0, 0, 18, 0, 8,
    0, 1, 54, 99, 225, 186, 164, 75, 0, 8, 0, 20, 206, 134, 44, 10, 203, 140, 154, 228, 12, 253,
    156, 196, 73, 108, 14, 47, 248, 104, 67, 87, 128, 40, 0, 4, 210, 81, 246, 211]

/-- The channel is bound to one port and at the same time again to another: the
second bind succeeds and changes the peer. -/
theorem channel_changes_peer :
    let bind (data : Bytes) : Event × Env := (.udpData data (.v4 192 168 0 7) 50000, smallEnv)
    let s := [bind allocateUdp, bind channelBindRequest].foldl (step smallConfig)
      (State.start smallConfig smallEnv)
    let s' := step smallConfig s (bind channelRebindRequest)
    s.tables.heap[(0 : Ptr)]?.map (fun a => a.channels.map fun c => (c.number, c.peer.port)) =
        some [(0x4000, 6000)] ∧
      s'.tables.heap[(0 : Ptr)]?.map (fun a => a.channels.map fun c => (c.number, c.peer.port)) =
        some [(0x4000, 6001)] := by
  decide +kernel

end Stice.Server
