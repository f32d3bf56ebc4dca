import Stice.Server.Connections

/-! What an event does to the allocation tables, as one rule: a property that the
primitive updates of the tables keep is kept by every event. -/
namespace Stice.Server
open Std Net Stun Turn Lib

variable {cfg : Config} {env : Env} {s : State} {src : AddrRecord} {conn : Option Ptr}
  {msg : Message} {alloc : Option (Ptr × Allocation)}

/-! ## Relay ports -/

/-- At most the relay ports in use changed. -/
def Tables.OnlyPorts (t t' : Tables) : Prop := t' = { t with usedRelayPorts := t'.usedRelayPorts }

theorem Tables.OnlyPorts.trans {t₁ t₂ t₃ : Tables} (h : OnlyPorts t₁ t₂) (h' : OnlyPorts t₂ t₃) :
    OnlyPorts t₁ t₃ := by
  unfold OnlyPorts at *
  rw [h', h]

theorem Tables.OnlyPorts.releaseRelayPort (n : UInt16) (o : Option Ptr) (t : Tables) :
    OnlyPorts t (releaseRelayPort n o t) := by
  simp only [Tables.releaseRelayPort]
  split
  · rfl
  · split <;> rfl

theorem Tables.OnlyPorts.allocRelayPort (cfg : Config) (random : Nat → UInt32)
    (avoid : List UInt16) (t : Tables) : OnlyPorts t (allocRelayPort cfg random avoid t).2 := by
  simp only [Tables.allocRelayPort, Tables.allocRelayPortIn]
  split <;> rfl

theorem Tables.OnlyPorts.bindRelay (cfg : Config) (env : Env) (fuel i : Nat)
    (failed : List UInt16) (n : UInt16) (t : Tables) :
    OnlyPorts t (bindRelay cfg env fuel i failed n t).2.2 := by
  induction fuel generalizing i failed n t with
  | zero => rfl
  | succ fuel ih =>
    cases hs : env.relaySocket i n with
    | some x =>
      simp only [Server.bindRelay, hs]
      rfl
    | none =>
      have hport := (OnlyPorts.releaseRelayPort n none t).trans
        (.allocRelayPort cfg (env.random (i + 1)) (failed ++ [n]) _)
      simp only [Server.bindRelay, hs]
      split
      · exact hport
      · exact hport.trans (ih _ _ _ _)

theorem Tables.OnlyPorts.settleRelay (x : Option (Socket × Option UInt16) × UInt16 × Tables) :
    OnlyPorts x.2.2 (settleRelay x).2 := by
  obtain ⟨sock, n, t⟩ := x
  cases sock with
  | none =>
    simp only [Server.settleRelay]
    split
    · exact .releaseRelayPort n none t
    · rfl
  | some y =>
    simp only [Server.settleRelay]
    split
    · exact (OnlyPorts.releaseRelayPort n none t).trans rfl
    · rfl

/-- Reserving a relay changes the ports in use only. -/
theorem Tables.OnlyPorts.reserveRelay (cfg : Config) (env : Env) (transport : SockType)
    (t : Tables) : OnlyPorts t (reserveRelay cfg env transport t).2 := by
  have hport := OnlyPorts.allocRelayPort cfg (env.random 0) [] t
  simp only [Server.reserveRelay]
  split
  · exact hport
  · cases transport with
    | stream => exact hport
    | dgram => exact hport.trans ((OnlyPorts.bindRelay cfg env 50 0 [] _ _).trans (.settleRelay _))

/-! ## Primitive updates -/

/-- An allocation that has only just been made. -/
structure Allocation.Fresh (a : Allocation) : Prop where
  permissions : a.permissions = []
  channels : a.channels = []
  pendingConnects : a.pendingConnects = []

/-- What an accepted ChannelBind does to its allocation. -/
def Allocation.bindChannel (now : Int) (channel : UInt16) (peer : AddrRecord) (a : Allocation) :
    Allocation :=
  { a with
    channels := addChannel channel peer (now + channelBindLifetimeMs) a.channels
    permissions := renewPermission peer (now + permissionLifetimeMs) a.permissions }

def Tables.modify (t : Tables) (p : Ptr) (f : Allocation → Allocation) : Tables :=
  { t with heap := t.heap.modify p f }

/-- What a CONNECT does to the tables. -/
def Tables.addPending (t : Tables) (p : Ptr) (pc : PendingConnect) : Tables :=
  { t with
    heap := t.heap.modify p fun a => { a with pendingConnects := a.pendingConnects ++ [pc] }
    pendingByConnId := t.pendingByConnId.insert pc.connId p }

/-- What the first CONNECTION-BIND does to the tables. -/
def Tables.recordFirst (t : Tables) (p : Ptr) (connId : UInt32) (sock : Socket) : Tables :=
  t.modify p fun a => { a with
    pendingConnects := updatePending connId
      (fun pc => { pc with firstDataSock := sock, connectResponded := true }) a.pendingConnects }

/-- What the second CONNECTION-BIND does to the tables. -/
def Tables.retire (t : Tables) (p : Ptr) (connId : UInt32) : Tables :=
  { t with
    heap := t.heap.modify p fun a => { a with
      pendingConnects := a.pendingConnects.filter fun pc => pc.connId ≠ connId }
    pendingByConnId := t.pendingByConnId.erase connId }

/-- A property of the tables that does not depend on the ports in use and that a
new allocation keeps. -/
structure Tables.Stable (cfg : Config) (R : Tables → Prop) : Prop where
  ports : ∀ t t', R t → OnlyPorts t t' → R t'
  register : ∀ t a overTcp, R t → a.Fresh → R (register cfg a overTcp t)

theorem handleAllocate_tables_rule {R : Tables → Prop} (hstable : Tables.Stable cfg R)
    (h : R s.tables) :
    R (handleAllocate cfg env s src conn msg).tables := by
  unfold handleAllocate
  split
  · rw [replyError, reply_tables]
    exact h
  · rename_i transport _
    split
    · rw [replyError, reply_tables]
      exact h
    · have hports := Tables.OnlyPorts.reserveRelay cfg env transport s.tables
      split
      · rename_i t hres
        rw [hres] at hports
        rw [replyError, reply_tables]
        exact hstable.ports _ _ h hports
      · rename_i sock port t hres
        rw [hres] at hports
        rw [reply_tables]
        exact hstable.register _ _ _ (hstable.ports _ _ h hports) ⟨rfl, rfl, rfl⟩

/-- What the sweep does to an allocation it visits. -/
def Tables.sweep (now : Int) (p : Ptr) (a : Allocation) (t : Tables) : Tables :=
  { t with
    heap := t.heap.modify p (dropExpired now)
    pendingByConnId := (a.pendingConnects.filter fun x => x.expiryMs ≤ now).foldl
      (fun m pc => m.erase pc.connId) t.pendingByConnId }

theorem expireAllocations_rule {R : Tables → Prop} {now : Int} {t : Tables} (h : R t)
    (hports : ∀ t t', R t → Tables.OnlyPorts t t' → R t')
    (hdestroy : ∀ t p, R t → R (Tables.destroyAllocation cfg p t))
    (hsweep : ∀ (t : Tables) (p : Ptr) a, R t → t.heap[p]? = some a → R (t.sweep now p a)) :
    R (Tables.expireAllocations cfg now t) := by
  have hone (t : Tables) (p : Ptr) (h : R t) : R (Tables.expireOne cfg now t p) := by
    unfold Tables.expireOne
    split
    · exact h
    · rename_i a ha
      dsimp only
      split
      · exact hdestroy _ _ (hsweep t p a h ha)
      · exact hsweep t p a h ha
  have hall (ps : List Ptr) (t : Tables) (h : R t) : R (ps.foldl (Tables.expireOne cfg now) t) := by
    induction ps generalizing t with
    | nil => exact h
    | cons p ps ih => exact ih _ (hone t p h)
  exact hports _ _ (hall _ t h) rfl

/-- ChannelBind either answers with an error or binds a valid channel that is not
badly bound. -/
theorem handleChannelBind_tables (cfg : Config) (env : Env) (s : State) (src : AddrRecord)
    (conn : Option Ptr) (req : Message) (p : Ptr) (a : Allocation) :
    (handleChannelBind cfg env s src conn req p a).tables = s.tables ∨
    ∃ channel peer, readChannelNumber req = some channel ∧ channelValid channel = true ∧
      readXorAddress req .xorPeerAddress req.transactionID = some peer ∧
      badBinding channel peer a.channels = false ∧
      (handleChannelBind cfg env s src conn req p a).tables =
        s.tables.modify p (Allocation.bindChannel env.now channel peer) := by
  unfold handleChannelBind
  split
  · exact .inl (reply_tables ..)
  · rename_i channel hch
    split
    · exact .inl (reply_tables ..)
    · rename_i hv
      split
      · exact .inl (reply_tables ..)
      · rename_i peer hpeer
        split
        · exact .inl (reply_tables ..)
        · rename_i hbad
          refine .inr ⟨channel, peer, hch, by simpa using hv, hpeer, by simpa using hbad, ?_⟩
          rw [reply_tables]
          rfl

/-! ## The dispatcher -/

section
variable (cfg : Config) (env : Env) (s : State) (src : AddrRecord) (conn : Option Ptr)
  (c p : Ptr) (req : Message) (a : Allocation) (x : TcpConn) (connId : UInt32)
  (pc : PendingConnect)

@[simp] theorem reply_nextConnId (raw : Bytes) :
    (reply s src conn raw).nextConnId = s.nextConnId := by
  cases conn <;> rfl

@[simp] theorem handleAllocate_nextConnId :
    (handleAllocate cfg env s src conn req).nextConnId = s.nextConnId := by
  unfold handleAllocate
  split
  · simp [replyError]
  · split
    · simp [replyError]
    · split <;> simp [replyError]

@[simp] theorem handleRefresh_nextConnId :
    (handleRefresh cfg env s src conn req p a).nextConnId = s.nextConnId := by
  simp only [handleRefresh]
  split
  · exact reply_nextConnId s src conn _
  · exact reply_nextConnId _ src conn _

@[simp] theorem handleChannelBind_nextConnId :
    (handleChannelBind cfg env s src conn req p a).nextConnId = s.nextConnId := by
  obtain ⟨raw, -, heq | ⟨channels, permissions, heq⟩⟩ :=
    handleChannelBind_eq cfg env s src conn p req a
  · rw [heq, reply_nextConnId]
  · rw [heq, reply_nextConnId]
    rfl

/-- CONNECT either answers with an error or adds a pending connect under the next
id. -/
theorem handleConnect_pending :
    (handleConnect env s c req p a).tables = s.tables ∧
      (handleConnect env s c req p a).nextConnId = s.nextConnId ∨
    ∃ pc : PendingConnect, pc.firstDataSock = invalidSocket ∧ pc.connId = s.nextConnId ∧
      (handleConnect env s c req p a).tables = s.tables.addPending p pc ∧
      (handleConnect env s c req p a).nextConnId = s.nextConnId + 1 := by
  unfold handleConnect
  split
  · exact .inl ⟨rfl, rfl⟩
  · split
    · exact .inl ⟨rfl, rfl⟩
    · right
      rename_i peer _ _ _ _
      refine ⟨⟨s.nextConnId, peer, invalidSocket, req.transactionID, false,
        env.now + pendingConnectLifetimeMs⟩, rfl, rfl, ?_, ?_⟩
      · simp only [sendConnectionAttempt_tables]
        rfl
      · unfold sendConnectionAttempt
        dsimp only
        split <;> rfl

end

variable {R : Tables → UInt32 → Prop}

/-- The tables an Allocate works on: an allocation that was found has expired and is gone. -/
def Tables.Cleared (cfg : Config) (env : Env) (t : Tables) (alloc : Option (Ptr × Allocation))
    (t' : Tables) : Prop :=
  alloc = none ∧ t' = t ∨
    ∃ p a, alloc = some (p, a) ∧ a.expiryMs ≤ env.now ∧ t' = Tables.destroyAllocation cfg p t

theorem Tables.Cleared.rule {Q : Tables → Prop} {t t' : Tables}
    (hc : t.Cleared cfg env alloc t') (h : Q t)
    (hdestroy : ∀ p, Q (Tables.destroyAllocation cfg p t)) : Q t' := by
  obtain ⟨-, rfl⟩ | ⟨p, -, -, -, rfl⟩ := hc
  · exact h
  · exact hdestroy p

/-- What a message does to the tables and to the next connection id. -/
theorem dispatchStun_tables_cases (h : R s.tables s.nextConnId)
    (hallocate : ∀ s' src conn msg, s.tables.Cleared cfg env alloc s'.tables →
      R (handleAllocate cfg env s' src conn msg).tables s.nextConnId)
    (hdestroy : ∀ p a, alloc = some (p, a) →
      R (Tables.destroyAllocation cfg p s.tables) s.nextConnId)
    (hmodify : ∀ p a (f : Allocation → Allocation), alloc = some (p, a) →
      (∀ a, f a = { a with expiryMs := (f a).expiryMs, permissions := (f a).permissions }) →
      R (s.tables.modify p f) s.nextConnId)
    (hchannel : ∀ p a channel peer, alloc = some (p, a) → Accepts cfg env s msg .channelBind →
      readChannelNumber msg = some channel → channelValid channel = true →
      readXorAddress msg .xorPeerAddress msg.transactionID = some peer →
      badBinding channel peer a.channels = false →
      R (s.tables.modify p (Allocation.bindChannel env.now channel peer)) s.nextConnId)
    (hconnect : ∀ p a pc, alloc = some (p, a) → pc.firstDataSock = invalidSocket →
      pc.connId = s.nextConnId → R (s.tables.addPending p pc) (s.nextConnId + 1))
    (hfirst : ∀ c x connId p pc, conn = some c → s.conns.heap[c]? = some x →
      Accepts cfg env s msg .connectionBind → readConnectionId msg = some connId →
      s.tables.findPendingByConnId connId = some (p, pc) → pc.firstDataSock = invalidSocket →
      R (s.tables.recordFirst p connId x.sock) s.nextConnId)
    (hsecond : ∀ c x connId p pc, conn = some c → s.conns.heap[c]? = some x →
      Accepts cfg env s msg .connectionBind → readConnectionId msg = some connId →
      s.tables.findPendingByConnId connId = some (p, pc) → pc.firstDataSock ≠ invalidSocket →
      R (s.tables.retire p connId) s.nextConnId) :
    R (dispatchStun cfg env s src conn msg alloc).tables
      (dispatchStun cfg env s src conn msg alloc).nextConnId := by
  have hq : Quiet cfg env fun s' => R s'.tables s'.nextConnId :=
    ⟨fun _ _ _ h => h, fun _ _ _ h => h, fun _ _ h => h⟩
  apply dispatchStun_rule (P := fun s' => R s'.tables s'.nextConnId) hq.answering h
  case hexpired => exact fun p a hp _ _ => hdestroy p a hp
  case hallocate =>
    rintro s' - - - (⟨hnone, rfl⟩ | ⟨p, a, hp, hexpired, rfl⟩)
    · rw [handleAllocate_nextConnId]
      exact hallocate _ _ _ _ (.inl ⟨hnone, rfl⟩)
    · rw [handleAllocate_nextConnId]
      exact hallocate _ _ _ _ (.inr ⟨p, a, hp, hexpired, rfl⟩)
  case hrefresh =>
    intro p a hp _
    rw [handleRefresh_nextConnId]
    unfold handleRefresh
    dsimp only
    split
    · rw [reply_tables]
      exact hdestroy p a hp
    · rw [reply_tables]
      exact hmodify p a _ hp fun _ => rfl
  case hpermission =>
    intro p a hp _
    obtain ⟨permissions, raw, -, heq⟩ := handleCreatePermission_eq cfg env s src conn p msg a
    rw [heq, reply_tables, reply_nextConnId]
    exact hmodify p a _ hp fun _ => rfl
  case hchannel =>
    intro p a hp hacc
    rw [handleChannelBind_nextConnId]
    obtain heq | ⟨channel, peer, hch, hv, hpeer, hbad, heq⟩ :=
      handleChannelBind_tables cfg env s src conn msg p a
    · rw [heq]
      exact h
    · rw [heq]
      exact hchannel p a channel peer hp hacc hch hv hpeer hbad
  case hconnect =>
    intro c p a _ hp _ _
    obtain ⟨ht, hn⟩ | ⟨pc, hpc, hid, ht, hn⟩ := handleConnect_pending env s c p msg a
    · rw [ht, hn]
      exact h
    · rw [ht, hn]
      exact hconnect p a pc hp hpc hid
  case hbind =>
    intro hcls hm
    apply handleConnectionBind_rule (P := fun s' => R s'.tables s'.nextConnId)
      (fun _ => hq.answering) h
    · intro c x id p connector pc hc hx hauth hid hpc _ hs
      rw [bindFirst_tables, nextConnId_of_fixed (bindFirst_fixed ..)]
      exact hfirst c x id p pc hc hx ⟨hcls, hm, hauth⟩ hid hpc hs
    · intro c x id p connector pc hc hx hauth hid hpc _ hs
      rw [bindSecond_tables, nextConnId_of_fixed (bindSecond_fixed ..)]
      exact hsecond c x id p pc hc hx ⟨hcls, hm, hauth⟩ hid hpc hs
  case hrelay => exact fun _ _ _ _ _ _ _ => h

/-! ## Events -/

/-- The message an event hands to the dispatcher, with the connection it came on
and the allocation of its path. -/
def dispatched (cfg : Config) (s : State) :
    Event → Option (Option Ptr × Message × Option (Ptr × Allocation))
  | .udpData data ip port => (stunMessage data).map fun msg =>
      (none, msg, s.tables.deref (s.tables.findAlloc (allocKey cfg .dgram ⟨ip, port, .dgram⟩)))
  | .tcpParse sock => (s.nextMessage sock).map fun (c, _, msg) =>
      (some c, msg, s.tables.deref s.tables.allocByControlSock[sock]?)
  | _ => none

theorem accepts_advance (c : Ptr) (msg : Message) (method : Method) :
    Accepts cfg env (s.advance c) msg method ↔ Accepts cfg env s msg method := by
  rw [Accepts, Accepts, @authenticate_congr cfg env s (s.advance c) msg rfl rfl]

theorem dispatched_udpData {data : Bytes} {ip : Ip} {port : UInt16}
    (h : stunMessage data = some msg) :
    dispatched cfg s (.udpData data ip port) = some (none, msg,
      s.tables.deref (s.tables.findAlloc (allocKey cfg .dgram ⟨ip, port, .dgram⟩))) := by
  simp only [dispatched, h, Option.map_some]

theorem step_of_dispatched (env : Env) {e : Event}
    (h : dispatched cfg s e = some (conn, msg, alloc)) :
    ∃ k src, step cfg s (e, env) = dispatchStun cfg env { s with conns := k } src conn msg
      alloc := by
  cases e with
  | udpData data ip port =>
    obtain ⟨m, hm, he⟩ := Option.map_eq_some_iff.mp h
    cases he
    refine ⟨s.conns, ⟨ip, port, .dgram⟩, ?_⟩
    simp only [stunMessage] at hm
    split at hm
    · cases hm
    · rename_i hc
      simp only [step, ioOnUdpData, handleUdpPacket, hc, Bool.false_eq_true, if_false, hm]
  | tcpParse sock =>
    obtain ⟨⟨c, x, m⟩, hm, he⟩ := Option.map_eq_some_iff.mp h
    cases he
    exact ⟨_, x.peerAddr, parsePass_of_nextMessage hm⟩
  | _ => cases h

/-- What an event of the server does to the tables keeps `R`, a new allocation apart. -/
structure StepKeeps (cfg : Config) (env : Env) (s : State) (e : Event)
    (R : Tables → UInt32 → Prop) :
    Prop where
  destroy : ∀ p, R (Tables.destroyAllocation cfg p s.tables) s.nextConnId
  expire : R (Tables.expireAllocations cfg env.now s.tables) s.nextConnId
  modify : ∀ p (f : Allocation → Allocation),
    (∀ a, f a = { a with expiryMs := (f a).expiryMs, permissions := (f a).permissions }) →
    R (s.tables.modify p f) s.nextConnId
  channel : ∀ conn msg p a channel peer, dispatched cfg s e = some (conn, msg, some (p, a)) →
    Accepts cfg env s msg .channelBind → readChannelNumber msg = some channel →
    channelValid channel = true →
    readXorAddress msg .xorPeerAddress msg.transactionID = some peer →
    badBinding channel peer a.channels = false →
    R (s.tables.modify p (Allocation.bindChannel env.now channel peer)) s.nextConnId
  connect : ∀ p a pc, s.tables.heap[p]? = some a → pc.firstDataSock = invalidSocket →
    pc.connId = s.nextConnId → R (s.tables.addPending p pc) (s.nextConnId + 1)
  first : ∀ c msg alloc sock connId p pc, dispatched cfg s e = some (some c, msg, alloc) →
    Accepts cfg env s msg .connectionBind → readConnectionId msg = some connId →
    s.tables.findPendingByConnId connId = some (p, pc) → pc.firstDataSock = invalidSocket →
    R (s.tables.recordFirst p connId sock) s.nextConnId
  second : ∀ c msg alloc connId p pc, dispatched cfg s e = some (some c, msg, alloc) →
    Accepts cfg env s msg .connectionBind → readConnectionId msg = some connId →
    s.tables.findPendingByConnId connId = some (p, pc) → pc.firstDataSock ≠ invalidSocket →
    R (s.tables.retire p connId) s.nextConnId

theorem step_tables_cases {e : Event} (h : R s.tables s.nextConnId)
    (hallocate : ∀ x s' src conn msg, dispatched cfg s e = some x →
      s.tables.Cleared cfg env x.2.2 s'.tables →
      R (handleAllocate cfg env s' src conn msg).tables s.nextConnId)
    (hr : StepKeeps cfg env s e R) :
    R (step cfg s (e, env)).tables (step cfg s (e, env)).nextConnId := by
  have hq : Quiet cfg env fun s' => R s'.tables s'.nextConnId :=
    ⟨fun _ _ _ h => h, fun _ _ _ h => h, fun _ _ h => h⟩
  cases e with
  | udpData data ip port =>
    refine ioOnUdpData_rule (P := fun s' => R s'.tables s'.nextConnId) hq h
      (fun _ _ _ _ _ => h) fun msg hmsg => ?_
    have hdisp := @dispatched_udpData cfg s msg data ip port hmsg
    refine dispatchStun_tables_cases h (fun s' _ _ _ => hallocate _ s' _ _ _ hdisp)
      (fun p _ _ => hr.destroy p) (fun p _ f _ hf => hr.modify p f hf)
      (fun p a channel peer hp => ?_)
      (fun p a pc hp => hr.connect p a pc (Tables.deref_eq_some hp).2)
      (fun _ _ _ _ _ hc => nomatch hc) fun _ _ _ _ _ hc => nomatch hc
    rw [hp] at hdisp
    exact hr.channel none msg p a channel peer hdisp
  | relayData sock data ip port =>
    exact Quiet.ioOnRelayData (P := fun s' => R s'.tables s'.nextConnId) hq h _ _ _
  | tcpAccepted sock ip port hv => exact h
  | tcpReceive sock data =>
    obtain ⟨_, _, _, _, heq, -⟩ := receive_eq s sock data
    show R (receive s sock data).tables (receive s sock data).nextConnId
    rw [heq]
    exact h
  | tcpParse sock =>
    refine parsePass_rule (P := fun s' => R s'.tables s'.nextConnId) hq h (fun _ _ _ => h)
      (fun _ _ h => h) (fun _ _ _ _ _ _ _ _ => h) (fun _ _ _ _ _ _ _ _ => h)
      fun c x msg hmsg => ?_
    have hdisp : dispatched cfg s (.tcpParse sock) = some (some c, msg,
        s.tables.deref s.tables.allocByControlSock[sock]?) := by
      simp only [dispatched, hmsg, Option.map_some]
    refine dispatchStun_tables_cases (s := s.advance c) h
      (fun s' _ _ _ => hallocate _ s' _ _ _ hdisp) (fun p _ _ => hr.destroy p)
      (fun p _ f _ hf => hr.modify p f hf) (fun p a channel peer hp hacc => ?_)
      (fun p a pc hp => hr.connect p a pc (Tables.deref_eq_some hp).2)
      (fun d y id p pc hd _ hacc => ?_) fun d y id p pc hd _ hacc => ?_
    · rw [hp] at hdisp
      exact hr.channel _ msg p a channel peer hdisp ((accepts_advance c msg _).mp hacc)
    · exact hr.first c msg _ y.sock id p pc hdisp ((accepts_advance c msg _).mp hacc)
    · exact hr.second c msg _ id p pc hdisp ((accepts_advance c msg _).mp hacc)
  | tcpConnClosed sock =>
    show R (closeTcpConn cfg s sock).tables (closeTcpConn cfg s sock).nextConnId
    unfold closeTcpConn
    split
    · exact h
    · split
      · exact h
      · dsimp only
        split
        · exact hr.destroy _
        · exact h
  | tick =>
    have hid : (expireStale cfg env s).nextConnId = s.nextConnId := by
      simp only [expireStale]
      split <;> rfl
    show R (expireStale cfg env s).tables (expireStale cfg env s).nextConnId
    rw [expireStale_tables, hid]
    exact hr.expire
  | reap => exact h

/-- The same for a property that every new allocation keeps. -/
theorem step_tables_rule {e : Event} (hstable : Tables.Stable cfg fun t => R t s.nextConnId)
    (h : R s.tables s.nextConnId)
    (hr : StepKeeps cfg env s e R) :
    R (step cfg s (e, env)).tables (step cfg s (e, env)).nextConnId := by
  refine step_tables_cases h (fun x s' src conn msg _ hs' => ?_) hr
  exact handleAllocate_tables_rule hstable
    (hs'.rule (Q := fun t => R t s.nextConnId) h hr.destroy)

end Stice.Server
