import Stice.Server.Step

/-! Rules for the dispatcher. Whatever a handler keeps, sending and the nonce
aside, `dispatchStun` keeps; `Request` names what an event hands to it. -/
namespace Stice.Server
open Std Net Stun Turn

variable {sock : Socket} {x : TcpConn}

/-! ## Updates of the state -/

section
variable (s : State) (p : Ptr) (o : Output) (f : Allocation → Allocation) (g : TcpConn → TcpConn)

@[simp] theorem emit_tables : (s.emit o).tables = s.tables := rfl

@[simp] theorem emit_conns : (s.emit o).conns = s.conns := rfl

@[simp] theorem updateAlloc_tables : (s.updateAlloc p f).tables =
    { s.tables with heap := s.tables.heap.modify p f } := rfl

@[simp] theorem updateAlloc_conns : (s.updateAlloc p f).conns = s.conns := rfl

@[simp] theorem updateConn_tables : (s.updateConn p g).tables = s.tables := rfl

@[simp] theorem updateConn_conns : (s.updateConn p g).conns =
    { s.conns with heap := s.conns.heap.modify p g } := rfl

end

/-- `P` does not look at what was sent to clients or at a nonce that has expired. -/
structure Quiet (cfg : Config) (env : Env) (P : State → Prop) : Prop where
  udp : ∀ s dst raw, P s → P (s.emit (.udp dst raw))
  tcp : ∀ s c raw, P s → P (s.emit (.tcp c raw))
  nonce : ∀ s, s.nonceExpiryMs ≤ env.now → P s → P (refreshNonce cfg env s)

/-- A property of the tables and the connections is quiet. -/
theorem Quiet.of_tables_conns (cfg : Config) (env : Env) (P : Tables → Conns → Prop) :
    Quiet cfg env fun s => P s.tables s.conns :=
  ⟨fun _ _ _ h => h, fun _ _ _ h => h, fun _ _ h => h⟩

variable {cfg : Config} {env : Env} {P : State → Prop} {s : State} {src : AddrRecord}
  {conn : Option Ptr} {msg : Message} {alloc : Option (Ptr × Allocation)}

theorem Quiet.reply (hq : Quiet cfg env P) (h : P s) (src : AddrRecord) (conn : Option Ptr)
    (raw : Bytes) : P (reply s src conn raw) := by
  cases conn with
  | none => exact hq.udp _ _ _ h
  | some c => exact hq.tcp _ _ _ h

@[simp] theorem reply_tables (s : State) (src : AddrRecord) (conn : Option Ptr) (raw : Bytes) :
    (reply s src conn raw).tables = s.tables := by
  cases conn <;> rfl

/-! ## Answers -/

/-- A response to the transaction, as the server encodes it. -/
inductive Response (tid : TransactionID) : Bytes → Prop
  | encoded (m : Message) (password : Option Bytes) (creds : Option Credentials)
      (htid : m.transactionID = tid) (hcls : m.cls = .successResponse ∨ m.cls = .errorResponse) :
      Response tid (m.encode password creds (some serverName)).raw

theorem Response.error (msg : Message) (code : Nat) :
    Response msg.transactionID (errorResponse msg code) := by
  unfold errorResponse
  exact .encoded _ _ _ rfl (.inr rfl)

theorem Response.authError (cfg : Config) (s : State) (msg : Message) (code : Nat) :
    Response msg.transactionID (authErrorResponse cfg s msg code) := by
  unfold authErrorResponse
  exact .encoded _ _ _ rfl (.inr rfl)

theorem Response.success (cfg : Config) (s : State) (method : Method) (tid : TransactionID)
    (username : Bytes) (attributes : List Attribute) :
    Response tid (successResponse cfg s method tid username attributes) := by
  simp only [successResponse]
  split
  · exact .encoded _ _ _ rfl (.inl rfl)
  · exact .encoded _ _ _ rfl (.inl rfl)

/-- `P` does not look at the responses to a message or at a nonce that has expired. -/
structure Answering (cfg : Config) (env : Env) (src : AddrRecord) (conn : Option Ptr)
    (msg : Message) (P : State → Prop) : Prop where
  reply : ∀ s raw, Response msg.transactionID raw → P s → P (reply s src conn raw)
  nonce : ∀ s, s.nonceExpiryMs ≤ env.now → P s → P (refreshNonce cfg env s)

theorem Quiet.answering (hq : Quiet cfg env P) : Answering cfg env src conn msg P :=
  ⟨fun _ _ _ h => hq.reply h _ _ _, hq.nonce⟩

/-! ## Authentication -/

/-- `authenticate` changes at most a nonce that has expired, and nothing when it
succeeds. -/
theorem authenticate_state (cfg : Config) (env : Env) (s : State) (msg : Message) :
    (authenticate cfg env s msg).2 = s ∨
      (authenticate cfg env s msg).1 ≠ 0 ∧ s.nonceExpiryMs ≤ env.now ∧
        (authenticate cfg env s msg).2 = refreshNonce cfg env s := by
  unfold authenticate
  split
  · exact .inl rfl
  · split
    · rename_i hexpired
      exact .inr ⟨Nat.succ_ne_zero 437, hexpired, rfl⟩
    · split
      · exact .inl rfl
      · split
        · exact .inl rfl
        · left
          dsimp only
          split <;> rfl

/-- The verdict depends on the nonce only. -/
theorem authenticate_congr (cfg : Config) (env : Env) {s s' : State} (msg : Message)
    (hn : s'.nonce = s.nonce) (he : s'.nonceExpiryMs = s.nonceExpiryMs) :
    (authenticate cfg env s' msg).1 = (authenticate cfg env s msg).1 := by
  grind [authenticate]

theorem authenticated_rule (hq : Answering cfg env src conn msg P) (h : P s)
    {handler : State → State}
    (hh : (authenticate cfg env s msg).1 = 0 → P (handler s)) :
    P (authenticated cfg env s src conn msg handler) := by
  rw [authenticated]
  rcases authenticate_state cfg env s msg with hs | ⟨hc, hexpired, hs⟩
  · by_cases hc : (authenticate cfg env s msg).1 = 0
    · simp only [hc, ne_eq, not_true, if_false, hs]
      exact hh hc
    · simp only [hs, ne_eq, hc, not_false_iff, if_true]
      exact hq.reply _ _ (.authError ..) h
  · simp only [hs, ne_eq, hc, not_false_iff, if_true]
    exact hq.reply _ _ (.authError ..) (hq.nonce _ hexpired h)

theorem authenticated_eq (h : (authenticate cfg env s msg).1 = 0) (handler : State → State) :
    authenticated cfg env s src conn msg handler = handler s := by
  obtain hs | ⟨hne, -⟩ := authenticate_state cfg env s msg
  · simp only [authenticated, h, hs, ne_eq, not_true, if_false]
  · exact absurd h hne

/-! ## Dispatch -/

/-- An authenticated request of that method. -/
def Accepts (cfg : Config) (env : Env) (s : State) (msg : Message) (method : Method) : Prop :=
  msg.cls = .request ∧ msg.method = method ∧ (authenticate cfg env s msg).1 = 0

/-- A Send indication for a peer. -/
def SendsTo (msg : Message) (peer : AddrRecord) (data : Bytes) : Prop :=
  msg.cls = .indication ∧ msg.method = .send ∧
    readXorAddress msg .xorPeerAddress msg.transactionID = some peer ∧ msg.find .data = some data

/-- Every way a message changes the state, for a property that the answers
keep. -/
theorem dispatchStun_rule (hq : Answering cfg env src conn msg P) (h : P s)
    (hexpired : ∀ p a, alloc = some (p, a) → a.expiryMs ≤ env.now → msg.method = .allocate →
      P { s with tables := Tables.destroyAllocation cfg p s.tables })
    (hallocate : ∀ s', msg.cls = .request → msg.method = .allocate →
      (authenticate cfg env s msg).1 = 0 →
      (alloc = none ∧ s' = s ∨ ∃ p a, alloc = some (p, a) ∧ a.expiryMs ≤ env.now ∧
        s' = { s with tables := Tables.destroyAllocation cfg p s.tables }) →
      P (handleAllocate cfg env s' src conn msg))
    (hrefresh : ∀ p a, alloc = some (p, a) → Accepts cfg env s msg .refresh →
      P (handleRefresh cfg env s src conn msg p a))
    (hpermission : ∀ p a, alloc = some (p, a) → Accepts cfg env s msg .createPermission →
      P (handleCreatePermission cfg env s src conn msg p a))
    (hchannel : ∀ p a, alloc = some (p, a) → Accepts cfg env s msg .channelBind →
      P (handleChannelBind cfg env s src conn msg p a))
    (hconnect : ∀ c p a, conn = some c → alloc = some (p, a) → a.transport = .stream →
      Accepts cfg env s msg .connect → P (handleConnect env s c msg p a))
    (hbind : msg.cls = .request → msg.method = .connectionBind →
      P (handleConnectionBind cfg env s conn msg))
    (hrelay : ∀ p a peer data, alloc = some (p, a) → SendsTo msg peer data →
      permitted env.now peer a = true → P (s.emit (.relay p peer data))) :
    P (dispatchStun cfg env s src conn msg alloc) := by
  have herror (code : Nat) : P (replyError s src conn msg code) := hq.reply _ _ (.error msg code) h
  have hauth (t : Tables) : (authenticate cfg env { s with tables := t } msg).1 =
      (authenticate cfg env s msg).1 := authenticate_congr cfg env msg rfl rfl
  have honAllocation (handler : State → Ptr → Allocation → State)
      (hh : ∀ p a, alloc = some (p, a) → (authenticate cfg env s msg).1 = 0 →
        P (handler s p a)) :
      P (onAllocation cfg env s src conn msg alloc handler) := by
    cases alloc with
    | none => exact herror _
    | some x =>
      unfold onAllocation
      exact authenticated_rule hq h fun ha => hh _ _ rfl ha
  unfold dispatchStun
  split
  case h_1 hcls =>
    by_cases hm : msg.method = .binding
    · rw [if_pos hm]
      unfold handleBinding
      exact hq.reply _ _ (.encoded _ _ _ rfl (.inl rfl)) h
    rw [if_neg hm]
    by_cases hm : msg.method = .allocate
    · rw [if_pos hm]
      cases alloc with
      | none =>
        unfold dispatchAllocate
        exact authenticated_rule hq h fun ha => hallocate s hcls hm ha (.inl ⟨rfl, rfl⟩)
      | some x =>
        by_cases hexp : x.2.expiryMs ≤ env.now
        · simp only [dispatchAllocate, hexp, if_true]
          exact authenticated_rule hq (hexpired _ _ rfl hexp hm) fun ha =>
            hallocate _ hcls hm ((hauth _).symm.trans ha)
              (.inr ⟨_, _, rfl, hexp, rfl⟩)
        · simp only [dispatchAllocate, hexp, if_false]
          exact herror _
    rw [if_neg hm]
    by_cases hm : msg.method = .refresh
    · rw [if_pos hm]
      exact honAllocation _ fun p a hp ha => hrefresh p a hp ⟨hcls, hm, ha⟩
    rw [if_neg hm]
    by_cases hm : msg.method = .createPermission
    · rw [if_pos hm]
      exact honAllocation _ fun p a hp ha => hpermission p a hp ⟨hcls, hm, ha⟩
    rw [if_neg hm]
    by_cases hm : msg.method = .channelBind
    · rw [if_pos hm]
      exact honAllocation _ fun p a hp ha => hchannel p a hp ⟨hcls, hm, ha⟩
    rw [if_neg hm]
    by_cases hm : msg.method = .send
    · rw [if_pos hm]
      exact h
    rw [if_neg hm]
    by_cases hm : msg.method = .connect
    · rw [if_pos hm]
      cases conn with
      | none => exact h
      | some c =>
        cases alloc with
        | none => exact herror _
        | some x =>
          by_cases ht : x.2.transport = .stream
          · simp only [dispatchConnect, ht, ne_eq, not_true, if_false]
            exact authenticated_rule hq h fun ha => hconnect _ _ _ rfl rfl ht ⟨hcls, hm, ha⟩
          · simp only [dispatchConnect, ht, ne_eq, not_false_iff, if_true]
            exact herror _
    rw [if_neg hm]
    by_cases hm : msg.method = .connectionBind
    · rw [if_pos hm]
      exact hbind hcls hm
    rw [if_neg hm]
    exact herror _
  case h_2 hcls =>
    split
    · split
      · rename_i hm
        unfold handleSendIndication
        split
        · rename_i hpeer hdata
          split
          · rename_i hperm
            exact hrelay _ _ _ _ rfl ⟨hcls, hm, hpeer, hdata⟩ (Bool.and_eq_true_iff.mp hperm).1
          · exact h
        · exact h
      · exact h
    · exact h
  case h_3 => exact h

theorem dispatchStun_bind (hcls : msg.cls = .request) (hm : msg.method = .connectionBind) :
    dispatchStun cfg env s src conn msg alloc = handleConnectionBind cfg env s conn msg := by
  simp only [dispatchStun, hcls, hm]
  rfl

/-! ## Handlers -/

theorem handleConnectionBind_rule (hq : ∀ src, Answering cfg env src conn msg P) (h : P s)
    (hfirst : ∀ c x connId p connector pc, conn = some c → s.conns.heap[c]? = some x →
      (authenticate cfg env s msg).1 = 0 → readConnectionId msg = some connId →
      s.tables.findPendingByConnId connId = some (p, pc) → s.tables.heap[p]? = some connector →
      pc.firstDataSock = invalidSocket → P (bindFirst cfg s c x msg connId p connector pc))
    (hsecond : ∀ c x connId p connector pc, conn = some c → s.conns.heap[c]? = some x →
      (authenticate cfg env s msg).1 = 0 → readConnectionId msg = some connId →
      s.tables.findPendingByConnId connId = some (p, pc) → s.tables.heap[p]? = some connector →
      pc.firstDataSock ≠ invalidSocket → P (bindSecond cfg s c x msg connId p pc)) :
    P (handleConnectionBind cfg env s conn msg) := by
  unfold handleConnectionBind
  split
  case h_1 => exact h
  case h_2 c x hcx =>
    obtain ⟨c', hc', hx⟩ := Option.bind_eq_some_iff.mp hcx
    obtain ⟨x', hx', hpair⟩ := Option.map_eq_some_iff.mp hx
    cases hpair
    subst hc'
    refine authenticated_rule (hq _) h fun hauth => ?_
    split
    · exact (hq x.peerAddr).reply _ _ (.error msg 400) h
    · rename_i connId hid
      split
      · exact (hq x.peerAddr).reply _ _ (.error msg 437) h
      · rename_i p pc hpc
        split
        · exact h
        · rename_i connector hp
          split
          · rename_i hfs
            exact hfirst _ _ _ _ _ _ rfl hx' hauth hid hpc hp hfs
          · rename_i hfs
            exact hsecond _ _ _ _ _ _ rfl hx' hauth hid hpc hp hfs

theorem handleConnectionBind_accepted {c p : Ptr} {connId : UInt32} {pc : PendingConnect}
    {connector : Allocation} (hx : s.conns.heap[c]? = some x)
    (hauth : (authenticate cfg env s msg).1 = 0) (hid : readConnectionId msg = some connId)
    (hpc : s.tables.findPendingByConnId connId = some (p, pc))
    (hcon : s.tables.heap[p]? = some connector) :
    handleConnectionBind cfg env s (some c) msg =
      if pc.firstDataSock = invalidSocket then bindFirst cfg s c x msg connId p connector pc
      else bindSecond cfg s c x msg connId p pc := by
  simp only [handleConnectionBind, Option.bind_some, hx, Option.map_some, authenticated_eq hauth,
    hid, hpc, hcon]

section
variable (cfg : Config) (env : Env) (s : State) (src : AddrRecord) (conn : Option Ptr) (c p : Ptr)
  (req : Message) (a : Allocation) (x : TcpConn) (connId : UInt32) (pc : PendingConnect)

theorem handleCreatePermission_eq : ∃ (permissions : Allocation → List Permission) (raw : Bytes),
    Response req.transactionID raw ∧ handleCreatePermission cfg env s src conn req p a =
      reply (s.updateAlloc p fun a => { a with permissions := permissions a }) src conn raw :=
  ⟨_, _, .success .., rfl⟩

/-- ChannelBind either answers with an error or changes channels and permissions. -/
theorem handleChannelBind_eq : ∃ raw, Response req.transactionID raw ∧
    (handleChannelBind cfg env s src conn req p a = reply s src conn raw ∨
    ∃ (channels : Allocation → List Channel) (permissions : Allocation → List Permission),
      handleChannelBind cfg env s src conn req p a =
        reply (s.updateAlloc p fun a =>
          { a with channels := channels a, permissions := permissions a }) src conn raw) := by
  unfold handleChannelBind
  split
  · exact ⟨_, .error req 400, .inl rfl⟩
  · split
    · exact ⟨_, .error req 400, .inl rfl⟩
    · split
      · exact ⟨_, .error req 400, .inl rfl⟩
      · split
        · exact ⟨_, .error req 400, .inl rfl⟩
        · exact ⟨_, .success .., .inr ⟨_, _, rfl⟩⟩

@[simp] theorem sendConnectionAttempt_tables (id : UInt32) (addr : AddrRecord) :
    (sendConnectionAttempt env s a id addr).tables = s.tables := by
  unfold sendConnectionAttempt
  dsimp only
  split <;> rfl

/-- CONNECT either answers with an error or adds a pending connect. -/
theorem handleConnect_tables :
    (handleConnect env s c req p a).tables = s.tables ∨
    ∃ pc : PendingConnect, pc.firstDataSock = invalidSocket ∧
      (handleConnect env s c req p a).tables = { s.tables with
        heap := s.tables.heap.modify p fun a =>
          { a with pendingConnects := a.pendingConnects ++ [pc] }
        pendingByConnId := s.tables.pendingByConnId.insert pc.connId p } := by
  unfold handleConnect
  split
  · exact .inl rfl
  · split
    · exact .inl rfl
    · right
      rename_i peer _ _ _ _
      refine ⟨⟨s.nextConnId, peer, invalidSocket, req.transactionID, false,
        env.now + pendingConnectLifetimeMs⟩, rfl, ?_⟩
      simp only [sendConnectionAttempt_tables]
      rfl

@[simp] theorem sendConnectResponse_tables :
    (sendConnectResponse cfg s connId a pc).tables = s.tables := by
  unfold sendConnectResponse
  split
  · rfl
  · split <;> rfl

@[simp] theorem sendConnectResponse_conns :
    (sendConnectResponse cfg s connId a pc).conns = s.conns := by
  unfold sendConnectResponse
  split
  · rfl
  · split <;> rfl

theorem bindFirst_tables : (bindFirst cfg s c x req connId p a pc).tables =
    { s.tables with heap := s.tables.heap.modify p fun a => { a with
        pendingConnects := updatePending connId
          (fun pc => { pc with firstDataSock := x.sock, connectResponded := true })
          a.pendingConnects } } := by
  simp only [bindFirst, sendBindResponse, emit_tables, updateAlloc_tables,
    sendConnectResponse_tables]
  rfl

theorem bindFirst_conns : (bindFirst cfg s c x req connId p a pc).conns =
    { s.conns with heap := s.conns.heap.modify c fun conn =>
        { conn with isData := true, connId := connId } } := by
  simp only [bindFirst, sendBindResponse, emit_conns, updateAlloc_conns, sendConnectResponse_conns]
  rfl

@[simp] theorem flushPrePair_tables : (flushPrePair s c).tables = s.tables := by
  unfold flushPrePair
  split
  · rfl
  · split
    · rfl
    · split <;> rfl

@[simp] theorem pairData_tables (sock first : Socket) :
    (pairData s c sock first).tables = s.tables := by
  unfold pairData
  split
  · simp
  · rfl

theorem bindSecond_tables : (bindSecond cfg s c x req connId p pc).tables =
    { s.tables with
      heap := s.tables.heap.modify p fun a => { a with
        pendingConnects := a.pendingConnects.filter fun pc => pc.connId ≠ connId }
      pendingByConnId := s.tables.pendingByConnId.erase connId } := by
  simp only [bindSecond, retirePending, updateAlloc_tables, pairData_tables, sendBindResponse,
    emit_tables]
  rfl

theorem bindSecond_conns : (bindSecond cfg s c x req connId p pc).conns =
    (pairData (sendBindResponse cfg (markData s c connId) c req) c x.sock pc.firstDataSock).conns :=
  rfl

/-- What a CONNECTION-BIND leaves alone. -/
def State.fixed (s : State) : Bytes × Int × UInt32 × TreeMap Socket Ptr :=
  (s.nonce, s.nonceExpiryMs, s.nextConnId, s.reading)

theorem bindFirst_fixed : (bindFirst cfg s c x req connId p a pc).fixed = s.fixed := by
  simp only [bindFirst, sendConnectResponse]
  split
  · rfl
  · split <;> rfl

theorem flushPrePair_fixed : (flushPrePair s c).fixed = s.fixed := by
  unfold flushPrePair
  split
  · rfl
  · split
    · rfl
    · split <;> rfl

theorem bindSecond_fixed : (bindSecond cfg s c x req connId p pc).fixed = s.fixed := by
  have hpair (s : State) (sock first : Socket) : (pairData s c sock first).fixed = s.fixed := by
    unfold pairData
    split
    · rw [flushPrePair_fixed, flushPrePair_fixed]
      rfl
    · rfl
  exact hpair _ _ _

variable {s} in
theorem nextConnId_of_fixed {s' : State} (h : s'.fixed = s.fixed) : s'.nextConnId = s.nextConnId :=
  congrArg (·.2.2.1) h

variable {s} in
theorem reading_of_fixed {s' : State} (h : s'.fixed = s.fixed) : s'.reading = s.reading :=
  congrArg (·.2.2.2) h

end

/-! ## Entry points -/

theorem Quiet.forwardToClient (hq : Quiet cfg env P) (h : P s) (a : Allocation)
    (peer : AddrRecord) (data : Bytes) : P (forwardToClient env s a peer data) := by
  unfold Server.forwardToClient
  split
  · exact h
  · split
    · split
      · exact hq.tcp _ _ _ h
      · exact h
    · exact hq.udp _ _ _ h

theorem Quiet.handleChannelDataFrame (hq : Quiet cfg env P) (h : P s) (data : Bytes) (p : Ptr)
    (a : Allocation) (hrelay : ∀ peer data, P (s.emit (.relay p peer data))) :
    P (handleChannelDataFrame cfg env s data p a) := by
  unfold Server.handleChannelDataFrame
  split
  · exact h
  · split
    · exact h
    · split
      · exact h
      · split
        · exact hq.forwardToClient h _ _ _
        · exact hrelay _ _

theorem Quiet.ioOnRelayData (hq : Quiet cfg env P) (h : P s) (sock : Socket) (data : Bytes)
    (src : AddrRecord) : P (ioOnRelayData env s sock data src) := by
  unfold Server.ioOnRelayData
  split
  · exact hq.forwardToClient h _ _ _
  · exact h

/-- At most the buffers of one connection changed. -/
def Conns.Buffered (k k' : Conns) : Prop :=
  k' = k ∨ ∃ (c : Ptr) (f : TcpConn → TcpConn), k' = { k with heap := k.heap.modify c f } ∧
    ∀ x, f x = { x with stunConn := (f x).stunConn, prePairBuf := (f x).prePairBuf }

theorem flushPrePair_buffered (s : State) (c : Ptr) :
    s.conns.Buffered (flushPrePair s c).conns := by
  unfold flushPrePair
  split
  · exact .inl rfl
  · split
    · exact .inl rfl
    · split
      · exact .inl rfl
      · exact .inr ⟨c, _, rfl, fun _ => rfl⟩

/-- A chunk goes into the buffers of its connection, which its shard then holds, or
to the peer. -/
theorem receive_eq (s : State) (sock : Socket) (data : Bytes) : ∃ k out q reading,
    receive s sock data =
        { s with conns := k, out := out, closeQueue := q, reading := reading } ∧
      s.conns.Buffered k ∧ (reading = s.reading ∨
        ∃ x, s.conns.live sock = some x ∧ reading = s.reading.insert sock x.1) := by
  unfold receive
  split
  · exact ⟨_, _, _, _, rfl, .inl rfl, .inl rfl⟩
  split
  · exact ⟨_, _, _, _, rfl, .inl rfl, .inl rfl⟩
  · rename_i c conn hlive
    split
    · unfold appendPrePair
      split
      · dsimp only
        split
        · exact ⟨_, _, _, _, rfl, .inl rfl, .inl rfl⟩
        · exact ⟨_, _, _, _, rfl, .inr ⟨c, _, rfl, fun _ => rfl⟩, .inl rfl⟩
      · split
        · exact ⟨_, _, _, _, rfl, .inr ⟨c, _, rfl, fun _ => rfl⟩, .inl rfl⟩
        · exact ⟨_, _, _, _, rfl, .inr ⟨c, _, rfl, fun _ => rfl⟩, .inl rfl⟩
    · exact ⟨_, _, _, _, rfl, .inr ⟨c, _, rfl, fun _ => rfl⟩, .inr ⟨_, hlive, rfl⟩⟩

@[simp] theorem receive_tables (s : State) (sock : Socket) (data : Bytes) :
    (receive s sock data).tables = s.tables := by
  obtain ⟨_, _, _, _, h, -⟩ := receive_eq s sock data
  rw [h]

theorem receive_buffered (s : State) (sock : Socket) (data : Bytes) :
    s.conns.Buffered (receive s sock data).conns := by
  obtain ⟨_, _, _, _, h, hk, -⟩ := receive_eq s sock data
  rw [h]
  exact hk

@[simp] theorem expireStale_tables (cfg : Config) (env : Env) (s : State) :
    (expireStale cfg env s).tables = Tables.expireAllocations cfg env.now s.tables := by
  simp only [expireStale]
  split <;> rfl

@[simp] theorem expireStale_conns (cfg : Config) (env : Env) (s : State) :
    (expireStale cfg env s).conns = s.conns := by
  simp only [expireStale]
  split <;> rfl

/-- The STUN message of a datagram or a frame. -/
def stunMessage (data : Bytes) : Option Message :=
  if isChannelData data then none else decode data

/-- The connection on a socket, its next frame taken. -/
def State.advance (s : State) (c : Ptr) : State :=
  s.updateConn c fun conn => { conn with stunConn := conn.stunConn.readFrame.2 }

/-- The message the next pass of the parse loop dispatches. -/
def State.nextMessage (s : State) (sock : Socket) : Option (Ptr × TcpConn × Message) :=
  match s.held sock with
  | none => none
  | some (c, conn) =>
      match conn.stunConn.readFrame.1 with
      | .frame data =>
          if conn.isData then none else (stunMessage data).map fun msg => (c, conn, msg)
      | _ => none

/-- A pointer followed into the heap. -/
theorem follow_eq_some {α : Type} {heap : TreeMap Ptr α} {o : Option Ptr} {p : Ptr} {a : α}
    (h : (o.bind fun p => heap[p]?.map fun a => (p, a)) = some (p, a)) :
    o = some p ∧ heap[p]? = some a := by
  obtain ⟨q, hq, h⟩ := Option.bind_eq_some_iff.mp h
  obtain ⟨b, hb, h⟩ := Option.map_eq_some_iff.mp h
  cases h
  exact ⟨hq, hb⟩

theorem Tables.deref_eq_some {t : Tables} {o : Option Ptr} {p : Ptr} {a : Allocation}
    (h : t.deref o = some (p, a)) : o = some p ∧ t.heap[p]? = some a := follow_eq_some h

theorem State.held_eq_some {c : Ptr} (h : s.held sock = some (c, x)) :
    s.reading[sock]? = some c ∧ s.conns.heap[c]? = some x := follow_eq_some h

theorem State.nextMessage_held {c : Ptr} (h : s.nextMessage sock = some (c, x, msg)) :
    s.held sock = some (c, x) := by
  unfold nextMessage at h
  split at h
  · cases h
  · rename_i hl
    split at h
    · split at h
      · cases h
      · obtain ⟨m, -, h⟩ := Option.map_eq_some_iff.mp h
        cases h
        exact hl
    · cases h

/-- A data connection dispatches no message. -/
theorem State.nextMessage_isData {c : Ptr} (h : s.nextMessage sock = some (c, x, msg)) :
    x.isData = false := by
  unfold nextMessage at h
  split at h
  · cases h
  · split at h
    · split at h
      · cases h
      · rename_i hd
        obtain ⟨m, -, h⟩ := Option.map_eq_some_iff.mp h
        cases h
        simpa using hd
    · cases h

/-- The pass that dispatches a message. -/
theorem parsePass_of_nextMessage {c : Ptr} (h : s.nextMessage sock = some (c, x, msg)) :
    parsePass cfg env s sock = dispatchStun cfg env (s.advance c) x.peerAddr (some c) msg
      (s.tables.deref s.tables.allocByControlSock[sock]?) := by
  have hheld := State.nextMessage_held h
  have hdata := State.nextMessage_isData h
  simp only [State.nextMessage, hheld] at h
  simp only [parsePass, hheld]
  split at h
  · rename_i data hread
    simp only [hdata, Bool.false_eq_true, if_false, stunMessage] at h
    obtain ⟨m, hm, he⟩ := Option.map_eq_some_iff.mp h
    cases he
    split at hm
    · cases hm
    · rename_i hc
      simp only [hread, handleTcpFrame, hdata, Bool.false_eq_true, if_false, hc, hm]
      rfl
  · cases h

/-- A datagram is ChannelData of an allocation or a message. -/
theorem ioOnUdpData_frame {data : Bytes} (h : P s)
    (hchannel : ∀ p a, isChannelData data = true →
      (s.tables.deref s.tables.allocByClientAddr[src.key]? = some (p, a) ∨
        s.tables.deref (s.tables.findAlloc (allocKey cfg .dgram src)) = some (p, a)) →
      P (handleChannelDataFrame cfg env s data p a))
    (hmsg : ∀ msg, stunMessage data = some msg → P (dispatchStun cfg env s src none msg
      (s.tables.deref (s.tables.findAlloc (allocKey cfg .dgram src))))) :
    P (ioOnUdpData cfg env s data src) := by
  have hpacket : P (handleUdpPacket cfg env s data src) := by
    unfold handleUdpPacket
    by_cases hd : isChannelData data
    · simp only [hd, if_true]
      split
      · rename_i ha
        exact hchannel _ _ hd (.inr ha)
      · exact h
    · simp only [hd, Bool.false_eq_true, if_false]
      split
      · exact h
      · rename_i msg hdec
        exact hmsg msg (by simp [stunMessage, hd, hdec])
  unfold ioOnUdpData
  split
  · rename_i hd
    split
    · rename_i ha
      exact hchannel _ _ hd (.inl ha)
    · exact hpacket
  · exact hpacket

theorem ioOnUdpData_rule {data : Bytes} (hq : Quiet cfg env P) (h : P s)
    (hrelay : ∀ p a peer data, (s.tables.deref s.tables.allocByClientAddr[src.key]? = some (p, a) ∨
      s.tables.deref (s.tables.findAlloc (allocKey cfg .dgram src)) = some (p, a)) →
      P (s.emit (.relay p peer data)))
    (hmsg : ∀ msg, stunMessage data = some msg → P (dispatchStun cfg env s src none msg
      (s.tables.deref (s.tables.findAlloc (allocKey cfg .dgram src))))) :
    P (ioOnUdpData cfg env s data src) :=
  ioOnUdpData_frame h
    (fun _ _ _ ha => hq.handleChannelDataFrame h _ _ _ fun _ _ => hrelay _ _ _ _ ha) hmsg

/-- A pass of the parse loop takes a frame of a data connection, ChannelData of an
allocation or a message. -/
theorem parsePass_frame (h : P s)
    (hadvance : ∀ c conn, s.held sock = some (c, conn) → P (s.advance c))
    (hdone : ∀ s q, P s → P { s.release sock with closeQueue := q })
    (hpipe : ∀ c conn peer data, s.held sock = some (c, conn) → conn.isData = true →
      conn.stunConn.readFrame.1 = .frame data →
      (s.advance c).conns.dataPipePeerRef sock = some peer →
      P ((s.advance c).emit (.pipe c peer data)))
    (hchannel : ∀ c conn data p a, s.held sock = some (c, conn) → conn.isData = false →
      conn.stunConn.readFrame.1 = .frame data → isChannelData data = true →
      s.tables.deref s.tables.allocByControlSock[sock]? = some (p, a) →
      P (handleChannelDataFrame cfg env (s.advance c) data p a))
    (hmsg : ∀ c conn msg, s.nextMessage sock = some (c, conn, msg) →
      P (dispatchStun cfg env (s.advance c) conn.peerAddr (some c) msg
        (s.tables.deref s.tables.allocByControlSock[sock]?))) : P (parsePass cfg env s sock) := by
  unfold parsePass
  split
  case h_1 => exact h
  case h_2 c conn hheld =>
    have hP := hadvance c conn hheld
    have hmsg := hmsg c conn
    have hpipe := fun peer data => hpipe c conn peer data hheld
    have hchannel := fun data p a => hchannel c conn data p a hheld
    simp only [State.nextMessage, hheld] at hmsg
    revert hmsg hpipe hchannel
    cases conn.stunConn.readFrame.1 with
    | none => exact fun _ _ _ => hdone s s.closeQueue h
    | invalid => exact fun _ _ _ => hdone _ _ hP
    | frame data =>
      intro hpipe hchannel hmsg
      show P (handleTcpFrame cfg env (s.advance c) c conn sock data)
      unfold handleTcpFrame
      by_cases hd : conn.isData = true
      · rw [if_pos hd]
        split
        · rename_i peer hpeer
          exact hpipe peer data hd rfl hpeer
        · exact hP
      · rw [if_neg hd]
        by_cases hc : isChannelData data = true
        · simp only [hc, if_true]
          split
          · rename_i ha
            exact hchannel _ _ _ (Bool.eq_false_iff.mpr hd) rfl hc ha
          · exact hP
        · simp only [hc, Bool.false_eq_true, if_false]
          split
          · exact hP
          · rename_i msg hdec
            exact hmsg msg (by simp [hd, stunMessage, hc, hdec])

theorem parsePass_rule (hq : Quiet cfg env P) (h : P s)
    (hadvance : ∀ c conn, s.held sock = some (c, conn) → P (s.advance c))
    (hdone : ∀ s q, P s → P { s.release sock with closeQueue := q })
    (hpipe : ∀ c conn peer data, s.held sock = some (c, conn) → conn.isData = true →
      conn.stunConn.readFrame.1 = .frame data →
      (s.advance c).conns.dataPipePeerRef sock = some peer →
      P ((s.advance c).emit (.pipe c peer data)))
    (hrelay : ∀ c conn p a peer data, s.held sock = some (c, conn) →
      s.tables.deref s.tables.allocByControlSock[sock]? = some (p, a) →
      P ((s.advance c).emit (.relay p peer data)))
    (hmsg : ∀ c conn msg, s.nextMessage sock = some (c, conn, msg) →
      P (dispatchStun cfg env (s.advance c) conn.peerAddr (some c) msg
        (s.tables.deref s.tables.allocByControlSock[sock]?))) : P (parsePass cfg env s sock) :=
  parsePass_frame h hadvance hdone hpipe
    (fun _ _ _ _ _ hheld _ _ _ ha => hq.handleChannelDataFrame (hadvance _ _ hheld) _ _ _
      fun _ _ => hrelay _ _ _ _ _ _ hheld ha) hmsg

/-- The rule for a property that does not look at the tables either. -/
theorem dispatchStun_rule_of_answers (hq : Answering cfg env src conn msg P)
    (ht : ∀ s t n, P s → P { s with tables := t, nextConnId := n }) (h : P s)
    (hbind : msg.cls = .request → msg.method = .connectionBind →
      P (handleConnectionBind cfg env s conn msg))
    (hattempt : ∀ (s' : State) (q : Ptr) target id addr, msg.method = .connect →
      s.tables.heap[q]? = some target → s'.conns = s.conns → P s' →
        P (sendConnectionAttempt env s' target id addr))
    (hrelay : ∀ p a peer data, alloc = some (p, a) → SendsTo msg peer data →
      permitted env.now peer a = true → P (s.emit (.relay p peer data))) :
    P (dispatchStun cfg env s src conn msg alloc) := by
  have hreply (s : State) (h : P s) (t : Tables) {raw : Bytes}
      (hraw : Response msg.transactionID raw) : P (reply { s with tables := t } src conn raw) :=
    hq.reply _ _ hraw (ht s t s.nextConnId h)
  apply dispatchStun_rule hq h
  case hexpired => exact fun p _ _ _ _ => ht s _ s.nextConnId h
  case hallocate =>
    intro s' _ _ _ hs'
    have h' : P s' := by
      obtain ⟨-, rfl⟩ | ⟨p, a, -, -, rfl⟩ := hs'
      · exact h
      · exact ht s _ s.nextConnId h
    unfold handleAllocate
    split
    · exact hq.reply _ _ (.error ..) h'
    · split
      · exact hq.reply _ _ (.error ..) h'
      · split
        · exact hreply s' h' _ (.error ..)
        · exact hreply s' h' _ (.success ..)
  case hrefresh =>
    intro p a _ _
    unfold handleRefresh
    dsimp only
    split
    · exact ht _ _ _ (hq.reply _ _ (.success ..) h)
    · exact hreply s h _ (.success ..)
  case hpermission =>
    intro p a _ _
    obtain ⟨permissions, raw, hraw, heq⟩ := handleCreatePermission_eq cfg env s src conn p msg a
    rw [heq]
    exact hreply s h _ hraw
  case hchannel =>
    intro p a _ _
    obtain ⟨raw, hraw, heq | ⟨channels, permissions, heq⟩⟩ :=
      handleChannelBind_eq cfg env s src conn p msg a
    · rw [heq]
      exact hq.reply _ _ hraw h
    · rw [heq]
      exact hreply s h _ hraw
  case hconnect =>
    rintro c p a rfl _ _ ⟨-, hm, -⟩
    unfold handleConnect
    split
    · exact hq.reply _ _ (.error ..) h
    · split
      · exact hq.reply _ _ (.error ..) h
      · rename_i target htarget
        obtain ⟨q, -, hq⟩ := Option.bind_eq_some_iff.mp htarget
        exact hattempt _ q target _ _ hm hq rfl (ht s _ _ h)
  case hbind => exact hbind
  case hrelay => exact hrelay

theorem dispatchStun_rule_of_tables (hq : Quiet cfg env P)
    (ht : ∀ s t n, P s → P { s with tables := t, nextConnId := n }) (h : P s)
    (hbind : msg.cls = .request → msg.method = .connectionBind →
      P (handleConnectionBind cfg env s conn msg))
    (hrelay : ∀ p peer data, P (s.emit (.relay p peer data))) :
    P (dispatchStun cfg env s src conn msg alloc) := by
  refine dispatchStun_rule_of_answers hq.answering ht h hbind
    (fun s' _ target id addr _ _ _ h => ?_)
    fun p _ peer data _ _ _ => hrelay p peer data
  unfold sendConnectionAttempt
  dsimp only
  split
  · exact hq.tcp _ _ _ h
  · exact h

/-- The rule for a property that a CONNECTION-BIND leaves alone too. -/
theorem dispatchStun_rule_of_fixed (hq : Quiet cfg env P)
    (ht : ∀ s t n, P s → P { s with tables := t, nextConnId := n })
    (hfixed : ∀ s' : State, s'.fixed = s.fixed → P s')
    (hrelay : ∀ p peer data, P (s.emit (.relay p peer data))) :
    P (dispatchStun cfg env s src conn msg alloc) := by
  have h : P s := hfixed s rfl
  refine dispatchStun_rule_of_tables hq ht h (fun _ _ => ?_) hrelay
  apply handleConnectionBind_rule (fun _ => hq.answering) h
  · exact fun _ _ _ _ _ _ _ _ _ _ _ _ _ => hfixed _ (bindFirst_fixed ..)
  · exact fun _ _ _ _ _ _ _ _ _ _ _ _ _ => hfixed _ (bindSecond_fixed ..)

theorem shortcutTarget_eq_some {t : Tables} {peer : AddrRecord} {p : Ptr} {b : Allocation}
    (h : shortcutTarget cfg t peer p = some b) :
    ∃ q, t.allocByRelayAddr[peer.key]? = some q ∧ t.heap[q]? = some b ∧
      b.controlSock = invalidSocket ∧ b.hasRelay = true := by
  unfold shortcutTarget at h
  split at h
  · split at h
    · cases h
    · rename_i q hq
      split at h
      · rename_i dst hdst
        split at h
        · rename_i hok
          cases h
          exact ⟨q, hq, hdst, hok.2⟩
        · cases h
      · cases h
  · cases h

end Stice.Server
