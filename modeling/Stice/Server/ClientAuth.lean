import Stice.Server.Integrity
import Stice.Server.Updates
import Stice.Turn.Credentials
import Stice.Turn.Lifecycle

/-! The client and the server agree on authentication: a request that the client
encodes with what it read from a 401 or 438 of the server is accepted for as long as
the server keeps its nonce, and it keeps it until it has expired. -/
namespace Stice.Server
open Std Net Stun Turn Lib

/-! ## The nonce -/

/-- The nonce with its expiry time. -/
def State.clock (s : State) : Bytes × Int := (s.nonce, s.nonceExpiryMs)

theorem clock_of_fixed {s s' : State} (h : s'.fixed = s.fixed) : s'.clock = s.clock :=
  congrArg (fun x => (x.1, x.2.1)) h

variable {cfg : Config} {env : Env} {s : State}

/-- Before the nonce expires, `P` may look at it. -/
theorem Quiet.clock (h : env.now < s.nonceExpiryMs) :
    Quiet cfg env fun s' => s'.clock = s.clock where
  udp _ _ _ h := h
  tcp _ _ _ h := h
  nonce s' hexpired hs := by
    have he : s'.nonceExpiryMs = s.nonceExpiryMs := congrArg Prod.snd hs
    rw [he] at hexpired
    exact absurd h (Int.not_lt.mpr hexpired)

theorem dispatchStun_clock (h : env.now < s.nonceExpiryMs) (src : AddrRecord) (conn : Option Ptr)
    (msg : Message) (alloc : Option (Ptr × Allocation)) :
    (dispatchStun cfg env s src conn msg alloc).clock = s.clock := by
  have hq : Quiet cfg env fun s' => s'.clock = s.clock := .clock h
  exact dispatchStun_rule_of_fixed (P := fun s' => s'.clock = s.clock) hq (fun _ _ _ h => h)
    (fun _ => clock_of_fixed) fun _ _ _ => rfl

/-- No event before its expiry changes the nonce. -/
theorem step_clock (e : Event) (h : env.now < s.nonceExpiryMs) :
    (step cfg s (e, env)).clock = s.clock := by
  have hq : Quiet cfg env fun s' => s'.clock = s.clock := .clock h
  cases e with
  | udpData data ip port =>
    exact ioOnUdpData_rule (P := fun s' => s'.clock = s.clock) hq rfl (fun _ _ _ _ _ => rfl)
      fun msg _ => dispatchStun_clock h _ _ _ _
  | relayData sock data ip port =>
    exact Quiet.ioOnRelayData (P := fun s' => s'.clock = s.clock) hq rfl _ _ _
  | tcpAccepted sock ip port hv => rfl
  | tcpReceive sock data =>
    obtain ⟨_, _, _, _, heq, -⟩ := receive_eq s sock data
    show (receive s sock data).clock = s.clock
    rw [heq]
    rfl
  | tcpParse sock =>
    exact parsePass_rule (P := fun s' => s'.clock = s.clock) hq rfl (fun _ _ _ => rfl)
      (fun _ _ h => h) (fun _ _ _ _ _ _ _ _ => rfl) (fun _ _ _ _ _ _ _ _ => rfl)
      fun c conn msg _ => dispatchStun_clock (s := s.advance c) h _ _ _ _
  | tcpConnClosed sock =>
    show (closeTcpConn cfg s sock).clock = s.clock
    unfold closeTcpConn
    split
    · rfl
    · split <;> rfl
  | tick =>
    show (expireStale cfg env s).clock = s.clock
    simp only [expireStale]
    rw [if_neg (Int.not_le.mpr h)]
    rfl
  | reap => rfl

/-! ## Capturing the credentials -/

theorem decodeType_method_lt (type : UInt16) : (decodeType type).1.toNat < 4096 := by
  have h (x y : UInt16) (hy : y.toNat < 2 ^ 12) : (x &&& y).toNat < 2 ^ 12 := by
    rw [UInt16.toNat_and]
    exact Nat.and_lt_two_pow _ hy
  simp only [decodeType, UInt16.toNat_or]
  exact Nat.or_lt_two_pow (Nat.or_lt_two_pow (h _ _ (by decide)) (h _ _ (by decide)))
    (h _ _ (by decide))

theorem decode_method_lt {data : Bytes} {m : Message} (h : decode data = some m) :
    m.method.toNat < 4096 := by
  unfold decode at h
  split at h
  · dsimp only at h
    split at h
    · cases h
    · obtain ⟨_, -, rfl⟩ := Option.map_eq_some_iff.mp h
      exact decodeType_method_lt _
  · cases h

/-- What the client reads from a 401 or 438 of the server. -/
theorem decode_authErrorResponse {req : Message} {code : Nat} (hreq : req.method.toNat < 4096)
    (hrealm : cfg.realm.length < 700) (hnonce : s.nonce.length < 700)
    (hcode : code = 401 ∨ code = 438) :
    ∃ m, decode (authErrorResponse cfg s req code) = some m ∧ m.cls = .errorResponse ∧
      m.transactionID = req.transactionID ∧ (Client.errorOf m).1 = code ∧
      getString m .realm = cfg.realm ∧ getString m .nonce = s.nonce := by
  let resp := ((addErrorCode (response req.method .errorResponse req.transactionID)
    code).addAttribute
    .realm cfg.realm).addAttribute .nonce s.nonce
  have hreason : (errorReason code).length ≤ 16 := by
    obtain rfl | rfl := hcode <;> decide
  have hsoft : serverName.length = 8 := rfl
  have hfp := length_tlv_fingerprintOver (resp.signedAttributes none none (some serverName)) resp
  have hattrs : resp.encodedAttributes none none (some serverName) =
      [⟨.errorCode, [0, 0, UInt8.ofNat (code / 100) &&& 0x07, UInt8.ofNat (code % 100)] ++
          errorReason code⟩, ⟨.realm, cfg.realm⟩, ⟨.nonce, s.nonce⟩, ⟨.software, serverName⟩,
        resp.fingerprintOver (resp.signedAttributes none none (some serverName))] := rfl
  have hlen : (tlvs (resp.encodedAttributes none none (some serverName))).length < 65536 := by
    rw [hattrs]
    simp only [tlvs_cons, tlvs_nil, List.append_nil, List.length_append, hfp]
    simp only [length_tlv, paddedSize, List.length_append, List.length_cons, List.length_nil, hsoft]
    omega
  refine ⟨_, decode_raw resp none none (some serverName) hreq hlen, rfl, rfl, ?_, ?_, ?_⟩
  · obtain rfl | rfl := hcode <;> rfl
  · rfl
  · rfl

/-- The server accepts these bytes as a request of the user, in every state with that
nonce before its expiry. -/
def Accepted (cfg : Config) (username nonce raw : Bytes) : Prop :=
  ∃ d, decode raw = some d ∧ getString d .username = username ∧
    ∀ s env, s.nonce = nonce → env.now < s.nonceExpiryMs → authenticate cfg env s d = (0, s)

/-- A request encoded with credentials of a registered user is accepted under their
nonce. -/
theorem accepted_prepareRequest {c : Client} {k : Credentials} {m : Message}
    (hm : Client.Built m) (hk : c.creds = some k) (hname : k.username ≠ [])
    (hshort : Client.Short k) (huser : cfg.users[k.username]? = some c.cfg.password) :
    Accepted cfg k.username k.nonce (c.prepareRequest m).2.raw := by
  obtain ⟨d, hd, hu, hr, hn, hmi, hint⟩ := Client.decode_prepareRequest hm hk hname hshort
  refine ⟨d, hd, hu, fun s env hnonce hexp => ?_⟩
  unfold authenticate
  rw [if_neg (by simpa [Option.isSome_iff_ne_none] using hmi), if_neg (Int.not_le.mpr hexp),
    if_neg (by simp [hn, hnonce]), hu, hr]
  dsimp only
  rw [huser]
  dsimp only
  rw [if_pos hint]

/-- The client holds what this server sent with the nonce `nonce`. -/
def Captured (cfg : Config) (nonce : Bytes) (c : Client) : Prop :=
  c.login.2 = some (c.cfg.username, cfg.realm, nonce)

theorem Captured.of_login {nonce : Bytes} {c c' : Client} (h : Captured cfg nonce c)
    (hl : c'.login = c.login) : Captured cfg nonce c' := by
  have hcfg : c'.cfg = c.cfg := congrArg Prod.fst hl
  rw [Captured, hl, hcfg]
  exact h

theorem Captured.accepted {nonce : Bytes} {c : Client} (h : Captured cfg nonce c)
    (huser : cfg.users[c.cfg.username]? = some c.cfg.password) (hname : c.cfg.username ≠ [])
    (hshort : c.cfg.username.length < 700 ∧ cfg.realm.length < 700 ∧ nonce.length < 700)
    {m : Message} (hm : Client.Built m) :
    Accepted cfg c.cfg.username nonce (c.prepareRequest m).2.raw := by
  obtain ⟨k, hk, hkey⟩ := Option.map_eq_some_iff.mp h
  simp only [Prod.mk.injEq] at hkey
  obtain ⟨hu, hr, hn⟩ := hkey
  rw [← hu] at huser hname hshort ⊢
  rw [← hr, ← hn] at hshort
  rw [← hn]
  have hfits : Client.Short k := by
    unfold Client.Short
    omega
  exact accepted_prepareRequest hm hk hname hfits huser

/-- A retry after a 401 of the server, or after a 438 with the name and realm of an
earlier 401 of the server, captures its nonce. -/
theorem captured_of_handleAuthError {c : Client} {m : Message} {code : Nat} {retryAuthed : Bool}
    {nonce : Bytes} (h : (c.handleAuthError m code retryAuthed).1 = true)
    (hrealm : getString m .realm = cfg.realm) (hnonce : getString m .nonce = nonce)
    (hcode : code = 401 ∨ code = 438 ∧ ∃ old, Captured cfg old c) :
    ∃ creds n, (∀ d : Client, d.cfg = c.cfg → d.creds = c.creds →
        d.nonceRetries = c.nonceRetries →
        d.handleAuthError m code retryAuthed = (true, d.withAuth creds n)) ∧
      creds.map (fun k => (k.username, k.realm, k.nonce)) =
        some (c.cfg.username, cfg.realm, nonce) := by
  unfold Client.handleAuthError at h ⊢
  obtain rfl | ⟨rfl, old, hold⟩ := hcode
  · simp only [if_true] at h ⊢
    split at h
    · cases h
    · rename_i h₁
      split at h
      · cases h
      · rename_i h₂
        refine ⟨some { (c.creds.getD ⟨[], [], [], []⟩) with
          username := c.cfg.username, realm := getString m .realm, nonce := getString m .nonce },
          c.nonceRetries + 1, fun d hcfg hcreds hn => ?_, ?_⟩
        · rw [hcreds, hn, if_neg h₁, if_neg h₂, ← hcfg]
          rfl
        · simp [hrealm, hnonce]
  · simp only [show ¬ 438 = 401 by decide, if_false, if_true] at h ⊢
    split at h
    · cases h
    · rename_i h₁
      obtain ⟨k, hk, hkey⟩ := Option.map_eq_some_iff.mp hold
      simp only [Prod.mk.injEq] at hkey
      refine ⟨c.creds.map fun k => { k with nonce := getString m .nonce }, c.nonceRetries + 1,
        fun d hcfg hcreds hn => ?_, ?_⟩
      · rw [hcreds, hn, if_neg h₁]
        rfl
      · simp [hk, hkey, hnonce]

/-- A client whose retry after a 401 or 438 of the server is under way holds the nonce
of the server, and the request sent again is encoded with it. -/
theorem captured_of_call {env : ClientEnv} {c : Client} {data : Bytes} {m : Message}
    {tx : PendingTx} {nonce : Bytes}
    (hresp : c.responseOf (.handleInbound (some data)) = some (m, tx))
    (hkind : ∀ peer, tx.kind ≠ .connect peer) (hcls : m.cls = .errorResponse)
    (hretry : (c.handleAuthError m (Client.errorOf m).1 (tx.kind ≠ .allocate)).1 = true)
    (hrealm : getString m .realm = cfg.realm) (hnonce : getString m .nonce = nonce)
    (hcode : (Client.errorOf m).1 = 401 ∨ (Client.errorOf m).1 = 438 ∧ ∃ old, Captured cfg old c) :
    ∃ d : Client, Captured cfg nonce d ∧ d.cfg = c.cfg ∧
      (∀ (k : Bytes) (tx : PendingTx), d.pending[k]? = some tx → c.pending[k]? = some tx) ∧
      Client.Keeps d (c.call env (.handleInbound (some data))) ∧
      ∃ tx' : PendingTx, (c.call env (.handleInbound (some data))).pending[(env.tid c.drawn).1]? =
        some tx' ∧ tx'.kind = tx.kind ∧ Client.Prepared d.login tx'.request := by
  obtain ⟨creds, n, hauth, hcreds⟩ := captured_of_handleAuthError hretry hrealm hnonce hcode
  have hcall := Client.call_of_responseOf env hresp
  obtain ⟨d, build, heq, hd, hbuilt⟩ := @Client.retry_eq env c m tx creds n
    (Client.responseOf_pending hresp) hkind hcls (hcode.imp id And.left) hauth
  refine ⟨d, ?_, hd.cfg, fun k tx h => ?_, ?_, ?_⟩
  · rw [Captured, hd.cfg]
    show d.creds.map _ = _
    rw [hd.creds]
    exact hcreds
  · rw [hd.pending] at h
    exact (getElem?_erase_some h).2
  · rw [hcall, heq]
    exact (Client.passive_keeps env).start d _ _ hbuilt
  · rw [hcall, heq, ← hd.drawn]
    refine ⟨⟨tx.kind, env.now + turnRtoMs, 0, Client.txRequest env d build⟩, ?_, rfl, ?_⟩
    · rw [Client.startTx_eq]
      exact TreeMap.getElem?_insert_self
    · exact ⟨d, _, rfl, hbuilt _, rfl⟩

/-- Client and server agree on authentication. The client follows a 401 or 438 that the
server sent in the state `s₀`. Then the server accepts the request that is sent again,
every transaction that is started until the next 401 or 438, and every ConnectionBind
request built until then, in every state with the same nonce before its expiry. And no
event changes the nonce before its expiry. -/
theorem client_requests_authenticate {env : ClientEnv} {s₀ : State} {c : Client} {data : Bytes}
    {req m : Message} {tx : PendingTx} {code : Nat}
    (huser : cfg.users[c.cfg.username]? = some c.cfg.password) (hname : c.cfg.username ≠ [])
    (hshort : c.cfg.username.length < 700 ∧ cfg.realm.length < 700 ∧ s₀.nonce.length < 700)
    (hreq : decode data = some req) (hcode : code = 401 ∨ code = 438 ∧ ∃ old, Captured cfg old c)
    (hresp : c.responseOf (.handleInbound (some (authErrorResponse cfg s₀ req code))) =
      some (m, tx)) (hkind : ∀ peer, tx.kind ≠ .connect peer)
    (hretry : (c.handleAuthError m code (tx.kind ≠ .allocate)).1 = true) :
    let c₁ := c.call env (.handleInbound (some (authErrorResponse cfg s₀ req code)))
    (∃ tx' : PendingTx, c₁.pending[(env.tid c.drawn).1]? = some tx' ∧ tx'.kind = tx.kind ∧
      Accepted cfg c.cfg.username s₀.nonce tx'.request.raw) ∧
    (∀ c₂, Reach (· = c₁) (Guarded (fun c i => c.authError i.2 = false) Client.step) c₂ →
      (∀ (k : Bytes) (tx' : PendingTx), c₂.pending[k]? = some tx' →
        (∃ tx : PendingTx, c.pending[k]? = some tx ∧ tx'.request = tx.request) ∨
          Accepted cfg c.cfg.username s₀.nonce tx'.request.raw) ∧
      ∀ env id, Accepted cfg c.cfg.username s₀.nonce
        (c₂.buildConnectionBindRequest env id).2.raw) ∧
    ∀ s e env, (step cfg s (e, env)).nonce ≠ s.nonce → s.nonceExpiryMs ≤ env.now := by
  obtain ⟨m', hm', hcls, -, hc, hr, hn⟩ := @decode_authErrorResponse cfg s₀ req code
    (decode_method_lt hreq) hshort.2.1 hshort.2.2 (hcode.imp id And.left)
  generalize authErrorResponse cfg s₀ req code = raw at hresp hm' ⊢
  intro c₁
  obtain rfl : m = m' := by
    obtain ⟨_, he, -, hm, -⟩ := Client.responseOf_some hresp
    cases he
    exact Option.some.inj (hm.symm.trans hm')
  rw [← hc] at hretry hcode
  obtain ⟨d, hcap, hcfg, hpending, hkeeps, tx', htx', hk', hprep⟩ :=
    @captured_of_call cfg env c _ m tx s₀.nonce hresp hkind hcls hretry hr hn hcode
  -- what is encoded with the login of `d` is accepted
  have haccepted {r : Message} (h : Client.Prepared d.login r) :
      Accepted cfg c.cfg.username s₀.nonce r.raw := by
    obtain ⟨b, request, hl, hb, rfl⟩ := h
    have hb' : b.cfg = c.cfg := (congrArg Prod.fst hl).trans hcfg
    rw [← hb'] at huser hname hshort ⊢
    exact (hcap.of_login hl).accepted huser hname hshort hb
  refine ⟨⟨tx', htx', hk', haccepted hprep⟩, fun c₂ hrun => ?_, fun s e env hne => ?_⟩
  · have hrun : Client.Keeps d c₂ := by
      refine Reach.invariant (P := fun c₂ => Client.Keeps d c₂) ?_ ?_ hrun
      · rintro _ rfl
        exact hkeeps
      · rintro b i _ hb ⟨hok, rfl⟩
        exact hb.trans (.call i.1 b i.2 hok)
    refine ⟨fun k tx₂ h => ?_, fun env id => ?_⟩
    · obtain ⟨tx₀, h₀, hr⟩ | h := hrun.pending k tx₂ h
      · exact .inl ⟨tx₀, hpending k tx₀ h₀, hr⟩
      · exact .inr (haccepted h)
    · exact haccepted ⟨{ c₂ with drawn := c₂.drawn + 1 }, _, hrun.login, .connectionBind _ id, rfl⟩
  · refine Decidable.byContradiction fun hlt => hne ?_
    exact congrArg Prod.fst (step_clock e (Int.not_le.mp hlt))

/-- The unsigned Allocate of a client with the account of the small server is answered
by 401, and the Allocate that the client sends next is accepted. -/
theorem client_requests_authenticate_allocate :
    let s₀ := State.start smallConfig smallEnv
    let c := Client.smallClient.allocate (Client.clientEnv 0)
    ∃ (tx tx' : PendingTx) (req : Message), c.pending[(Client.numberedTid 0).1]? = some tx ∧
      decode tx.request.raw = some req ∧
      (c.call (Client.clientEnv 0) (.handleInbound (some (authErrorResponse smallConfig s₀ req
        401)))).pending[(Client.numberedTid 1).1]? = some tx' ∧
      Accepted smallConfig (ascii "u") s₀.nonce tx'.request.raw := by
  intro s₀ c
  have hfirst : ((c.pending[(Client.numberedTid 0).1]?).any fun tx => (decode tx.request.raw).any
      fun req => (c.responseOf (.handleInbound (some (authErrorResponse smallConfig s₀ req
        401)))).any fun r => r.2.kind = .allocate && (c.handleAuthError r.1 401 false).1) =
          true := by
    decide +kernel
  have hshort : c.cfg.username.length < 700 ∧ smallConfig.realm.length < 700 ∧
    s₀.nonce.length < 700 := by decide
  obtain ⟨tx, htx, h⟩ := (Option.any_eq_true _ _).mp hfirst
  obtain ⟨req, hreq, h⟩ := (Option.any_eq_true _ _).mp h
  obtain ⟨⟨m, tx₀⟩, hresp, h⟩ := (Option.any_eq_true _ _).mp h
  simp only [Bool.and_eq_true, decide_eq_true_eq] at h
  obtain ⟨⟨tx', htx', -, haccepted⟩, -⟩ := @client_requests_authenticate smallConfig
    (Client.clientEnv 0) s₀ c tx.request.raw req m tx₀ 401 (by decide +kernel) (by decide) hshort
    hreq (.inl rfl) hresp (by simp [h.1]) (by simp [h.1, h.2])
  exact ⟨tx, tx', req, htx, hreq, htx', haccepted⟩

end Stice.Server
