import Stice.Lib.Reach
import Stice.Server.Ownership

/-! Integrity of the allocation tables over whole runs. An Allocate that takes a
key in use breaks it; a TCP allocation without a control connection leaves an
entry for the invalid socket behind, which `destroyAllocation` does not look
for. -/
namespace Stice.Server
open Std Net Stun Turn Lib

variable {cfg : Config} {t : Tables} {p : Ptr}

/-! ## Handlers -/

variable {env : Env} {s : State} {src : AddrRecord} {conn : Option Ptr} {msg : Message}
variable {transport : SockType} {sock : Socket}

theorem newAllocation_control {env : Env} {n : UInt16}
    (hv : (newAllocation cfg env s src conn msg transport sock n).controlSock ≠ invalidSocket) :
    ∃ c x, conn = some c ∧ s.conns.heap[c]? = some x ∧
      (newAllocation cfg env s src conn msg transport sock n).controlSock = x.sock := by
  simp only [newAllocation] at hv ⊢
  cases hx : conn.bind fun c => s.conns.heap[c]? with
  | none => simp [hx] at hv
  | some x =>
    obtain ⟨c, hc, hx⟩ := Option.bind_eq_some_iff.mp hx
    exact ⟨c, x, hc, hx, rfl⟩

theorem handleAllocate_owned (h : Owned cfg none s.tables)
    (hkey : ∀ transport, requestedTransport msg = some transport →
      s.tables.allocations[allocKey cfg transport src]? = none)
    (hfree : ∀ c x, conn = some c → s.conns.heap[c]? = some x → x.sock ≠ invalidSocket →
      s.tables.allocByControlSock[x.sock]? = none)
    (hstream : requestedTransport msg = some .stream →
      ∃ c x, conn = some c ∧ s.conns.heap[c]? = some x ∧ x.sock ≠ invalidSocket) :
    Owned cfg none (handleAllocate cfg env s src conn msg).tables := by
  unfold handleAllocate
  split
  · simpa [replyError] using h
  · rename_i transport htr
    split
    · simpa [replyError] using h
    · obtain ⟨m, ⟨heq, hm⟩ | ⟨sock, n, heq, hm⟩⟩ := h.reserveRelay env transport
      · simpa [replyError, heq] using hm
      · simp only [heq, reply_tables]
        refine Owned.register hm (hkey transport htr) (fun hv => ?_) (fun hv => ?_) fun hs => ?_
        · obtain ⟨c, x, rfl, -⟩ := newAllocation_control hv
          rfl
        · obtain ⟨c, x, hc, hx, heq⟩ := newAllocation_control hv
          rw [heq] at hv ⊢
          exact hfree c x hc hx hv
        · obtain ⟨c, x, rfl, hx, hv⟩ := hstream (htr.trans (congrArg some hs))
          simpa [newAllocation, hx] using hv

theorem handleRefresh_owned (h : Owned cfg none s.tables) (p : Ptr) (a : Allocation) :
    Owned cfg none (handleRefresh cfg env s src conn msg p a).tables := by
  unfold handleRefresh
  dsimp only
  split
  · simpa using h.destroyAllocation p
  · rw [reply_tables, updateAlloc_tables]
    exact h.update p (fun _ => ⟨rfl, rfl, rfl, rfl, rfl, rfl⟩) fun _ => rfl

theorem handleConnect_owned (h : Owned cfg none s.tables) (c p : Ptr) (a : Allocation)
    (ha : s.tables.heap[p]? = some a) :
    Owned cfg none (handleConnect env s c msg p a).tables := by
  obtain heq | ⟨pc, -, heq⟩ := handleConnect_tables env s c p msg a
  · rw [heq]
    exact h
  · rw [heq]
    refine h.modify p (fun _ => ⟨rfl, rfl, rfl, rfl, rfl, rfl⟩) fun id q hq => ?_
    obtain ⟨rfl, rfl⟩ | ⟨-, hq⟩ := getElem?_insert_some hq
    · exact Tables.Holds.modify (Q := fun _ => True) ⟨a, ha, trivial⟩
        (fun _ hne _ => absurd rfl hne) (by simp)
    · exact (h.pending hq).modify (fun _ _ e => e) fun a _ e => by
        rw [List.map_append]
        exact List.mem_append_left _ e

theorem map_connId_updatePending (id : UInt32) {f : PendingConnect → PendingConnect}
    (hf : ∀ pc, (f pc).connId = pc.connId) (pcs : List PendingConnect) :
    (updatePending id f pcs).map PendingConnect.connId = pcs.map PendingConnect.connId := by
  induction pcs with
  | nil => rfl
  | cons pc pcs ih =>
    by_cases hid : pc.connId = id
    · simp [updatePending, hid, hf]
    · simp [updatePending, hid, ih]

theorem handleConnectionBind_owned (h : Owned cfg none s.tables) :
    Owned cfg none (handleConnectionBind cfg env s conn msg).tables := by
  apply handleConnectionBind_rule (P := fun s => Owned cfg none s.tables)
    (fun _ => (Quiet.of_tables_conns cfg env fun t _ => Owned cfg none t).answering) h
  · intro c x id p connector pc _ _ _ _ _ _ _
    rw [bindFirst_tables]
    refine h.update p (fun _ => ⟨rfl, rfl, rfl, rfl, rfl, rfl⟩) fun a => ?_
    apply map_connId_updatePending
    exact fun _ => rfl
  · intro c x id p connector pc _ _ _ _ _ _ _
    rw [bindSecond_tables]
    refine h.modify p (fun _ => ⟨rfl, rfl, rfl, rfl, rfl, rfl⟩) fun id' q hq => ?_
    obtain ⟨hne, hq⟩ := getElem?_erase_some hq
    refine (h.pending hq).modify (fun _ _ e => e) fun a _ e => ?_
    obtain ⟨pc, hpc, rfl⟩ := List.mem_map.mp e
    exact List.mem_map.mpr ⟨pc, List.mem_filter.mpr ⟨hpc, by simpa using hne⟩, rfl⟩

/-- The lookup found every allocation that a new one would displace. -/
structure Found (cfg : Config) (s : State) (src : AddrRecord) (conn : Option Ptr)
    (transport : SockType) (alloc : Option (Ptr × Allocation)) : Prop where
  key : ∀ q, s.tables.allocations[allocKey cfg transport src]? = some q →
    alloc.map Prod.fst = some q
  control : ∀ c x q, conn = some c → s.conns.heap[c]? = some x → x.sock ≠ invalidSocket →
    s.tables.allocByControlSock[x.sock]? = some q → alloc.map Prod.fst = some q

/-- Once an expired allocation is gone, nothing is in the way of a new one. -/
theorem Found.free {alloc : Option (Ptr × Allocation)} {s' : State}
    (hf : Found cfg s src conn transport alloc) (h : Owned cfg none s.tables)
    (halloc : ∀ p a, alloc = some (p, a) → s.tables.heap[p]? = some a)
    (hs' : alloc = none ∧ s' = s ∨ ∃ p a, alloc = some (p, a) ∧ a.expiryMs ≤ env.now ∧
      s' = { s with tables := Tables.destroyAllocation cfg p s.tables }) :
    Owned cfg none s'.tables ∧ s'.tables.allocations[allocKey cfg transport src]? = none ∧
      ∀ c x, conn = some c → s'.conns.heap[c]? = some x → x.sock ≠ invalidSocket →
        s'.tables.allocByControlSock[x.sock]? = none := by
  obtain ⟨rfl, rfl⟩ | ⟨p, a, rfl, -, rfl⟩ := hs'
  · refine ⟨h, ?_, fun c x hc hx hv => ?_⟩
    · exact Option.eq_none_iff_forall_ne_some.mpr fun q hq => nomatch hf.key q hq
    · exact Option.eq_none_iff_forall_ne_some.mpr fun q hq => nomatch hf.control c x q hc hx hv hq
  · have ha := halloc p a rfl
    refine ⟨h.destroyAllocation p, ?_, fun c x hc hx hv => ?_⟩
    · simp only [Tables.destroyAllocation_eq h ha]
      refine Option.eq_none_iff_forall_ne_some.mpr fun q hq => ?_
      obtain ⟨hne, hq⟩ := getElem?_erase_some hq
      cases hf.key q hq
      obtain ⟨b, hb, hbk⟩ := h.entry hq
      rw [ha] at hb
      cases hb
      exact hne hbk.symm
    · refine Option.eq_none_iff_forall_ne_some.mpr fun q hq => ?_
      obtain ⟨b, hb, hbs⟩ := (h.destroyAllocation p).controlSock hq hv
      simp only [Tables.destroyAllocation_eq h ha] at hb
      obtain ⟨hne, hb⟩ := getElem?_erase_some hb
      cases hf.control c x q hc hx hv (hbs ▸ h.control hb (hbs ▸ hv))
      exact hne rfl

theorem dispatchStun_owned {alloc : Option (Ptr × Allocation)} (h : Owned cfg none s.tables)
    (halloc : ∀ p a, alloc = some (p, a) → s.tables.heap[p]? = some a)
    (hfound : ∀ transport, msg.cls = .request → msg.method = .allocate →
      requestedTransport msg = some transport → (authenticate cfg env s msg).1 = 0 →
      Found cfg s src conn transport alloc)
    (hstream : msg.cls = .request → msg.method = .allocate →
      requestedTransport msg = some .stream → (authenticate cfg env s msg).1 = 0 →
      ∃ c x, conn = some c ∧ s.conns.heap[c]? = some x ∧ x.sock ≠ invalidSocket) :
    Owned cfg none (dispatchStun cfg env s src conn msg alloc).tables := by
  apply dispatchStun_rule (P := fun s => Owned cfg none s.tables)
    (Quiet.of_tables_conns cfg env fun t _ => Owned cfg none t).answering h
  case hexpired => exact fun p _ _ _ _ => h.destroyAllocation p
  case hallocate =>
    intro s' hc hm hauth hs'
    have hconns : s'.conns = s.conns := by
      obtain ⟨-, rfl⟩ | ⟨p, a, -, -, rfl⟩ := hs'
      · rfl
      · rfl
    have howned : Owned cfg none s'.tables := by
      obtain ⟨-, rfl⟩ | ⟨p, a, -, -, rfl⟩ := hs'
      · exact h
      · exact h.destroyAllocation p
    cases htr : requestedTransport msg with
    | none => simpa [handleAllocate, htr, replyError] using howned
    | some transport =>
      obtain ⟨-, hkey, hfree⟩ := (hfound transport hc hm htr hauth).free h halloc hs'
      refine handleAllocate_owned howned (fun tr e => ?_) hfree fun htr => ?_
      · cases htr.symm.trans e
        exact hkey
      · rw [hconns]
        exact hstream hc hm htr hauth
  case hrefresh => exact fun p a _ _ => handleRefresh_owned h p a
  case hpermission =>
    intro p a _ _
    obtain ⟨permissions, raw, -, heq⟩ := handleCreatePermission_eq cfg env s src conn p msg a
    rw [heq, reply_tables, updateAlloc_tables]
    exact h.update p (fun _ => ⟨rfl, rfl, rfl, rfl, rfl, rfl⟩) fun _ => rfl
  case hchannel =>
    intro p a _ _
    obtain ⟨raw, -, heq | ⟨channels, permissions, heq⟩⟩ :=
      handleChannelBind_eq cfg env s src conn p msg a
    · rw [heq, reply_tables]
      exact h
    · rw [heq, reply_tables, updateAlloc_tables]
      exact h.update p (fun _ => ⟨rfl, rfl, rfl, rfl, rfl, rfl⟩) fun _ => rfl
  case hconnect => exact fun c p a _ ha _ _ => handleConnect_owned h c p a (halloc p a ha)
  case hbind => exact fun _ _ => handleConnectionBind_owned h
  case hrelay => exact fun _ _ _ _ _ _ _ => h

/-! ## Runs -/

/-- An authenticated request for an allocation. -/
def Allocates (cfg : Config) (env : Env) (s : State) (msg : Message) (transport : SockType) :
    Prop :=
  msg.cls = .request ∧ msg.method = .allocate ∧ requestedTransport msg = some transport ∧
    (authenticate cfg env s msg).1 = 0

/-- The condition on one event: an allocation over UDP relays UDP; one over a TCP
connection takes a key that is free or held by that connection's allocation, and
relays TCP only if the connection has not been closed since its chunk came. -/
def KeepsKeys (cfg : Config) (s : State) (e : Event × Env) : Prop :=
  match e.1 with
  | .udpData data _ _ => ∀ msg, stunMessage data = some msg → ¬Allocates cfg e.2 s msg .stream
  | .tcpParse sock => ∀ c conn msg transport, s.nextMessage sock = some (c, conn, msg) →
      Allocates cfg e.2 s msg transport →
      (∀ p, s.tables.allocations[allocKey cfg transport conn.peerAddr]? = some p →
        s.tables.allocByControlSock[sock]? = some p) ∧
      (transport = .stream → conn.sock ≠ invalidSocket)
  | _ => True

theorem udp_found (h : Owned cfg none s.tables) {data : Bytes} {ip : Ip} {port : UInt16}
    (he : KeepsKeys cfg s (.udpData data ip port, env)) (hmsg : stunMessage data = some msg)
    (ha : Allocates cfg env s msg transport) :
    Found cfg s ⟨ip, port, .dgram⟩ none transport
      (s.tables.deref (s.tables.findAlloc (allocKey cfg .dgram ⟨ip, port, .dgram⟩))) := by
  refine ⟨fun q hq => ?_, fun c x q hc => nomatch hc⟩
  cases transport with
  | stream => exact absurd ha (he msg hmsg)
  | dgram =>
    rw [Tables.findAlloc, hq]
    exact Tables.deref_of_holds (h.entry hq)

/-- Taking a frame leaves the connection its number. -/
theorem advance_conn {c : Ptr} {x : TcpConn} (h : s.held sock = some (c, x)) :
    ∃ y, (s.advance c).conns.heap[c]? = some y ∧ y.sock = x.sock :=
  getElem?_modify_of_some (Q := fun y : TcpConn => y.sock = x.sock) (State.held_eq_some h).2 c
    (fun conn => { conn with stunConn := conn.stunConn.readFrame.2 }) (fun _ => rfl) fun _ => rfl

theorem tcp_found (h : Owned cfg none s.tables) (hk : s.HeldOk) {c : Ptr} {x : TcpConn}
    (he : KeepsKeys cfg s (.tcpParse sock, env))
    (hmsg : s.nextMessage sock = some (c, x, msg)) (ha : Allocates cfg env s msg transport) :
    Found cfg (s.advance c) x.peerAddr (some c) transport
      (s.tables.deref s.tables.allocByControlSock[sock]?) := by
  have hheld := State.nextMessage_held hmsg
  constructor
  · intro q hq
    rw [(he c x msg transport hmsg ha).1 q hq]
    exact Tables.deref_of_holds (h.entry hq)
  · intro c' z q hc' hz hv hq
    cases hc'
    obtain ⟨y, hy, hs⟩ := advance_conn hheld
    cases hy.symm.trans hz
    -- a connection that still has a number has the one its chunk came with
    obtain ⟨hreading, hx⟩ := State.held_eq_some hheld
    obtain ⟨x', hx', hsock | hsock⟩ := hk sock c hreading
    · cases hx.symm.trans hx'
      rw [hs, hsock] at hq hv
      have hq : s.tables.allocByControlSock[sock]? = some q := hq
      rw [hq]
      exact Tables.deref_of_holds (h.controlSock hq hv)
    · cases hx.symm.trans hx'
      exact absurd (hs.trans hsock) hv

theorem step_owned (h : Owned cfg none s.tables) (hk : s.HeldOk) {e : Event × Env}
    (he : KeepsKeys cfg s e) : Owned cfg none (step cfg s e).tables := by
  have hq := Quiet.of_tables_conns cfg e.2 fun t _ => Owned cfg none t
  obtain ⟨e, env⟩ := e
  cases e with
  | udpData data ip port =>
    refine ioOnUdpData_rule hq h (fun _ _ _ _ _ => h) fun msg hmsg => dispatchStun_owned h ?_ ?_ ?_
    · exact fun p a ha => (Tables.deref_eq_some ha).2
    · exact fun transport hc hm htr hauth => udp_found h he hmsg ⟨hc, hm, htr, hauth⟩
    · exact fun hc hm htr hauth => absurd ⟨hc, hm, htr, hauth⟩ (he msg hmsg)
  | relayData sock data ip port => exact hq.ioOnRelayData h sock data _
  | tcpAccepted sock ip port hv => exact h
  | tcpReceive sock data =>
    show Owned cfg none (receive s sock data).tables
    rw [receive_tables]
    exact h
  | tcpParse sock =>
    refine parsePass_rule hq h (fun _ _ _ => h) (fun _ _ hs => hs) (fun _ _ _ _ _ _ _ _ => h)
      (fun _ _ _ _ _ _ _ _ => h) fun c x msg hmsg => ?_
    have hverdict : (authenticate cfg env (s.advance c) msg).1 = (authenticate cfg env s msg).1 :=
      authenticate_congr cfg env msg rfl rfl
    refine dispatchStun_owned h ?_ ?_ ?_
    · exact fun p a ha => (Tables.deref_eq_some ha).2
    · exact fun transport hc hm htr hauth =>
        tcp_found h hk he hmsg ⟨hc, hm, htr, hverdict.symm.trans hauth⟩
    · intro hc hm htr hauth
      obtain ⟨y, hy, hs⟩ := advance_conn (State.nextMessage_held hmsg)
      refine ⟨c, y, rfl, hy, ?_⟩
      rw [hs]
      exact (he c x msg _ hmsg ⟨hc, hm, htr, hverdict.symm.trans hauth⟩).2 rfl
  | tcpConnClosed sock =>
    show Owned cfg none (closeTcpConn cfg s sock).tables
    unfold closeTcpConn
    split
    · exact h
    · split
      · exact h
      · dsimp only
        split
        · exact h.destroyAllocation _
        · exact h
  | tick =>
    show Owned cfg none (expireStale cfg env s).tables
    rw [expireStale_tables]
    exact h.expireAllocations env.now
  | reap => exact h

/-- A pointer that one of the maps stores. -/
def Tables.Stored (t : Tables) (p : Ptr) : Prop :=
  (∃ h : Socket, t.allocByRelaySock[h]? = some p) ∨ (∃ k : Bytes, t.allocByRelayAddr[k]? = some p) ∨
  (∃ k : Bytes, t.allocByClientAddr[k]? = some p) ∨
  (∃ h : Socket, t.allocByControlSock[h]? = some p) ∨
  (∃ id : UInt32, t.pendingByConnId[id]? = some p) ∨
  ∃ n : UInt16, t.usedRelayPorts[n]? = some (some p)

/-- The allocation `p` points to is one that `allocations_` owns. -/
def Tables.Owns (t : Tables) (p : Ptr) (a : Allocation) : Prop :=
  t.heap[p]? = some a ∧ ∃ k : Bytes, t.allocations[k]? = some p

/-- Table integrity: stored pointers are owned under their own key, and the ports
in use are those of the allocations, each of one allocation. -/
structure Tables.Integrity (cfg : Config) (t : Tables) : Prop where
  stored : ∀ p, t.Stored p → t.Holds p fun a => t.allocations[a.key cfg]? = some p
  ports : ∀ n, n ∈ t.usedRelayPorts ↔ ∃ p a, t.Owns p a ∧ a.relayPort = n
  unique : ∀ p a q b, t.Owns p a → t.Owns q b → a.relayPort = b.relayPort → p = q

theorem Owned.integrity (h : Owned cfg none t) : t.Integrity cfg := by
  have hheld {Q : Allocation → Prop} {p : Ptr} (hp : t.Holds p Q) :
      t.Holds p fun a => t.allocations[a.key cfg]? = some p := by
    obtain ⟨a, ha, -⟩ := hp
    exact ⟨a, ha, (h.own ha).1⟩
  constructor
  case stored =>
    rintro p (⟨k, hk⟩ | ⟨k, hk⟩ | ⟨k, hk⟩ | ⟨k, hk⟩ | ⟨k, hk⟩ | ⟨n, hn⟩)
    · exact hheld (h.relaySock hk)
    · exact hheld (h.relayAddr hk)
    · exact hheld (h.clientAddr hk)
    · refine hheld (h.controlSock hk ?_)
      rintro rfl
      rw [h.invalid] at hk
      cases hk
    · exact hheld (h.pending hk)
    · obtain ⟨hnone, -⟩ | ⟨q, hq, hp⟩ := h.port hn
      · cases hnone
      · cases hq
        exact hheld hp
  case ports =>
    intro n
    constructor
    · intro hn
      obtain ⟨o, ho⟩ := Option.isSome_iff_exists.mp (TreeMap.mem_iff_isSome_getElem?.mp hn)
      obtain ⟨-, hr⟩ | ⟨p, -, a, ha, hp⟩ := h.port ho
      · cases hr
      · exact ⟨p, a, ⟨ha, _, (h.own ha).1⟩, hp⟩
    · rintro ⟨p, a, ⟨ha, -⟩, rfl⟩
      exact TreeMap.mem_iff_isSome_getElem?.mpr (by rw [(h.own ha).2.1]; rfl)
  case unique =>
    rintro p a q b ⟨ha, -⟩ ⟨hb, -⟩ hn
    have hp := (h.own ha).2.1
    rw [hn, (h.own hb).2.1] at hp
    exact (Option.some.inj (Option.some.inj hp)).symm

theorem owned_empty (cfg : Config) : Owned cfg none Tables.empty := by
  constructor <;> simp [Tables.empty]

/-- The runs of the server whose events all keep the keys. -/
theorem tables_integrity {s : State}
    (h : Reach (fun s => ∃ env, s = State.start cfg env) (Guarded (KeepsKeys cfg) (step cfg)) s) :
    s.tables.Integrity cfg := by
  have hinv : Owned cfg none s.tables ∧ s.conns.Ok ∧ s.HeldOk := by
    refine Reach.invariant (P := fun s => Owned cfg none s.tables ∧ s.conns.Ok ∧ s.HeldOk) ?_ ?_ h
    · rintro s ⟨env, rfl⟩
      exact ⟨owned_empty cfg, Conns.ok_empty, State.heldOk_start cfg env⟩
    · rintro s e t ⟨ho, hk, hh⟩ ⟨he, rfl⟩
      exact ⟨step_owned ho hh he, step_conns_ok hk e, step_heldOk hk hh e⟩
  exact hinv.1.integrity

/-! ## A small server -/

/-- Numeric text. -/
def numericText : Ip → UInt16 → Bytes
  | .v4 b0 b1 b2 b3, port => text4 [b0, b1, b2, b3] ++ [58] ++ digits 10 port.toNat
  | .v6 addr _, port => [91] ++ text6 addr.1 ++ [93, 58] ++ digits 10 port.toNat

/-- One user `u` with password `p` in realm `r`, and four relay ports. -/
def smallConfig : Config where
  realm := ascii "r"
  users := (∅ : TreeMap Bytes Bytes).insert (ascii "u") (ascii "p")
  maxAllocations := 10
  allocationLifetime := 600
  nonceLifetimeMs := 3600000
  relayPortBegin := 49152
  relayPortEnd := 49155
  relayIp := .v4 10 0 0 1
  localRelayShortcut := true
  addrText := numericText
  ports_pos := by decide

/-- Time 0, nonce `n`, and relay sockets that bind. -/
def smallEnv : Env where
  now := 0
  nonce := ascii "n"
  tid := ⟨[9, 9, 9, 9, 9, 9, 9, 9, 9, 9, 9, 9], rfl⟩
  random _ _ := 0
  relaySocket i port := some (100 + i, some port)
  bound_eq _ _ _ _ h := (Option.some.inj (congrArg Prod.snd (Option.some.inj h))).symm

/-- An Allocate for a UDP relay, signed by `u` under the nonce `n`. -/
def allocateUdp : Bytes :=
  [0, 3, 0, 64, 33, 18, 164, 66, 1, 2, 3, 4, 5, 6, 7, 8, 9, 10, 11, 12, 0, 6, 0, 1, 117, 0, 0, 0,
    0, 20, 0, 1, 114, 0, 0, 0, 0, 21, 0, 1, 110, 0, 0, 0, 0, 25, 0, 4, 17, 0, 0, 0,
    0, 8, 0, 20, 218, 67, 96, 22, 34, 253, 123, 215, 106, 38, 223, 209, 16, 51, 227, 63, 227, 58,
    71, 7, 128, 40, 0, 4, 226, 59, 222, 118]

/-- The same for a TCP relay. -/
def allocateTcp : Bytes :=
  [0, 3, 0, 64, 33, 18, 164, 66, 1, 2, 3, 4, 5, 6, 7, 8, 9, 10, 11, 12, 0, 6, 0, 1, 117, 0, 0, 0,
    0, 20, 0, 1, 114, 0, 0, 0, 0, 21, 0, 1, 110, 0, 0, 0, 0, 25, 0, 4, 6, 0, 0, 0,
    0, 8, 0, 20, 183, 42, 86, 32, 224, 15, 132, 31, 9, 131, 249, 49, 141, 243, 152, 89, 36, 3, 146,
    76, 128, 40, 0, 4, 42, 71, 217, 197]

theorem tables_integrity_one_allocation :
    let s := step smallConfig (State.start smallConfig smallEnv)
      (.udpData allocateUdp (.v4 192 168 0 7) 50000, smallEnv)
    s.tables.allocations.size = 1 ∧ s.tables.Integrity smallConfig := by
  intro s
  refine ⟨by decide +kernel, tables_integrity
    (Reach.next (.udpData allocateUdp (.v4 192 168 0 7) 50000, smallEnv)
    (Reach.start ⟨smallEnv, rfl⟩) ⟨?_, rfl⟩)⟩
  rintro msg hmsg ⟨-, -, htr, -⟩
  have hdgram : (stunMessage allocateUdp).bind requestedTransport = some .dgram := by
    decide +kernel
  rw [hmsg, Option.bind_some, htr] at hdgram
  cases hdgram

/-- Two TCP allocations from one UDP client: the second takes the key of the
first, whose port keeps a pointer to it. -/
theorem port_of_freed_allocation :
    let e : Event × Env := (.udpData allocateTcp (.v4 192 168 0 7) 50000, smallEnv)
    ¬([e, e].foldl (step smallConfig) (State.start smallConfig smallEnv)).tables.Integrity
      smallConfig := by
  intro e h
  have hdangling : ([e, e].foldl (step smallConfig)
      (State.start smallConfig smallEnv)).tables.usedRelayPorts[(49152 : UInt16)]? = some (some 0) ∧
      (([e, e].foldl (step smallConfig)
        (State.start smallConfig smallEnv)).tables.heap[(0 : Ptr)]?).isNone = true := by
    decide +kernel
  obtain ⟨a, ha, -⟩ := h.stored 0 (.inr (.inr (.inr (.inr (.inr ⟨49152, hdangling.1⟩)))))
  rw [ha] at hdangling
  cases hdangling.2

end Stice.Server
