import Stice.Lib.Store
import Stice.Server.Rules

/-! The connection tables. `tcpBySock_` maps a socket number to a connection that
still has it; a connection that gave its number up waits in `pendingFreeConns_`. -/
namespace Stice.Server
open Std Net Stun Turn Lib

structure Conns.Ok (k : Conns) : Prop where
  bySock : ∀ {h : Socket} {c : Ptr}, k.tcpBySock[h]? = some c →
    ∃ conn, k.heap[c]? = some conn ∧ conn.sock = h ∧ h ≠ invalidSocket ∧ conn.dying = false
  fresh : ∀ {c : Ptr} {conn : TcpConn}, k.heap[c]? = some conn → c < k.nextPtr
  parked : ∀ {c : Ptr}, c ∈ k.pendingFree →
    c < k.nextPtr ∧ ∀ conn, k.heap[c]? = some conn → conn.sock = invalidSocket

variable {k : Conns} {sock : Socket} {c : Ptr} {conn : TcpConn}

/-! ## Lookups -/

theorem Conns.tcpConnRef_eq_some (h : k.tcpConnRef sock = some c) :
    k.tcpBySock[sock]? = some c ∧ ∃ conn, k.heap[c]? = some conn ∧ conn.dying = false := by
  unfold tcpConnRef at h
  split at h
  · cases h
  · rename_i p hp
    split at h
    · rename_i conn hconn
      split at h
      · cases h
      · rename_i hd
        cases h
        exact ⟨hp, conn, hconn, by simpa using hd⟩
    · cases h

theorem Conns.live_eq_some (h : k.live sock = some (c, conn)) :
    k.tcpBySock[sock]? = some c ∧ k.heap[c]? = some conn ∧ conn.dying = false := by
  obtain ⟨hp, hx⟩ := follow_eq_some h
  obtain ⟨hs, y, hy, hd⟩ := tcpConnRef_eq_some hp
  rw [hx] at hy
  cases hy
  exact ⟨hs, hx, hd⟩

/-- The socket of a connection that `tcpConnRef` returned. -/
theorem Conns.Ok.sock_eq (h : k.Ok) (hl : k.live sock = some (c, conn)) :
    conn.sock = sock ∧ sock ≠ invalidSocket := by
  obtain ⟨hs, hc, -⟩ := live_eq_some hl
  obtain ⟨x, hx, hsock, hv, -⟩ := h.bySock hs
  rw [hc] at hx
  cases hx
  exact ⟨hsock, hv⟩

/-- A connection has one socket. -/
theorem Conns.Ok.bySock_inj (h : k.Ok) {a b : Socket} (ha : k.tcpBySock[a]? = some c)
    (hb : k.tcpBySock[b]? = some c) : a = b := by
  obtain ⟨x, hx, hxa, -⟩ := h.bySock ha
  obtain ⟨y, hy, hyb, -⟩ := h.bySock hb
  cases hx.symm.trans hy
  exact hxa.symm.trans hyb

theorem Conns.Ok.tcpConnRef_of_bySock (h : k.Ok) (hc : k.tcpBySock[sock]? = some c) :
    k.tcpConnRef sock = some c := by
  obtain ⟨x, hx, -, -, hd⟩ := h.bySock hc
  simp [tcpConnRef, hc, hx, hd]

/-! ## Updates -/

theorem Conns.ok_empty : Conns.empty.Ok where
  bySock h := by simp [Conns.empty] at h
  fresh h := by simp [Conns.empty] at h
  parked h := by simp [Conns.empty] at h

/-- What a connection keeps from its accept until it is closed. -/
structure SameConn (x y : TcpConn) : Prop where
  sock : y.sock = x.sock
  peerAddr : y.peerAddr = x.peerAddr
  dying : y.dying = x.dying

theorem SameConn.refl (x : TcpConn) : SameConn x x := ⟨rfl, rfl, rfl⟩

theorem SameConn.trans {x y z : TcpConn} (h : SameConn x y) (h' : SameConn y z) : SameConn x z :=
  ⟨h'.sock.trans h.sock, h'.peerAddr.trans h.peerAddr, h'.dying.trans h.dying⟩

/-- No connection was accepted, closed or freed. -/
structure Conns.Frame (k k' : Conns) : Prop where
  tcpBySock : k'.tcpBySock = k.tcpBySock
  pendingFree : k'.pendingFree = k.pendingFree
  nextPtr : k'.nextPtr = k.nextPtr
  keep : ∀ (c : Ptr) (x : TcpConn), k.heap[c]? = some x → ∃ y, k'.heap[c]? = some y ∧ SameConn x y
  back : ∀ (c : Ptr) (y : TcpConn), k'.heap[c]? = some y → ∃ x, k.heap[c]? = some x ∧ SameConn x y

theorem Conns.Frame.refl (k : Conns) : k.Frame k :=
  ⟨rfl, rfl, rfl, fun _ x hx => ⟨x, hx, .refl x⟩, fun _ x hx => ⟨x, hx, .refl x⟩⟩

theorem Conns.Frame.trans {k₁ k₂ k₃ : Conns} (h : k₁.Frame k₂) (h' : k₂.Frame k₃) :
    k₁.Frame k₃ := by
  refine ⟨h'.tcpBySock.trans h.tcpBySock, h'.pendingFree.trans h.pendingFree,
    h'.nextPtr.trans h.nextPtr, fun c x hx => ?_, fun c z hz => ?_⟩
  · obtain ⟨y, hy, hxy⟩ := h.keep c x hx
    obtain ⟨z, hz, hyz⟩ := h'.keep c y hy
    exact ⟨z, hz, hxy.trans hyz⟩
  · obtain ⟨y, hy, hyz⟩ := h'.back c z hz
    obtain ⟨x, hx, hxy⟩ := h.back c y hy
    exact ⟨x, hx, hxy.trans hyz⟩

theorem Conns.Frame.modify (k : Conns) (c : Ptr) {f : TcpConn → TcpConn}
    (hf : ∀ x, SameConn x (f x)) : k.Frame { k with heap := k.heap.modify c f } := by
  refine ⟨rfl, rfl, rfl, fun q x hx => ?_, fun q y hy => ?_⟩
  · exact getElem?_modify_of_some hx c f (fun _ => .refl x) fun _ => hf x
  · obtain ⟨x, hx, ⟨-, rfl⟩ | ⟨-, rfl⟩⟩ := getElem?_modify_some hy
    · exact ⟨x, hx, hf x⟩
    · exact ⟨y, hx, .refl y⟩

/-- `publish` touches the pipe only. -/
theorem Conns.Frame.publish (k : Conns) (sock first : Socket) (c peer : Ptr) :
    k.Frame (k.publish sock first c peer) :=
  ⟨rfl, rfl, rfl, (Frame.refl k).keep, (Frame.refl k).back⟩

theorem Conns.Frame.tcpConnRef {k' : Conns} (hf : k.Frame k') (h : k'.tcpConnRef sock = some c) :
    k.tcpConnRef sock = some c := by
  obtain ⟨hs, y, hy, hd⟩ := tcpConnRef_eq_some h
  obtain ⟨x, hx, hxy⟩ := hf.back c y hy
  rw [hf.tcpBySock] at hs
  simp [Conns.tcpConnRef, hs, hx, hxy.dying.symm.trans hd]

theorem Conns.Ok.frame {k' : Conns} (h : k.Ok) (hf : k.Frame k') : k'.Ok := by
  constructor
  case bySock =>
    intro sock q hq
    rw [hf.tcpBySock] at hq
    obtain ⟨x, hx, hs, hv, hd⟩ := h.bySock hq
    obtain ⟨y, hy, hxy⟩ := hf.keep q x hx
    exact ⟨y, hy, hxy.sock.trans hs, hv, hxy.dying.trans hd⟩
  case fresh =>
    intro q y hy
    obtain ⟨x, hx, -⟩ := hf.back q y hy
    rw [hf.nextPtr]
    exact h.fresh hx
  case parked =>
    intro q hq
    rw [hf.pendingFree] at hq
    rw [hf.nextPtr]
    refine ⟨(h.parked hq).1, fun y hy => ?_⟩
    obtain ⟨x, hx, hxy⟩ := hf.back q y hy
    exact hxy.sock.trans ((h.parked hq).2 x hx)

theorem Conns.Ok.register (h : k.Ok) (hv : conn.sock ≠ invalidSocket) (hd : conn.dying = false) :
    Conns.Ok { k with
      heap := k.heap.insert k.nextPtr conn
      tcpBySock := k.tcpBySock.insert conn.sock k.nextPtr
      nextPtr := k.nextPtr + 1 } := by
  constructor
  case bySock =>
    intro q c hq
    obtain ⟨rfl, rfl⟩ | ⟨-, hq⟩ := getElem?_insert_some hq
    · exact ⟨conn, TreeMap.getElem?_insert_self, rfl, hv, hd⟩
    · obtain ⟨x, hx, hrest⟩ := h.bySock hq
      exact ⟨x, by rw [getElem?_insert_of_ne (Nat.ne_of_lt (h.fresh hx))]; exact hx, hrest⟩
  case fresh =>
    intro q x hq
    obtain ⟨rfl, -⟩ | ⟨-, hq⟩ := getElem?_insert_some hq
    · exact Nat.lt_succ_self _
    · exact Nat.lt_succ_of_lt (h.fresh hq)
  case parked =>
    intro q hq
    have hlt := (h.parked hq).1
    refine ⟨Nat.lt_succ_of_lt hlt, fun x hx => (h.parked hq).2 x ?_⟩
    rwa [getElem?_insert_of_ne (Nat.ne_of_lt hlt)] at hx

theorem Conns.close_heap_of_ne (k : Conns) (sock : Socket) {c p : Ptr} (h : p ≠ c) :
    ((k.unpublish sock c).unlink sock c).heap[p]? = k.heap[p]? := by
  show ((k.heap.modify c _).modify c _)[p]? = k.heap[p]?
  rw [getElem?_modify_of_ne h, getElem?_modify_of_ne h]

/-- A closed connection is off the map before it is parked. -/
theorem Conns.Ok.close (h : k.Ok) (hl : k.live sock = some (c, conn)) :
    ((k.unpublish sock c).unlink sock c).Ok := by
  obtain ⟨hs, hc, -⟩ := live_eq_some hl
  constructor
  case bySock =>
    intro q p hq
    obtain ⟨hqs, hq⟩ := getElem?_erase_some hq
    obtain ⟨x, hx, hsock, hrest⟩ := h.bySock hq
    -- the connection on another socket is another connection
    have hne : p ≠ c := by
      rintro rfl
      rw [hc] at hx
      cases hx
      exact hqs (hsock.symm.trans (h.sock_eq hl).1)
    exact ⟨x, by rw [close_heap_of_ne k sock hne]; exact hx, hsock, hrest⟩
  case fresh =>
    intro p x hp
    obtain ⟨y, hy, -⟩ := getElem?_modify_some hp
    obtain ⟨z, hz, -⟩ := getElem?_modify_some hy
    exact h.fresh hz
  case parked =>
    intro p hp
    have hlt : p < k.nextPtr := by
      rcases List.mem_append.mp hp with hp | hp
      · exact (h.parked hp).1
      · exact List.mem_singleton.mp hp ▸ h.fresh hc
    refine ⟨hlt, fun x hx => ?_⟩
    by_cases hne : p = c
    · subst hne
      obtain ⟨y, -, ⟨-, rfl⟩ | ⟨hne, -⟩⟩ := getElem?_modify_some hx
      · rfl
      · exact absurd rfl hne
    · rw [close_heap_of_ne k sock hne] at hx
      rcases List.mem_append.mp hp with hp | hp
      · exact (h.parked hp).2 x hx
      · exact absurd (List.mem_singleton.mp hp) hne

/-- What is freed is parked. -/
theorem Conns.Ok.reap (h : k.Ok) (inUse : Ptr → Bool) :
    Conns.Ok { k with
      heap := (k.pendingFree.filter fun c => !inUse c).foldl (fun m c => m.erase c) k.heap
      pendingFree := k.pendingFree.filter inUse } := by
  constructor
  case bySock =>
    intro q p hq
    obtain ⟨x, hx, hsock, hv, hd⟩ := h.bySock hq
    have hmem : p ∉ k.pendingFree.filter fun c => !inUse c := fun hp =>
      hv (hsock.symm.trans ((h.parked (List.mem_of_mem_filter hp)).2 x hx))
    exact ⟨x, (getElem?_foldl_erase_of_not_mem (g := id) (by simpa using hmem)).trans hx, hsock,
      hv, hd⟩
  case fresh => exact fun hp => h.fresh (getElem?_foldl_erase_some (g := id) hp).2
  case parked =>
    intro p hp
    obtain ⟨hlt, hsock⟩ := h.parked (List.mem_of_mem_filter hp)
    exact ⟨hlt, fun x hx => hsock x (getElem?_foldl_erase_some (g := id) hx).2⟩

/-! ## Steps -/

variable {cfg : Config} {env : Env} {s : State}

theorem Conns.Frame.of_buffered {k k' : Conns} (h : k.Buffered k') : k.Frame k' := by
  obtain rfl | ⟨c, f, rfl, hf⟩ := h
  · exact .refl k'
  · exact .modify k c fun x => by
      rw [hf x]
      exact ⟨rfl, rfl, rfl⟩

theorem pairData_frame (s : State) (c : Ptr) (sock first : Socket) :
    s.conns.Frame (pairData s c sock first).conns := by
  unfold pairData
  split
  · rename_i peer _
    have hpub : s.conns.Frame
        ({ s with conns := s.conns.publish sock first c peer } : State).conns := .publish _ _ _ _ _
    exact (hpub.trans (.of_buffered (flushPrePair_buffered _ c))).trans
      (.of_buffered (flushPrePair_buffered _ peer))
  · exact .refl _

/-- Only the binding of a data connection touches the connections. -/
theorem dispatchStun_conns {src : AddrRecord} {conn : Option Ptr} {msg : Message}
    {alloc : Option (Ptr × Allocation)}
    (hb : ¬(msg.cls = .request ∧ msg.method = .connectionBind)) :
    (dispatchStun cfg env s src conn msg alloc).conns = s.conns := by
  exact dispatchStun_rule_of_tables (P := fun s' => s'.conns = s.conns)
    (Quiet.of_tables_conns cfg env fun _ k => k = s.conns) (fun _ _ _ h => h) rfl
    (fun hcls hm => absurd ⟨hcls, hm⟩ hb) fun _ _ _ => rfl

theorem dispatchStun_frame (s : State) (src : AddrRecord) (conn : Option Ptr)
    (msg : Message) (alloc : Option (Ptr × Allocation)) :
    s.conns.Frame (dispatchStun cfg env s src conn msg alloc).conns := by
  by_cases hb : msg.cls = .request ∧ msg.method = .connectionBind
  · have hmark (c : Ptr) (connId : UInt32) :
        s.conns.Frame (sendBindResponse cfg (markData s c connId) c msg).conns :=
      .modify _ c fun _ => ⟨rfl, rfl, rfl⟩
    rw [dispatchStun_bind hb.1 hb.2]
    apply handleConnectionBind_rule (P := fun s' => s.conns.Frame s'.conns)
      (fun _ => (Quiet.of_tables_conns cfg env fun _ k => s.conns.Frame k).answering) (.refl _)
    · intro c x connId p connector pc _ _ _ _ _ _ _
      rw [bindFirst_conns]
      exact hmark c connId
    · intro c x connId p connector pc _ _ _ _ _ _ _
      rw [bindSecond_conns]
      exact (hmark c connId).trans (pairData_frame _ c _ _)
  · rw [dispatchStun_conns hb]
    exact .refl _

theorem closeTcpConn_ok (h : s.conns.Ok) (sock : Socket) : (closeTcpConn cfg s sock).conns.Ok := by
  unfold closeTcpConn
  split
  · exact h
  · rename_i c conn hlive
    split
    · exact h
    · dsimp only
      rw [(h.sock_eq hlive).1]
      exact h.close hlive

/-- Every event but an accept, a close and a reap leaves the connections in
place. -/
def Event.keepsConns : Event → Bool
  | .tcpAccepted .. | .tcpConnClosed _ | .reap => false
  | _ => true

theorem step_frame (cfg : Config) (s : State) {e : Event × Env} (he : e.1.keepsConns = true) :
    s.conns.Frame (step cfg s e).conns := by
  have hq := Quiet.of_tables_conns cfg e.2 fun _ k => s.conns.Frame k
  have h : s.conns.Frame s.conns := .refl _
  obtain ⟨e, env⟩ := e
  cases e with
  | udpData data ip port =>
    exact ioOnUdpData_rule hq h (fun _ _ _ _ _ => h) fun msg _ => dispatchStun_frame s _ _ _ _
  | relayData sock data ip port => exact hq.ioOnRelayData h sock data _
  | tcpAccepted sock ip port hv => cases he
  | tcpReceive sock data => exact .of_buffered (receive_buffered s sock data)
  | tcpParse sock =>
    have hadvance (c : Ptr) : s.conns.Frame (s.advance c).conns :=
      .modify _ c fun _ => ⟨rfl, rfl, rfl⟩
    exact parsePass_rule hq h (fun c _ _ => hadvance c) (fun _ _ hs => hs)
      (fun c _ _ _ _ _ _ _ => hadvance c) (fun c _ _ _ _ _ _ _ => hadvance c) fun c conn msg _ =>
        (hadvance c).trans (dispatchStun_frame _ _ _ _ _)
  | tcpConnClosed sock => cases he
  | tick =>
    show s.conns.Frame (expireStale cfg env s).conns
    rw [expireStale_conns]
    exact h
  | reap => cases he

theorem step_conns_ok (h : s.conns.Ok) (e : Event × Env) : (step cfg s e).conns.Ok := by
  obtain ⟨e, env⟩ := e
  cases e with
  | tcpAccepted sock ip port hv =>
    exact @Conns.Ok.register _ ⟨sock, ⟨ip, port, .stream⟩, _, _, _, _, _⟩ h hv rfl
  | tcpConnClosed sock => exact closeTcpConn_ok h sock
  | reap => exact h.reap s.inUse
  | _ => exact h.frame (step_frame cfg s rfl)

/-! ## Held connections -/

/-- A connection that a shard holds is not freed, and until it is closed it has the
number that its chunk came with. -/
def State.HeldOk (s : State) : Prop :=
  ∀ (sock : Socket) (c : Ptr), s.reading[sock]? = some c →
    ∃ x, s.conns.heap[c]? = some x ∧ (x.sock = sock ∨ x.sock = invalidSocket)

theorem State.heldOk_start (cfg : Config) (env : Env) : (State.start cfg env).HeldOk :=
  fun _ _ h => by simp [State.start] at h

theorem dispatchStun_reading (s : State) (src : AddrRecord) (conn : Option Ptr) (msg : Message)
    (alloc : Option (Ptr × Allocation)) :
    (dispatchStun cfg env s src conn msg alloc).reading = s.reading := by
  have hq : Quiet cfg env fun s' => s'.reading = s.reading :=
    ⟨fun _ _ _ h => h, fun _ _ _ h => h, fun _ _ h => h⟩
  exact dispatchStun_rule_of_fixed (P := fun s' => s'.reading = s.reading) hq (fun _ _ _ h => h)
    (fun _ => reading_of_fixed) fun _ _ _ => rfl

/-- A shard takes a connection by the number it has. -/
theorem step_reading (e : Event × Env) {sock : Socket} {c : Ptr}
    (h : (step cfg s e).reading[sock]? = some c) :
    s.reading[sock]? = some c ∨ ∃ x, s.conns.live sock = some (c, x) := by
  have hkeep {s' : State} (hs : s'.reading = s.reading) (h : s'.reading[sock]? = some c) :
      s.reading[sock]? = some c := hs ▸ h
  have hq : Quiet cfg e.2 fun s' => s'.reading = s.reading :=
    ⟨fun _ _ _ h => h, fun _ _ _ h => h, fun _ _ h => h⟩
  obtain ⟨e, env⟩ := e
  cases e with
  | udpData data ip port =>
    exact .inl (hkeep (ioOnUdpData_rule (P := fun s' => s'.reading = s.reading) hq rfl
      (fun _ _ _ _ _ => rfl) fun msg _ => dispatchStun_reading s _ _ _ _) h)
  | relayData sock data ip port =>
    exact .inl (hkeep (hq.ioOnRelayData rfl sock data _) h)
  | tcpReceive sock' data =>
    obtain ⟨_, _, _, _, heq, -, hreading⟩ := receive_eq s sock' data
    have h : (receive s sock' data).reading[sock]? = some c := h
    rw [heq] at h
    obtain rfl | ⟨x, hx, rfl⟩ := hreading
    · exact .inl h
    · obtain ⟨rfl, rfl⟩ | ⟨-, h⟩ := getElem?_insert_some h
      · exact .inr ⟨x.2, hx⟩
      · exact .inl h
  | tcpParse sock' =>
    refine .inl (parsePass_rule (P := fun s' => s'.reading[sock]? = some c →
      s.reading[sock]? = some c) ⟨fun _ _ _ h => h, fun _ _ _ h => h, fun _ _ h => h⟩ (fun h => h)
      (fun _ _ _ h => h) (fun s' _ hs h => hs (getElem?_erase_some h).2)
      (fun _ _ _ _ _ _ _ _ h => h) (fun _ _ _ _ _ _ _ _ h => h) (fun c' x msg _ => ?_) h)
    exact hkeep (dispatchStun_reading (s.advance c') _ _ _ _)
  | tcpConnClosed sock' =>
    refine .inl (hkeep ?_ h)
    show (closeTcpConn cfg s sock').reading = s.reading
    unfold closeTcpConn
    split
    · rfl
    · split <;> rfl
  | tick =>
    refine .inl (hkeep ?_ h)
    show (expireStale cfg env s).reading = s.reading
    simp only [expireStale]
    split <;> rfl
  | _ => exact .inl h

theorem step_heldOk (hk : s.conns.Ok) (h : s.HeldOk) (e : Event × Env) :
    (step cfg s e).HeldOk := by
  intro sock c hc
  have hold : ∃ x, s.conns.heap[c]? = some x ∧ (x.sock = sock ∨ x.sock = invalidSocket) := by
    obtain hc | ⟨x, hx⟩ := step_reading e hc
    · exact h sock c hc
    · exact ⟨x, (Conns.live_eq_some hx).2.1, .inl (hk.sock_eq hx).1⟩
  obtain ⟨x, hx, hsock⟩ := hold
  have hframe {k : Conns} (hf : s.conns.Frame k) :
      ∃ y, k.heap[c]? = some y ∧ (y.sock = sock ∨ y.sock = invalidSocket) := by
    obtain ⟨y, hy, hxy⟩ := hf.keep c x hx
    rw [← hxy.sock] at hsock
    exact ⟨y, hy, hsock⟩
  obtain ⟨e, env⟩ := e
  cases e with
  | tcpAccepted sock' ip port hv =>
    exact ⟨x, (getElem?_insert_of_ne (Nat.ne_of_lt (hk.fresh hx))).trans hx, hsock⟩
  | tcpConnClosed sock' =>
    show ∃ y, (closeTcpConn cfg s sock').conns.heap[c]? = some y ∧ _
    unfold closeTcpConn
    split
    · exact ⟨x, hx, hsock⟩
    · rename_i d y hlive
      split
      · exact ⟨x, hx, hsock⟩
      · by_cases hd : c = d
        · subst hd
          obtain ⟨z, hz, -⟩ := getElem?_modify_of_some (Q := fun _ => True) hx c
            (fun conn => { conn with dying := true }) (fun _ => trivial) fun _ => trivial
          exact getElem?_modify_of_some hz c _ (fun hne => absurd rfl hne) fun _ => .inr rfl
        · exact ⟨x, (Conns.close_heap_of_ne s.conns _ hd).trans hx, hsock⟩
  | reap =>
    have huse : s.inUse c = true := List.any_eq_true.mpr
      ⟨(sock, c), TreeMap.mem_toList_iff_getElem?_eq_some.mpr hc, decide_eq_true rfl⟩
    exact ⟨x, (getElem?_foldl_erase_of_not_mem (g := id) (by simp [huse])).trans hx, hsock⟩
  | _ => exact hframe (step_frame cfg s rfl)

end Stice.Server
