import Stice.Server.Evolution
import Stice.Server.Updates

/-! Pairing of data connections (RFC 6062). A pending connect records the number
of the socket that was bound first. As long as no new connection gets a number
that is recorded, the pipe pairs two distinct live connections that were bound to
one id. -/
namespace Stice.Server
open Std Net Stun Turn Lib

variable {sock : Socket} {id : UInt32}

/-- A pending connect of the allocation `p` that waits for its second bind. -/
def Recorded (t : Tables) (p : Ptr) (pc : PendingConnect) : Prop :=
  pc.firstDataSock ≠ invalidSocket ∧ t.Holds p fun a => pc ∈ a.pendingConnects

/-- A live data connection with an id is on the socket. -/
def DataOn (k : Conns) (sock : Socket) (id : UInt32) : Prop :=
  ∃ c x, k.tcpBySock[sock]? = some c ∧ k.heap[c]? = some x ∧ x.isData = true ∧ x.connId = id

/-- The invariant. `bound` lists the accepted CONNECTION-BIND requests. -/
structure Paired (t : Tables) (k : Conns) (bound : List (Ptr × UInt32)) : Prop where
  pipe : ∀ {a b : Socket}, k.dataPipe[a]? = some b →
    k.dataPipe[b]? = some a ∧ a ≠ b ∧ ∃ id, DataOn k a id ∧ DataOn k b id
  pending : ∀ {p pc}, Recorded t p pc → k.dataPipe[pc.firstDataSock]? = none ∧
    ∀ (c : Ptr) (x : TcpConn), k.tcpBySock[pc.firstDataSock]? = some c → k.heap[c]? = some x →
      x.isData = true ∧ x.connId = pc.connId
  once : ∀ {p pc q pd}, Recorded t p pc → Recorded t q pd →
    pc.firstDataSock = pd.firstDataSock → p = q ∧ pc.connId = pd.connId
  accepted : ∀ (c : Ptr) (x : TcpConn), k.heap[c]? = some x → x.isData = true →
    (c, x.connId) ∈ bound

variable {cfg : Config} {env : Env} {s : State} {t t' : Tables} {p : Ptr} {k k' : Conns}
  {bound bound' : List (Ptr × UInt32)}

/-! ## Records -/

/-- Nothing new was recorded. -/
def NoNew (t t' : Tables) : Prop := ∀ p pc, Recorded t' p pc → Recorded t p pc

/-- No pending connect of the new value has a socket that it did not have. -/
def BindsNone (a b : Allocation) : Prop :=
  ∀ pc ∈ b.pendingConnects, pc.firstDataSock ≠ invalidSocket → pc ∈ a.pendingConnects

theorem BindsNone.refl (a : Allocation) : BindsNone a a := fun _ h _ => h

theorem BindsNone.trans (a b c : Allocation) (h : BindsNone a b) (h' : BindsNone b c) :
    BindsNone a c :=
  fun pc hpc hv => h pc (h' pc hpc hv) hv

theorem NoNew.of_from (h : Tables.From BindsNone t t') : NoNew t t' := by
  rintro p pc ⟨hv, b, hb, hpc⟩
  obtain ⟨a, ha, hab⟩ := h p b hb
  exact ⟨hv, a, ha, hab pc hpc hv⟩

theorem NoNew.refl (t : Tables) : NoNew t t := fun _ _ h => h

theorem NoNew.trans {t₁ t₂ t₃ : Tables} (h : NoNew t₁ t₂) (h' : NoNew t₂ t₃) : NoNew t₁ t₃ :=
  fun p pc hr => h p pc (h' p pc hr)

theorem NoNew.modify {f : Allocation → Allocation} (hf : ∀ a, BindsNone a (f a))
    (ht' : t'.heap = t.heap.modify p f) : NoNew t t' :=
  .of_from (.modify .refl hf ht')

theorem NoNew.destroyAllocation (cfg : Config) (t : Tables) (p : Ptr) :
    NoNew t (Tables.destroyAllocation cfg p t) :=
  .of_from (.destroyAllocation .refl cfg t p)

theorem NoNew.expireAllocations (cfg : Config) (now : Int) (t : Tables) :
    NoNew t (Tables.expireAllocations cfg now t) :=
  .of_from (.expireAllocations .refl .trans cfg now
    (fun _ _ hpc _ => (List.mem_filter.mp hpc).1) t)

/-- A new allocation has no pending connects. -/
theorem NoNew.register {a : Allocation} (ha : a.pendingConnects = []) (overTcp : Bool)
    (ht : t'.heap = t.heap) : NoNew t (Tables.register cfg a overTcp t') := by
  rintro q pc ⟨hv, b, hb, hpc⟩
  obtain ⟨-, rfl⟩ | ⟨-, hb⟩ := getElem?_insert_some hb
  · rw [ha] at hpc
    cases hpc
  · obtain ⟨b', hb', hbb⟩ := Tables.From.eraseAllocation BindsNone.refl _ _ q b hb
    rw [Tables.enterLookups_heap, ht] at hb'
    exact ⟨hv, b', hb', hbb pc hpc hv⟩

theorem NoNew.handleAllocate (cfg : Config) (env : Env) (s : State) (src : AddrRecord)
    (conn : Option Ptr) (msg : Message) :
    NoNew s.tables (handleAllocate cfg env s src conn msg).tables := by
  unfold Server.handleAllocate
  split
  · rw [replyError, reply_tables]
    exact .refl _
  · rename_i transport _
    split
    · rw [replyError, reply_tables]
      exact .refl _
    · have hheap := congrArg Tables.heap (Tables.OnlyPorts.reserveRelay cfg env transport s.tables)
      split
      · rename_i t hres
        rw [hres] at hheap
        rw [replyError, reply_tables]
        exact .of_from (.of_heap .refl hheap)
      · rename_i sock port t hres
        rw [hres] at hheap
        rw [reply_tables]
        exact .register rfl conn.isSome hheap

/-! ## Roles -/

/-- The pipe is the same and no connection changed its role. -/
structure SameRoles (k k' : Conns) : Prop where
  dataPipe : k'.dataPipe = k.dataPipe
  tcpBySock : k'.tcpBySock = k.tcpBySock
  keep : ∀ (c : Ptr) (x : TcpConn), k.heap[c]? = some x →
    ∃ y, k'.heap[c]? = some y ∧ y.isData = x.isData ∧ y.connId = x.connId
  back : ∀ (c : Ptr) (y : TcpConn), k'.heap[c]? = some y →
    ∃ x, k.heap[c]? = some x ∧ y.isData = x.isData ∧ y.connId = x.connId

theorem SameRoles.refl (k : Conns) : SameRoles k k :=
  ⟨rfl, rfl, fun _ x hx => ⟨x, hx, rfl, rfl⟩, fun _ x hx => ⟨x, hx, rfl, rfl⟩⟩

theorem SameRoles.trans {k₁ k₂ k₃ : Conns} (h : SameRoles k₁ k₂) (h' : SameRoles k₂ k₃) :
    SameRoles k₁ k₃ := by
  refine ⟨h'.dataPipe.trans h.dataPipe, h'.tcpBySock.trans h.tcpBySock, fun c x hx => ?_,
    fun c z hz => ?_⟩
  · obtain ⟨y, hy, hd, hid⟩ := h.keep c x hx
    obtain ⟨z, hz, hd', hid'⟩ := h'.keep c y hy
    exact ⟨z, hz, hd'.trans hd, hid'.trans hid⟩
  · obtain ⟨y, hy, hd, hid⟩ := h'.back c z hz
    obtain ⟨x, hx, hd', hid'⟩ := h.back c y hy
    exact ⟨x, hx, hd.trans hd', hid.trans hid'⟩

theorem SameRoles.modify (k : Conns) (c : Ptr) {f : TcpConn → TcpConn}
    (hf : ∀ x, (f x).isData = x.isData ∧ (f x).connId = x.connId) :
    SameRoles k { k with heap := k.heap.modify c f } := by
  refine ⟨rfl, rfl, fun q x hx => ?_, fun q y hy => ?_⟩
  · exact getElem?_modify_of_some hx c f (fun _ => ⟨rfl, rfl⟩) fun _ => hf x
  · obtain ⟨x, hx, ⟨-, rfl⟩ | ⟨-, rfl⟩⟩ := getElem?_modify_some hy
    · exact ⟨x, hx, hf x⟩
    · exact ⟨y, hx, rfl, rfl⟩

theorem SameRoles.of_buffered (h : k.Buffered k') : SameRoles k k' := by
  obtain rfl | ⟨c, f, rfl, hf⟩ := h
  · exact .refl k'
  · exact .modify k c fun x => by
      rw [hf x]
      exact ⟨rfl, rfl⟩

/-! ## Updates -/

theorem paired_empty (bound : List (Ptr × UInt32)) : Paired Tables.empty Conns.empty bound where
  pipe h := by simp [Conns.empty] at h
  pending h := by
    obtain ⟨-, a, ha, -⟩ := h
    simp [Tables.empty] at ha
  once h := by
    obtain ⟨-, a, ha, -⟩ := h
    simp [Tables.empty] at ha
  accepted c x hx := by simp [Conns.empty] at hx

theorem DataOn.same (h : DataOn k sock id) (hk : SameRoles k k') : DataOn k' sock id := by
  obtain ⟨c, x, hc, hx, hd, hid⟩ := h
  obtain ⟨y, hy, hd', hid'⟩ := hk.keep c x hx
  exact ⟨c, y, by rw [hk.tcpBySock]; exact hc, hy, hd'.trans hd, hid'.trans hid⟩

theorem Paired.same (h : Paired t k bound) (ht : NoNew t t') (hk : SameRoles k k') :
    Paired t' k' bound := by
  constructor
  case pipe =>
    intro a b hab
    rw [hk.dataPipe] at hab ⊢
    obtain ⟨hba, hne, id, ha, hb⟩ := h.pipe hab
    exact ⟨hba, hne, id, ha.same hk, hb.same hk⟩
  case pending =>
    intro p pc hr
    obtain ⟨hnone, hrole⟩ := h.pending (ht p pc hr)
    rw [hk.dataPipe, hk.tcpBySock]
    refine ⟨hnone, fun c y hc hy => ?_⟩
    obtain ⟨x, hx, hd, hid⟩ := hk.back c y hy
    exact ⟨hd.trans (hrole c x hc hx).1, hid.trans (hrole c x hc hx).2⟩
  case once => exact fun hr hr' he => h.once (ht _ _ hr) (ht _ _ hr') he
  case accepted =>
    intro c y hy hd
    obtain ⟨x, hx, hd', hid⟩ := hk.back c y hy
    rw [hid]
    exact h.accepted c x hx (hd'.symm.trans hd)

section
variable {c : Ptr} {x : TcpConn} {sock : Socket}
variable {pc : PendingConnect} {id : UInt32}

/-- The socket of a connection that is not a data connection is in no pair. -/
theorem Paired.not_piped (h : Paired t k bound) (hc : k.tcpBySock[sock]? = some c)
    (hx : k.heap[c]? = some x) (hd : x.isData = false) : k.dataPipe[sock]? = none := by
  cases hp : k.dataPipe[sock]? with
  | none => rfl
  | some b =>
    obtain ⟨-, -, id, ⟨c', x', hc', hx', hd', -⟩, -⟩ := h.pipe hp
    cases hc.symm.trans hc'
    cases hx.symm.trans hx'
    cases hd.symm.trans hd'

/-- Nor is it recorded. -/
theorem Paired.not_recorded (h : Paired t k bound) (hc : k.tcpBySock[sock]? = some c)
    (hx : k.heap[c]? = some x) (hd : x.isData = false) (hr : Recorded t p pc) :
    pc.firstDataSock ≠ sock := by
  intro he
  have hdata := ((h.pending hr).2 c x (he ▸ hc) hx).1
  cases hd.symm.trans hdata

/-- A connection that was none becomes a data connection. -/
theorem Paired.mark (h : Paired t k bound) (hx : k.heap[c]? = some x) (hd : x.isData = false)
    (hsub : ∀ y ∈ bound, y ∈ bound') (hid : (c, id) ∈ bound') :
    Paired t { k with heap := k.heap.modify c fun conn =>
      { conn with isData := true, connId := id } } bound' := by
  -- a data connection is another one
  have hne {q : Ptr} {y : TcpConn} (hq : k.heap[q]? = some y) (hy : y.isData = true) : q ≠ c := by
    rintro rfl
    cases hx.symm.trans hq
    cases hd.symm.trans hy
  have hon {a : Socket} {i : UInt32} (ha : DataOn k a i) : DataOn { k with
      heap := k.heap.modify c fun conn => { conn with isData := true, connId := id } } a i := by
    obtain ⟨q, y, hq, hy, hdata⟩ := ha
    exact ⟨q, y, hq, by rw [getElem?_modify_of_ne (hne hy hdata.1)]; exact hy, hdata⟩
  constructor
  case pipe =>
    intro a b hab
    obtain ⟨hba, hab, i, ha, hb⟩ := h.pipe hab
    exact ⟨hba, hab, i, hon ha, hon hb⟩
  case pending =>
    intro q pc hr
    obtain ⟨hnone, hrole⟩ := h.pending hr
    refine ⟨hnone, fun d y hdsock hy => ?_⟩
    obtain ⟨z, hz, ⟨rfl, -⟩ | ⟨-, rfl⟩⟩ := getElem?_modify_some hy
    · exact absurd rfl (hne hz (hrole d z hdsock hz).1)
    · exact hrole d y hdsock hz
  case once => exact h.once
  case accepted =>
    intro q y hy hdata
    obtain ⟨z, hz, ⟨rfl, rfl⟩ | ⟨-, rfl⟩⟩ := getElem?_modify_some hy
    · exact hid
    · exact hsub _ (h.accepted q y hz hdata)

theorem mem_updatePending {f : PendingConnect → PendingConnect} {l : List PendingConnect}
    (h : pc ∈ updatePending id f l) : pc ∈ l ∨ ∃ pd ∈ l, pd.connId = id ∧ pc = f pd := by
  induction l with
  | nil => cases h
  | cons pd l ih =>
    simp only [updatePending] at h
    split at h
    · rename_i hid
      rcases List.mem_cons.mp h with rfl | h
      · exact .inr ⟨pd, List.mem_cons_self, hid, rfl⟩
      · exact .inl (List.mem_cons_of_mem _ h)
    · rcases List.mem_cons.mp h with rfl | h
      · exact .inl List.mem_cons_self
      · rcases ih h with h | ⟨pe, hpe, hrest⟩
        · exact .inl (List.mem_cons_of_mem _ h)
        · exact .inr ⟨pe, List.mem_cons_of_mem _ hpe, hrest⟩

/-- The only new record is the one of the bind. -/
theorem recorded_of_updatePending (ht' : t'.heap = t.heap.modify p fun a => { a with
      pendingConnects := updatePending id
        (fun pc => { pc with firstDataSock := sock, connectResponded := true })
        a.pendingConnects }) {q : Ptr} (hr : Recorded t' q pc) :
    Recorded t q pc ∨ q = p ∧ pc.firstDataSock = sock ∧ pc.connId = id := by
  obtain ⟨hv, b, hb, hpc⟩ := hr
  rw [ht'] at hb
  obtain ⟨a, ha, ⟨rfl, rfl⟩ | ⟨-, rfl⟩⟩ := getElem?_modify_some hb
  · rcases mem_updatePending hpc with hpc | ⟨pd, -, hid, rfl⟩
    · exact .inl ⟨hv, a, ha, hpc⟩
    · exact .inr ⟨rfl, rfl, hid⟩
  · exact .inl ⟨hv, b, ha, hpc⟩

/-- The first bind records the socket of a data connection. -/
theorem Paired.record (h : Paired t k bound) (hon : DataOn k sock id)
    (hpipe : k.dataPipe[sock]? = none) (hfree : ∀ q pc, Recorded t q pc → pc.firstDataSock ≠ sock)
    (ht' : t'.heap = t.heap.modify p fun a => { a with
      pendingConnects := updatePending id
        (fun pc => { pc with firstDataSock := sock, connectResponded := true })
        a.pendingConnects }) : Paired t' k bound := by
  constructor
  case pipe => exact h.pipe
  case pending =>
    intro q pc hr
    rcases recorded_of_updatePending ht' hr with hr | ⟨-, hs, hid⟩
    · exact h.pending hr
    · rw [hs, hid]
      refine ⟨hpipe, fun c y hc hy => ?_⟩
      obtain ⟨c', y', hc', hy', hd, hid⟩ := hon
      cases hc.symm.trans hc'
      cases hy.symm.trans hy'
      exact ⟨hd, hid⟩
  case once =>
    intro q pc r pd hq hr he
    rcases recorded_of_updatePending ht' hq with hq | ⟨rfl, hs, hid⟩
    · rcases recorded_of_updatePending ht' hr with hr | ⟨rfl, hs, hid⟩
      · exact h.once hq hr he
      · exact absurd (he.trans hs) (hfree q pc hq)
    · rcases recorded_of_updatePending ht' hr with hr | ⟨rfl, hs', hid'⟩
      · exact absurd (he.symm.trans hs) (hfree r pd hr)
      · exact ⟨rfl, hid.trans hid'.symm⟩
  case accepted => exact h.accepted

theorem NoNew.retire (ht' : t'.heap = t.heap.modify p fun a => { a with
    pendingConnects := a.pendingConnects.filter fun pc => pc.connId ≠ id }) : NoNew t t' :=
  .modify (fun _ _ hpc _ => (List.mem_filter.mp hpc).1) ht'

/-- The only record of the first socket is the one that is retired. -/
theorem Paired.retired (h : Paired t k bound) (hrec : Recorded t p pc)
    (ht' : t'.heap = t.heap.modify p fun a => { a with
      pendingConnects := a.pendingConnects.filter fun pd => pd.connId ≠ pc.connId }) {q : Ptr}
    {pd : PendingConnect} (hr : Recorded t' q pd) : pd.firstDataSock ≠ pc.firstDataSock := by
  intro he
  obtain ⟨rfl, hid⟩ := h.once (NoNew.retire ht' q pd hr) hrec he
  obtain ⟨-, b, hb, hpd⟩ := hr
  rw [ht'] at hb
  obtain ⟨a, -, ⟨-, rfl⟩ | ⟨hne, -⟩⟩ := getElem?_modify_some hb
  · have hkept := (List.mem_filter.mp hpd).2
    simp [hid] at hkept
  · exact hne rfl

/-- The second bind pairs two data connections of one id, neither of them paired
or still recorded. -/
theorem Paired.publish (h : Paired t k bound) {first : Socket} (id : UInt32)
    (hon : DataOn k sock id) (hon' : DataOn k first id) (hne : first ≠ sock)
    (hpipe : k.dataPipe[sock]? = none) (hpipe' : k.dataPipe[first]? = none)
    (ht : ∀ q pc, Recorded t' q pc →
      Recorded t q pc ∧ pc.firstDataSock ≠ sock ∧ pc.firstDataSock ≠ first) (c peer : Ptr) :
    Paired t' (k.publish sock first c peer) bound := by
  have hold {a : Socket} (ha : a ≠ sock) (ha' : a ≠ first) :
      (k.publish sock first c peer).dataPipe[a]? = k.dataPipe[a]? :=
    (getElem?_insert_of_ne ha').trans (getElem?_insert_of_ne ha)
  have hsock : (k.publish sock first c peer).dataPipe[sock]? = some first :=
    (getElem?_insert_of_ne hne.symm).trans TreeMap.getElem?_insert_self
  have hfirst : (k.publish sock first c peer).dataPipe[first]? = some sock :=
    TreeMap.getElem?_insert_self
  constructor
  case pipe =>
    intro a b hab
    obtain ⟨rfl, rfl⟩ | ⟨-, hab⟩ := getElem?_insert_some hab
    · exact ⟨hsock, hne, id, hon', hon⟩
    obtain ⟨rfl, rfl⟩ | ⟨-, hab⟩ := getElem?_insert_some hab
    · exact ⟨hfirst, hne.symm, id, hon, hon'⟩
    obtain ⟨hba, hab, hdata⟩ := h.pipe hab
    refine ⟨(hold ?_ ?_).trans hba, hab, hdata⟩
    · rintro rfl
      cases hpipe.symm.trans hba
    · rintro rfl
      cases hpipe'.symm.trans hba
  case pending =>
    intro q pc hr
    obtain ⟨hr, hs, hf⟩ := ht q pc hr
    rw [hold hs hf]
    exact h.pending hr
  case once => exact fun hq hr he => h.once (ht _ _ hq).1 (ht _ _ hr).1 he
  case accepted => exact h.accepted

end

/-! ## Connections that come and go -/

theorem Paired.register (h : Paired t k bound) (hok : k.Ok) {conn : TcpConn}
    (hd : conn.isData = false) (hfree : k.tcpBySock[conn.sock]? = none)
    (hrec : ∀ q pc, Recorded t q pc → pc.firstDataSock ≠ conn.sock) :
    Paired t { k with
      heap := k.heap.insert k.nextPtr conn
      tcpBySock := k.tcpBySock.insert conn.sock k.nextPtr
      nextPtr := k.nextPtr + 1 } bound := by
  have hheap {q : Ptr} {y : TcpConn} (hq : k.heap[q]? = some y) :
      (k.heap.insert k.nextPtr conn)[q]? = some y :=
    (getElem?_insert_of_ne (Nat.ne_of_lt (hok.fresh hq))).trans hq
  have hon {a : Socket} {id : UInt32} (ha : DataOn k a id) : DataOn { k with
      heap := k.heap.insert k.nextPtr conn
      tcpBySock := k.tcpBySock.insert conn.sock k.nextPtr
      nextPtr := k.nextPtr + 1 } a id := by
    obtain ⟨q, y, hq, hy, hdata⟩ := ha
    have hne : a ≠ conn.sock := by
      rintro rfl
      cases hfree.symm.trans hq
    exact ⟨q, y, (getElem?_insert_of_ne hne).trans hq, hheap hy, hdata⟩
  constructor
  case pipe =>
    intro a b hab
    obtain ⟨hba, hne, id, ha, hb⟩ := h.pipe hab
    exact ⟨hba, hne, id, hon ha, hon hb⟩
  case pending =>
    intro q pc hr
    obtain ⟨hnone, hrole⟩ := h.pending hr
    refine ⟨hnone, fun d y hdsock hy => ?_⟩
    obtain ⟨he, -⟩ | ⟨-, hdsock⟩ := getElem?_insert_some hdsock
    · exact absurd he (hrec q pc hr)
    · obtain ⟨z, hz, -⟩ := hok.bySock hdsock
      have hzy := (hheap hz).symm.trans hy
      exact hrole d y hdsock (hz.trans hzy)
  case once => exact h.once
  case accepted =>
    intro q y hy hdata
    obtain ⟨-, rfl⟩ | ⟨-, hy⟩ := getElem?_insert_some hy
    · cases hd.symm.trans hdata
    · exact h.accepted q y hy hdata

/-- What is left of the pipe when the connection on a socket is closed. -/
theorem Paired.unpublish_dataPipe (h : Paired t k bound) (c : Ptr) {a b : Socket} :
    (k.unpublish sock c).dataPipe[a]? = some b ↔ k.dataPipe[a]? = some b ∧ a ≠ sock ∧ b ≠ sock := by
  simp only [Conns.unpublish]
  cases hs : k.dataPipe[sock]? with
  | none =>
    refine ⟨fun hab => ⟨hab, ?_, ?_⟩, fun hab => hab.1⟩
    · rintro rfl
      cases hs.symm.trans hab
    · rintro rfl
      cases hs.symm.trans (h.pipe hab).1
  | some other =>
    constructor
    · intro hab
      obtain ⟨has, hab⟩ := getElem?_erase_some hab
      obtain ⟨hao, hab⟩ := getElem?_erase_some hab
      refine ⟨hab, has, fun hbs => hao ?_⟩
      have hba := (h.pipe hab).1
      rw [hbs, hs] at hba
      exact (Option.some.inj hba).symm
    · rintro ⟨hab, has, hbs⟩
      have hao : a ≠ other := by
        rintro rfl
        cases hab.symm.trans (h.pipe hs).1
        exact hbs rfl
      exact (getElem?_erase_of_ne has).trans ((getElem?_erase_of_ne hao).trans hab)

theorem Paired.close (h : Paired t k bound) (hok : k.Ok) (ht : NoNew t t') {c : Ptr}
    {conn : TcpConn} (hl : k.live sock = some (c, conn)) :
    Paired t' ((k.unpublish sock c).unlink sock c) bound := by
  -- the connection on another socket is another connection
  have hheap {a : Socket} {q : Ptr} (ha : a ≠ sock) (hq : k.tcpBySock[a]? = some q) :
      ((k.unpublish sock c).unlink sock c).heap[q]? = k.heap[q]? := by
    refine k.close_heap_of_ne sock ?_
    rintro rfl
    exact ha (hok.bySock_inj hq (Conns.live_eq_some hl).1)
  have hon {a : Socket} {id : UInt32} (ha : a ≠ sock) (hd : DataOn k a id) :
      DataOn ((k.unpublish sock c).unlink sock c) a id := by
    obtain ⟨q, y, hq, hy, hdata⟩ := hd
    exact ⟨q, y, (getElem?_erase_of_ne ha).trans hq, (hheap ha hq).trans hy, hdata⟩
  constructor
  case pipe =>
    intro a b hab
    obtain ⟨hab, ha, hb⟩ := (h.unpublish_dataPipe c).mp hab
    obtain ⟨hba, hne, id, hda, hdb⟩ := h.pipe hab
    exact ⟨(h.unpublish_dataPipe c).mpr ⟨hba, hb, ha⟩, hne, id, hon ha hda, hon hb hdb⟩
  case pending =>
    intro q pc hr
    obtain ⟨hnone, hrole⟩ := h.pending (ht q pc hr)
    constructor
    · cases hp : ((k.unpublish sock c).unlink sock c).dataPipe[pc.firstDataSock]? with
      | none => rfl
      | some b => cases hnone.symm.trans ((h.unpublish_dataPipe c).mp hp).1
    · intro d y hd hy
      obtain ⟨hne, hd⟩ := getElem?_erase_some hd
      exact hrole d y hd ((hheap hne hd).symm.trans hy)
  case once => exact fun hq hr he => h.once (ht _ _ hq) (ht _ _ hr) he
  case accepted =>
    intro q y hy hdata
    obtain ⟨z, hz, hyz⟩ := getElem?_modify_some hy
    obtain ⟨w, hw, hzw⟩ := getElem?_modify_some hz
    have hroles : y.isData = w.isData ∧ y.connId = w.connId := by
      rcases hyz with ⟨-, rfl⟩ | ⟨-, rfl⟩ <;> rcases hzw with ⟨-, rfl⟩ | ⟨-, rfl⟩ <;>
        exact ⟨rfl, rfl⟩
    rw [hroles.2]
    exact h.accepted q w hw (hroles.1.symm.trans hdata)

theorem Paired.reap (h : Paired t k bound) (hok : k.Ok) (inUse : Ptr → Bool) :
    Paired t { k with
      heap := (k.pendingFree.filter fun c => !inUse c).foldl (fun m c => m.erase c) k.heap
      pendingFree := k.pendingFree.filter inUse } bound := by
  have hback {q : Ptr} {y : TcpConn}
      (hy : ((k.pendingFree.filter fun c => !inUse c).foldl (fun m c => m.erase c) k.heap)[q]? =
        some y) : k.heap[q]? = some y :=
    (getElem?_foldl_erase_some (g := id) hy).2
  have hon {a : Socket} {id : UInt32} (ha : DataOn k a id) : DataOn { k with
      heap := (k.pendingFree.filter fun c => !inUse c).foldl (fun m c => m.erase c) k.heap
      pendingFree := k.pendingFree.filter inUse } a id := by
    obtain ⟨q, y, hq, hy, hdata⟩ := ha
    obtain ⟨z, hz, -⟩ := (hok.reap inUse).bySock hq
    cases hy.symm.trans (hback hz)
    exact ⟨q, y, hq, hz, hdata⟩
  constructor
  case pipe =>
    intro a b hab
    obtain ⟨hba, hne, id, ha, hb⟩ := h.pipe hab
    exact ⟨hba, hne, id, hon ha, hon hb⟩
  case pending =>
    intro q pc hr
    exact ⟨(h.pending hr).1, fun d y hd hy => (h.pending hr).2 d y hd (hback hy)⟩
  case once => exact h.once
  case accepted => exact fun q y hy => h.accepted q y (hback hy)

/-! ## Binds -/

theorem findPendingByConnId_eq_some_iff {q : Ptr × PendingConnect} :
    t.findPendingByConnId id = some q ↔
      t.pendingByConnId[id]? = some q.1 ∧ ∃ a, t.heap[q.1]? = some a ∧
        a.pendingConnects.find? (fun pc => pc.connId = id) = some q.2 := by
  unfold Tables.findPendingByConnId
  constructor
  · intro h
    split at h
    · cases h
    · rename_i p hp
      split at h
      · cases h
      · rename_i a ha
        obtain ⟨pc, hpc, rfl⟩ := Option.map_eq_some_iff.mp h
        exact ⟨hp, a, ha, hpc⟩
  · rintro ⟨hp, a, ha, hpc⟩
    simp [hp, ha, hpc]

theorem findPendingByConnId_eq_some {pc : PendingConnect}
    (h : t.findPendingByConnId id = some (p, pc)) :
    pc.connId = id ∧ t.Holds p fun a => pc ∈ a.pendingConnects := by
  obtain ⟨-, a, ha, hpc⟩ := findPendingByConnId_eq_some_iff.mp h
  exact ⟨by simpa using List.find?_some hpc, a, ha, List.mem_of_find?_eq_some hpc⟩

theorem pairData_roles (s : State) (c : Ptr) (sock first : Socket) :
    SameRoles s.conns (pairData s c sock first).conns ∨
      ∃ peer, s.conns.tcpConnRef first = some peer ∧
        SameRoles (s.conns.publish sock first c peer) (pairData s c sock first).conns := by
  unfold pairData
  split
  · rename_i peer hpeer
    have hflush := SameRoles.of_buffered
      (flushPrePair_buffered { s with conns := s.conns.publish sock first c peer } c)
    exact .inr ⟨peer, hpeer, hflush.trans (.of_buffered (flushPrePair_buffered _ peer))⟩
  · exact .inl (.refl _)

variable {src : AddrRecord} {conn : Option Ptr} {msg : Message}

theorem handleConnectionBind_paired (h : Paired s.tables s.conns bound)
    (hsub : ∀ y ∈ bound, y ∈ bound')
    (haccept : ∀ c x id, conn = some c → s.conns.heap[c]? = some x →
      (authenticate cfg env s msg).1 = 0 → readConnectionId msg = some id →
      (s.tables.findPendingByConnId id).isSome →
      (c, id) ∈ bound' ∧ s.conns.tcpBySock[x.sock]? = some c ∧ x.isData = false) :
    Paired (handleConnectionBind cfg env s conn msg).tables
      (handleConnectionBind cfg env s conn msg).conns bound' := by
  have hkeep : Paired s.tables s.conns bound' :=
    ⟨h.pipe, h.pending, h.once, fun c x hx hd => hsub _ (h.accepted c x hx hd)⟩
  apply handleConnectionBind_rule (P := fun s' => Paired s'.tables s'.conns bound')
    (fun _ => (Quiet.of_tables_conns cfg env fun t k => Paired t k bound').answering) hkeep
  case hfirst =>
    intro c x id p connector pc hc hx hauth hid hpc hp hfirst
    obtain ⟨hbound, hsock, hd⟩ := haccept c x id hc hx hauth hid (by rw [hpc]; rfl)
    rw [bindFirst_tables, bindFirst_conns]
    refine (h.mark hx hd hsub hbound).record ?_
      (h.not_piped hsock hx hd) (fun q pd => h.not_recorded hsock hx hd) rfl
    exact ⟨c, _, hsock, by rw [TreeMap.getElem?_modify_self, hx]; rfl, rfl, rfl⟩
  case hsecond =>
    intro c x id p connector pc hc hx hauth hid hpc hp hfirst
    obtain ⟨hbound, hsock, hd⟩ := haccept c x id hc hx hauth hid (by rw [hpc]; rfl)
    obtain ⟨rfl, hrec⟩ := findPendingByConnId_eq_some hpc
    have hrec : Recorded s.tables p pc := ⟨hfirst, hrec⟩
    have hmark := h.mark hx hd hsub hbound
    rw [bindSecond_tables, bindSecond_conns]
    obtain hroles | ⟨peer, hpeer, hroles⟩ :=
      pairData_roles (sendBindResponse cfg (markData s c pc.connId) c msg) c x.sock pc.firstDataSock
    · exact hmark.same (.retire rfl) hroles
    · refine Paired.same (hmark.publish pc.connId ?_ ?_ (h.not_recorded hsock hx hd hrec)
        (h.not_piped hsock hx hd) (h.pending hrec).1 ?_ c peer) (.refl _) hroles
      · exact ⟨c, _, hsock, by rw [TreeMap.getElem?_modify_self, hx]; rfl, rfl, rfl⟩
      · obtain ⟨hpeer, y, hy, -⟩ := Conns.tcpConnRef_eq_some hpeer
        obtain ⟨hdata, hyid⟩ := (hmark.pending hrec).2 peer y hpeer hy
        exact ⟨peer, y, hpeer, hy, hdata, hyid⟩
      · intro q pd hr
        have hr' := NoNew.retire rfl q pd hr
        exact ⟨hr', h.not_recorded hsock hx hd hr', h.retired hrec rfl hr⟩

/-- No other message records a socket or touches a connection. -/
theorem dispatchStun_noNew {alloc : Option (Ptr × Allocation)}
    (hb : ¬(msg.cls = .request ∧ msg.method = .connectionBind)) :
    NoNew s.tables (dispatchStun cfg env s src conn msg alloc).tables ∧
      (dispatchStun cfg env s src conn msg alloc).conns = s.conns := by
  refine ⟨?_, dispatchStun_conns hb⟩
  apply dispatchStun_tables_cases (R := fun t _ => NoNew s.tables t) (.refl _)
  case hallocate =>
    intro s' src conn msg hs
    have hless : NoNew s.tables s'.tables :=
      hs.rule (Q := NoNew s.tables) (.refl _) (.destroyAllocation cfg _)
    exact hless.trans (.handleAllocate cfg env s' src conn msg)
  case hdestroy => exact fun p _ _ => .destroyAllocation cfg _ p
  case hmodify =>
    intro p a f _ hf
    refine .modify (fun a pd hpd _ => ?_) rfl
    rw [hf a] at hpd
    exact hpd
  case hchannel =>
    exact fun p a channel peer _ _ _ _ _ _ =>
      .modify (f := Allocation.bindChannel env.now channel peer) (fun _ _ h _ => h) rfl
  case hconnect =>
    intro p a pc _ hpc _
    refine .modify (f := fun a => { a with pendingConnects := a.pendingConnects ++ [pc] }) ?_ rfl
    intro a pd hpd hv
    rcases List.mem_append.mp hpd with hpd | hpd
    · exact hpd
    · cases List.mem_singleton.mp hpd
      exact absurd hpc hv
  case hfirst => exact fun _ _ _ _ _ _ _ hacc => absurd ⟨hacc.1, hacc.2.1⟩ hb
  case hsecond => exact fun _ _ _ _ _ _ _ hacc => absurd ⟨hacc.1, hacc.2.1⟩ hb

theorem dispatchStun_paired {alloc : Option (Ptr × Allocation)}
    (h : Paired s.tables s.conns bound) (hsub : ∀ y ∈ bound, y ∈ bound')
    (haccept : ∀ c x id, conn = some c → s.conns.heap[c]? = some x → msg.cls = .request →
      msg.method = .connectionBind → (authenticate cfg env s msg).1 = 0 →
      readConnectionId msg = some id → (s.tables.findPendingByConnId id).isSome →
      (c, id) ∈ bound' ∧ s.conns.tcpBySock[x.sock]? = some c ∧ x.isData = false) :
    Paired (dispatchStun cfg env s src conn msg alloc).tables
      (dispatchStun cfg env s src conn msg alloc).conns bound' := by
  by_cases hb : msg.cls = .request ∧ msg.method = .connectionBind
  · rw [dispatchStun_bind hb.1 hb.2]
    exact handleConnectionBind_paired h hsub fun c x id hc hx => haccept c x id hc hx hb.1 hb.2
  · obtain ⟨ht, hk⟩ := dispatchStun_noNew hb
    rw [hk]
    have hkeep : Paired s.tables s.conns bound' :=
      ⟨h.pipe, h.pending, h.once, fun c x hx hd => hsub _ (h.accepted c x hx hd)⟩
    exact hkeep.same ht (.refl _)

/-! ## Runs -/

/-- The server with the accepted CONNECTION-BIND requests: the connection each
came on and the id it named. -/
structure History where
  state : State
  bound : List (Ptr × UInt32)

/-- The CONNECTION-BIND request an event gets accepted. -/
def acceptedBind (cfg : Config) (s : State) (e : Event × Env) : Option (Ptr × UInt32) :=
  match e.1 with
  | .tcpParse sock =>
      match s.nextMessage sock with
      | none => none
      | some (c, _, msg) =>
          if msg.cls = .request ∧ msg.method = .connectionBind ∧
              (authenticate cfg e.2 s msg).1 = 0 then
            (readConnectionId msg).bind fun id =>
              (s.tables.findPendingByConnId id).map fun _ => (c, id)
          else none
  | _ => none

theorem acceptedBind_eq_some_iff {c q : Ptr} {x : TcpConn}
    (hnext : s.nextMessage sock = some (c, x, msg)) :
    acceptedBind cfg s (.tcpParse sock, env) = some (q, id) ↔
      c = q ∧ msg.cls = .request ∧ msg.method = .connectionBind ∧
        (authenticate cfg env s msg).1 = 0 ∧ readConnectionId msg = some id ∧
        (s.tables.findPendingByConnId id).isSome := by
  simp only [acceptedBind, hnext, Option.isSome_iff_exists]
  constructor
  · intro h
    split at h
    · rename_i hb
      obtain ⟨id', hid, h⟩ := Option.bind_eq_some_iff.mp h
      obtain ⟨y, hy, h⟩ := Option.map_eq_some_iff.mp h
      cases h
      exact ⟨rfl, hb.1, hb.2.1, hb.2.2, hid, y, hy⟩
    · cases h
  · rintro ⟨rfl, hcls, hm, hauth, hid, y, hy⟩
    simp [hcls, hm, hauth, hid, hy]

def historyStep (cfg : Config) (h : History) (e : Event × Env) : History :=
  ⟨step cfg h.state e, h.bound ++ (acceptedBind cfg h.state e).toList⟩

def History.start (cfg : Config) (env : Env) : History := ⟨State.start cfg env, []⟩

/-- A new connection gets a number that no open connection has and that no
pending connect has recorded, and a connection that binds has not been closed since
its chunk came. -/
def KeepsNumbers (cfg : Config) (h : History) (e : Event × Env) : Prop :=
  match e.1 with
  | .tcpAccepted sock _ _ _ => h.state.conns.tcpBySock[sock]? = none ∧
      ∀ p pc, Recorded h.state.tables p pc → pc.firstDataSock ≠ sock
  | .tcpParse sock => ∀ c id, acceptedBind cfg h.state e = some (c, id) →
      h.state.conns.tcpConnRef sock = some c
  | _ => True

variable {h : History} {e : Event × Env}

theorem parsePass_paired (hok : s.conns.Ok) (hp : Paired s.tables s.conns bound) (sock : Socket)
    (env : Env) (he : KeepsNumbers cfg ⟨s, bound⟩ (.tcpParse sock, env)) :
    Paired (parsePass cfg env s sock).tables (parsePass cfg env s sock).conns
      (bound ++ (acceptedBind cfg s (.tcpParse sock, env)).toList) := by
  have hsub : ∀ y ∈ bound, y ∈ bound ++ (acceptedBind cfg s (.tcpParse sock, env)).toList :=
    fun y hy => List.mem_append_left _ hy
  have hkeep : Paired s.tables s.conns
      (bound ++ (acceptedBind cfg s (.tcpParse sock, env)).toList) :=
    ⟨hp.pipe, hp.pending, hp.once, fun c x hx hd => hsub _ (hp.accepted c x hx hd)⟩
  have hroles (c : Ptr) : SameRoles s.conns (s.advance c).conns :=
    .modify _ c fun _ => ⟨rfl, rfl⟩
  refine parsePass_rule (P := fun s' => Paired s'.tables s'.conns
    (bound ++ (acceptedBind cfg s (.tcpParse sock, env)).toList))
    (Quiet.of_tables_conns cfg env fun t k => Paired t k _) hkeep
    (fun c _ _ => hkeep.same (.refl _) (hroles c)) (fun _ _ hs => hs)
    (fun c _ _ _ _ _ _ _ => hkeep.same (.refl _) (hroles c))
    (fun c _ _ _ _ _ _ _ => hkeep.same (.refl _) (hroles c)) fun c x msg hnext => ?_
  refine dispatchStun_paired (hp.same (.refl _) (hroles c)) hsub ?_
  intro d y id hd hy hcls hm hauth hid hpc
  cases hd
  have hauth : (authenticate cfg env s msg).1 = 0 :=
    (@authenticate_congr cfg env s (s.advance c) msg rfl rfl).symm.trans hauth
  have hacc := (acceptedBind_eq_some_iff hnext).mpr ⟨rfl, hcls, hm, hauth, hid, hpc⟩
  have hdata := State.nextMessage_isData hnext
  obtain ⟨w, hw, ⟨-, rfl⟩ | ⟨hne, -⟩⟩ := getElem?_modify_some hy
  · cases (State.held_eq_some (State.nextMessage_held hnext)).2.symm.trans hw
    obtain ⟨hsock, -⟩ := Conns.tcpConnRef_eq_some (he c id hacc)
    obtain ⟨z, hz, hzs, -⟩ := hok.bySock hsock
    cases hz.symm.trans hw
    refine ⟨?_, ?_, hdata⟩
    · rw [hacc]
      exact List.mem_append_right _ List.mem_cons_self
    · rw [show _ = sock from hzs]
      exact hsock
  · exact absurd rfl hne

theorem historyStep_paired (hok : h.state.conns.Ok)
    (hp : Paired h.state.tables h.state.conns h.bound)
    (he : KeepsNumbers cfg h e) :
    Paired (historyStep cfg h e).state.tables (historyStep cfg h e).state.conns
      (historyStep cfg h e).bound := by
  obtain ⟨s, bound⟩ := h
  obtain ⟨e, env⟩ := e
  cases e with
  | udpData data ip port =>
    rw [historyStep, acceptedBind, Option.toList_none, List.append_nil]
    exact ioOnUdpData_rule (P := fun s' => Paired s'.tables s'.conns bound)
      (Quiet.of_tables_conns cfg env fun t k => Paired t k bound) hp (fun _ _ _ _ _ => hp)
      fun msg _ => dispatchStun_paired hp (fun _ hy => hy) fun _ _ _ hc => nomatch hc
  | relayData sock data ip port =>
    rw [historyStep, acceptedBind, Option.toList_none, List.append_nil]
    exact Quiet.ioOnRelayData (P := fun s' => Paired s'.tables s'.conns bound)
      (Quiet.of_tables_conns cfg env fun t k => Paired t k bound) hp sock data _
  | tcpAccepted sock ip port hv =>
    rw [historyStep, acceptedBind, Option.toList_none, List.append_nil]
    exact @Paired.register _ _ _ hp hok ⟨sock, ⟨ip, port, .stream⟩, _, _, _, _, _⟩ rfl he.1 he.2
  | tcpReceive sock data =>
    rw [historyStep, acceptedBind, Option.toList_none, List.append_nil]
    refine hp.same ?_ (.of_buffered (receive_buffered s sock data))
    exact .of_from (.of_heap .refl (congrArg Tables.heap (receive_tables s sock data)))
  | tcpParse sock => exact parsePass_paired hok hp sock env he
  | tcpConnClosed sock =>
    rw [historyStep, acceptedBind, Option.toList_none, List.append_nil]
    show Paired (closeTcpConn cfg s sock).tables (closeTcpConn cfg s sock).conns bound
    unfold closeTcpConn
    split
    · exact hp
    · rename_i c x hl
      obtain ⟨hs, hv⟩ := hok.sock_eq hl
      rw [if_neg (hs ▸ hv), hs]
      refine hp.close hok ?_ hl
      dsimp only
      split
      · exact .destroyAllocation cfg _ _
      · exact .refl _
  | tick =>
    rw [historyStep, acceptedBind, Option.toList_none, List.append_nil]
    show Paired (expireStale cfg env s).tables (expireStale cfg env s).conns bound
    rw [expireStale_tables, expireStale_conns]
    exact hp.same (.expireAllocations cfg env.now _) (.refl _)
  | reap =>
    rw [historyStep, acceptedBind, Option.toList_none, List.append_nil]
    exact hp.reap hok s.inUse

/-- Two distinct live connections, each with an accepted CONNECTION-BIND for one
id. -/
def PairedBySameId (h : History) (a b : Socket) : Prop :=
  ∃ c d id, h.state.conns.tcpConnRef a = some c ∧ h.state.conns.tcpConnRef b = some d ∧ c ≠ d ∧
    (c, id) ∈ h.bound ∧ (d, id) ∈ h.bound

/-- In every run in which no new connection gets a recorded number and no closed
connection binds, the pipe is symmetric and irreflexive and pairs connections bound
to one id. -/
theorem dataPipe_pairs
    (hr : Reach (fun h => ∃ env, h = History.start cfg env)
      (Guarded (KeepsNumbers cfg) (historyStep cfg)) h)
    {a b : Socket} (hab : h.state.conns.dataPipe[a]? = some b) :
    h.state.conns.dataPipe[b]? = some a ∧ a ≠ b ∧ PairedBySameId h a b := by
  have hinv : h.state.conns.Ok ∧ Paired h.state.tables h.state.conns h.bound := by
    refine Reach.invariant
      (P := fun h => h.state.conns.Ok ∧ Paired h.state.tables h.state.conns h.bound) ?_ ?_ hr
    · rintro h ⟨env, rfl⟩
      exact ⟨Conns.ok_empty, paired_empty []⟩
    · rintro h e h' ⟨hok, hp⟩ ⟨he, rfl⟩
      exact ⟨step_conns_ok hok e, historyStep_paired hok hp he⟩
  obtain ⟨hok, hp⟩ := hinv
  obtain ⟨hba, hne, id, ⟨c, x, hc, hx, hd, hid⟩, d, y, hcy, hy, hdy, hidy⟩ := hp.pipe hab
  refine ⟨hba, hne, c, d, id, hok.tcpConnRef_of_bySock hc, hok.tcpConnRef_of_bySock hcy, ?_,
    hid ▸ hp.accepted c x hx hd, hidy ▸ hp.accepted d y hy hdy⟩
  rintro rfl
  exact hne (hok.bySock_inj hc hcy)

/-- A sufficient check of the condition. -/
def numberFree (cfg : Config) (h : History) (e : Event × Env) : Bool :=
  match e.1 with
  | .tcpAccepted sock _ _ _ => h.state.conns.tcpBySock[sock]?.isNone &&
      h.state.tables.heap.toList.all fun y => y.2.pendingConnects.all fun pc =>
        pc.firstDataSock ≠ sock
  | .tcpParse sock => (acceptedBind cfg h.state e).all fun x =>
      h.state.conns.tcpConnRef sock = some x.1
  | _ => true

theorem keepsNumbers_of_numberFree (h : History) (e : Event × Env)
    (he : numberFree cfg h e = true) : KeepsNumbers cfg h e := by
  obtain ⟨e, env⟩ := e
  cases e with
  | tcpAccepted sock ip port hv =>
    simp only [numberFree, Bool.and_eq_true, Option.isNone_iff_eq_none, List.all_eq_true] at he
    refine And.intro he.1 ?_
    rintro p pc ⟨-, a, ha, hpc⟩
    exact of_decide_eq_true (he.2 (p, a) (TreeMap.mem_toList_iff_getElem?_eq_some.mpr ha) pc hpc)
  | tcpParse sock =>
    intro c id hacc
    simpa [numberFree, hacc] using he
  | _ => trivial

/-- A CONNECT to 10.0.0.1:49153, signed by `u` under the nonce `n`. -/
def connectRequest : Bytes :=
  [0, 10, 0, 68, 33, 18, 164, 66, 1, 2, 3, 4, 5, 6, 7, 8, 9, 10, 11, 12, 0, 6, 0, 1, 117, 0, 0, 0,
    0, 20, 0, 1, 114, 0, 0, 0, 0, 21, 0, 1, 110, 0, 0, 0, 0, 18, 0, 8, 0, 1, 225, 19, 43, 18, 164,
    67, 0, 8, 0, 20, 139, 37, 152, 134, 181, 112, 33, 48, 81, 201, 35, 142, 137, 175, 232, 13, 131,
    181, 166, 6, 128, 40, 0, 4, 78, 149, 3, 108]

/-- A CONNECTION-BIND for the id 1. -/
def connectionBindRequest : Bytes :=
  [0, 11, 0, 64, 33, 18, 164, 66, 1, 2, 3, 4, 5, 6, 7, 8, 9, 10, 11, 12, 0, 6, 0, 1, 117, 0, 0, 0,
    0, 20, 0, 1, 114, 0, 0, 0, 0, 21, 0, 1, 110, 0, 0, 0, 0, 42, 0, 4, 0, 0, 0, 1, 0, 8, 0, 20, 185,
    172, 71, 50, 2, 191, 43, 150, 168, 84, 236, 151, 210, 130, 206, 211, 24, 27, 23, 194, 128, 40,
    0, 4, 44, 219, 19, 20]

/-- Two clients with an allocation, a CONNECT from the first and two connections
to bind. -/
def connectEvents : List Event := [
  .tcpAccepted 10 (.v4 192 168 0 1) 40000 (by decide),
  .tcpAccepted 11 (.v4 192 168 0 2) 40000 (by decide),
  .tcpAccepted 12 (.v4 192 168 0 2) 40001 (by decide),
  .tcpAccepted 13 (.v4 192 168 0 1) 40001 (by decide),
  .tcpReceive 10 allocateTcp, .tcpParse 10, .tcpParse 10, .tcpReceive 11 allocateTcp, .tcpParse 11,
  .tcpReceive 10 connectRequest, .tcpParse 10]

def bindEvents : List Event := [
  .tcpReceive 12 connectionBindRequest, .tcpParse 12,
  .tcpReceive 13 connectionBindRequest, .tcpParse 13]

theorem dataPipe_pairs_two_clients :
    ∃ h, checkedRun (numberFree smallConfig) (historyStep smallConfig)
      (History.start smallConfig smallEnv)
        ((connectEvents ++ bindEvents).map (·, smallEnv)) = some h ∧
      h.state.conns.dataPipe[(12 : Socket)]? = some 13 ∧
      h.state.conns.dataPipe[(13 : Socket)]? = some 12 ∧ PairedBySameId h 12 13 := by
  have hrun : (checkedRun (numberFree smallConfig) (historyStep smallConfig)
      (History.start smallConfig smallEnv)
      ((connectEvents ++ bindEvents).map (·, smallEnv))).bind
      (fun h => h.state.conns.dataPipe[(12 : Socket)]?) = some 13 := by
    decide +kernel
  obtain ⟨h, hrun, hpipe⟩ := Option.bind_eq_some_iff.mp hrun
  have hreach := Reach.of_checkedRun (fun h => ∃ env, h = History.start smallConfig env)
    keepsNumbers_of_numberFree (.start ⟨smallEnv, rfl⟩) hrun
  obtain ⟨hback, -, hids⟩ := dataPipe_pairs hreach hpipe
  exact ⟨h, hrun, hpipe, hback, hids⟩

/-- The first bound connection is closed and its number given to a new one, which
binds to the same id: the pipe pairs the new connection with itself. -/
theorem dataPipe_pairs_with_itself :
    let before : List Event := [
      .tcpAccepted 10 (.v4 192 168 0 1) 40000 (by decide),
      .tcpAccepted 11 (.v4 192 168 0 2) 40000 (by decide),
      .tcpAccepted 12 (.v4 192 168 0 2) 40001 (by decide),
      .tcpReceive 10 allocateTcp, .tcpParse 10, .tcpParse 10, .tcpReceive 11 allocateTcp,
      .tcpParse 11, .tcpReceive 10 connectRequest, .tcpParse 10,
      .tcpReceive 12 connectionBindRequest, .tcpParse 12, .tcpParse 12, .tcpConnClosed 12]
    let after : List Event := [.tcpAccepted 12 (.v4 192 168 0 1) 40001 (by decide),
      .tcpReceive 12 connectionBindRequest, .tcpParse 12]
    let h := (before.map (·, smallEnv)).foldl (historyStep smallConfig)
      (History.start smallConfig smallEnv)
    let h' := (after.map (·, smallEnv)).foldl (historyStep smallConfig) h
    h.state.conns.tcpBySock[(12 : Socket)]? = none ∧
      h'.state.conns.dataPipe[(12 : Socket)]? = some 12 := by
  decide +kernel

end Stice.Server
