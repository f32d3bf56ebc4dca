import Stice.Server.Authorization

/-! CONNECTION-BIND: which connections become data connections, and how many for
one CONNECT. Any registered user may bind; a pending connect is found by its id
only. -/
namespace Stice.Server
open Std Net Stun Turn Lib

variable {cfg : Config} {env : Env} {s : State} {t t' : Tables} {p : Ptr} {id : UInt32}
variable {q : Ptr × PendingConnect} {count : UInt32 → Nat} {c : Ptr} {e : Event}

/-! ## Finding a pending connect -/

/-- Whatever is found later was found before. -/
def Tables.FindsLess (t t' : Tables) : Prop :=
  ∀ id q, t'.findPendingByConnId id = some q → t.findPendingByConnId id = some q

theorem Tables.FindsLess.trans {t₁ t₂ t₃ : Tables} (h : FindsLess t₁ t₂) (h' : FindsLess t₂ t₃) :
    FindsLess t₁ t₃ :=
  fun id q hq => h id q (h' id q hq)

/-- Fewer ids, and at each of them the same pending connect. -/
theorem Tables.FindsLess.of_maps
    (hids : ∀ (id : UInt32) (p : Ptr), t'.pendingByConnId[id]? = some p →
      t.pendingByConnId[id]? = some p)
    (hheap : ∀ (p : Ptr) (b : Allocation), t'.heap[p]? = some b → b.pendingConnects = [] ∨
      ∃ a, t.heap[p]? = some a ∧ ∀ id, t'.pendingByConnId[id]? = some p →
        b.pendingConnects.find? (fun pc => pc.connId = id) =
          a.pendingConnects.find? (fun pc => pc.connId = id)) : FindsLess t t' := by
  intro id q hq
  obtain ⟨hp, b, hb, hpc⟩ := findPendingByConnId_eq_some_iff.mp hq
  obtain hnil | ⟨a, ha, hfind⟩ := hheap q.1 b hb
  · rw [hnil] at hpc
    cases hpc
  · exact findPendingByConnId_eq_some_iff.mpr ⟨hids id q.1 hp, a, ha, (hfind id hp).symm.trans hpc⟩

theorem Tables.FindsLess.onlyPorts (h : OnlyPorts t t') : FindsLess t t' := by
  rw [h]
  exact .of_maps (fun _ _ hp => hp) fun _ b hb => .inr ⟨b, hb, fun _ _ => rfl⟩

theorem Tables.FindsLess.destroyAllocation (cfg : Config) (t : Tables) (p : Ptr) :
    FindsLess t (Tables.destroyAllocation cfg p t) := by
  refine .of_maps (fun id q hq => ?_) fun q b hb => ?_
  · unfold Tables.destroyAllocation at hq
    split at hq
    · exact hq
    · rename_i a _
      rw [OnlyPorts.releaseRelayPort a.relayPort (some p) (eraseLookups a t)] at hq
      have hq : (eraseLookups a t).pendingByConnId[id]? = some q := by
        unfold eraseAllocation at hq
        split at hq <;> exact hq
      exact (getElem?_foldl_erase_some hq).2
  · obtain ⟨a, ha, rfl⟩ := Tables.From.destroyAllocation (R := Eq) (fun _ => rfl) cfg t p q b hb
    exact .inr ⟨a, ha, fun _ _ => rfl⟩

theorem Tables.FindsLess.register (a : Allocation) (overTcp : Bool) (ha : a.Fresh) (t : Tables) :
    FindsLess t (Tables.register cfg a overTcp t) := by
  have hids : (enterLookups a overTcp t).pendingByConnId = t.pendingByConnId := by
    unfold enterLookups
    dsimp only
    split <;> split <;> rfl
  have herase (k : Bytes) (t : Tables) :
      (eraseAllocation k t).pendingByConnId = t.pendingByConnId := by
    unfold eraseAllocation
    split <;> rfl
  refine .of_maps (fun id q hq => ?_) fun q b hb => ?_
  · have hq : (eraseAllocation (a.key cfg) (enterLookups a overTcp t)).pendingByConnId[id]? =
        some q := hq
    rwa [herase, hids] at hq
  · obtain ⟨-, rfl⟩ | ⟨-, hb⟩ := getElem?_insert_some hb
    · exact .inl ha.pendingConnects
    · obtain ⟨c, hc, rfl⟩ := Tables.From.eraseAllocation (R := Eq) (fun _ => rfl) _ _ q b hb
      rw [enterLookups_heap] at hc
      exact .inr ⟨c, hc, fun _ _ => rfl⟩

theorem Tables.FindsLess.modify (t : Tables) (p : Ptr) {f : Allocation → Allocation}
    (hf : ∀ a, (f a).pendingConnects = a.pendingConnects) : FindsLess t (t.modify p f) := by
  refine .of_maps (fun _ _ hp => hp) fun q b hb => ?_
  obtain ⟨a, ha, ⟨-, rfl⟩ | ⟨-, rfl⟩⟩ := getElem?_modify_some hb
  · exact .inr ⟨a, ha, fun _ _ => by rw [hf a]⟩
  · exact .inr ⟨b, ha, fun _ _ => rfl⟩

/-- The sweep forgets the id of every pending connect it drops. -/
theorem Tables.FindsLess.sweep (t : Tables) (now : Int) {a : Allocation}
    (ha : t.heap[p]? = some a) : FindsLess t (t.sweep now p a) := by
  refine .of_maps (fun id q hq => (getElem?_foldl_erase_some hq).2) fun q b hb => ?_
  obtain ⟨c, hc, ⟨rfl, rfl⟩ | ⟨-, rfl⟩⟩ := getElem?_modify_some hb
  · cases ha.symm.trans hc
    refine .inr ⟨a, ha, fun id hid => ?_⟩
    have hkept := (getElem?_foldl_erase_some hid).1
    have hlive (pc : PendingConnect) (hpc : pc ∈ a.pendingConnects) (he : pc.connId = id) :
        now < pc.expiryMs := by
      refine Int.lt_of_not_ge fun hexp => hkept (List.mem_map.mpr ⟨pc, ?_, he⟩)
      exact List.mem_filter.mpr ⟨hpc, decide_eq_true hexp⟩
    show (a.pendingConnects.filter _).find? _ = _
    rw [List.find?_filter]
    refine List.find?_congr fun pc hpc => ?_
    by_cases he : pc.connId = id
    · simp [he, hlive pc hpc he]
    · simp [he]
  · exact .inr ⟨b, hc, fun _ _ => rfl⟩

theorem find?_updatePending_self {f : PendingConnect → PendingConnect}
    (hf : ∀ pc, (f pc).connId = pc.connId) (l : List PendingConnect) :
    (updatePending id f l).find? (fun pc => pc.connId = id) =
      (l.find? fun pc => pc.connId = id).map f := by
  induction l with
  | nil => rfl
  | cons pc l ih =>
    unfold updatePending
    by_cases h : pc.connId = id
    · simp [h, hf]
    · simpa [h] using ih

theorem find?_updatePending_other {f : PendingConnect → PendingConnect} {id' : UInt32}
    (hf : ∀ pc, (f pc).connId = pc.connId) (hne : id' ≠ id) (l : List PendingConnect) :
    (updatePending id f l).find? (fun pc => pc.connId = id') =
      l.find? fun pc => pc.connId = id' := by
  induction l with
  | nil => rfl
  | cons pc l ih =>
    unfold updatePending
    by_cases h : pc.connId = id
    · have hn : pc.connId ≠ id' := fun e => hne (e.symm.trans h)
      simp [h, hf, hne.symm]
    · simp only [if_neg h, List.find?_cons, ih]

/-! ## Counting -/

/-- With so many binds accepted for each id, a pending connect that no connection
has bound has none, and one that is still pending has at most one. -/
structure Counted (t : Tables) (count : UInt32 → Nat) : Prop where
  two : ∀ id, count id ≤ 2
  one : ∀ id q, t.findPendingByConnId id = some q → count id ≤ 1
  zero : ∀ id q, t.findPendingByConnId id = some q → q.2.firstDataSock = invalidSocket →
    count id = 0

theorem Counted.less (h : Counted t count) (ht : t.FindsLess t') : Counted t' count :=
  ⟨h.two, fun id q hq => h.one id q (ht id q hq), fun id q hq => h.zero id q (ht id q hq)⟩

/-- An update that concerns one id. -/
theorem Counted.update {count' : UInt32 → Nat} (h : Counted t count) (id : UInt32)
    (hother : ∀ id' q, id' ≠ id → t'.findPendingByConnId id' = some q →
      t.findPendingByConnId id' = some q)
    (hsame : ∀ id', id' ≠ id → count' id' = count id') (htwo : count' id ≤ 2)
    (hone : ∀ q, t'.findPendingByConnId id = some q → count' id ≤ 1)
    (hzero : ∀ q, t'.findPendingByConnId id = some q → q.2.firstDataSock = invalidSocket →
      count' id = 0) : Counted t' count' := by
  constructor
  case two =>
    intro id'
    by_cases hid : id' = id
    · exact hid ▸ htwo
    · rw [hsame id' hid]
      exact h.two id'
  case one =>
    intro id' q hq
    by_cases hid : id' = id
    · subst hid
      exact hone q hq
    · rw [hsame id' hid]
      exact h.one id' q (hother id' q hid hq)
  case zero =>
    intro id' q hq hfirst
    by_cases hid : id' = id
    · subst hid
      exact hzero q hq hfirst
    · rw [hsame id' hid]
      exact h.zero id' q (hother id' q hid hq) hfirst

/-- A CONNECT starts the count of its id again. -/
theorem Counted.addPending {count' : UInt32 → Nat} (h : Counted t count) (p : Ptr)
    (pc : PendingConnect) (hzero : count' pc.connId = 0)
    (hsame : ∀ id, id ≠ pc.connId → count' id = count id) :
    Counted (t.addPending p pc) count' := by
  refine h.update pc.connId (fun id q hne hq => ?_) hsame (hzero ▸ Nat.zero_le 2)
    (fun _ _ => hzero ▸ Nat.zero_le 1) fun _ _ _ => hzero
  obtain ⟨hp, b, hb, hpc⟩ := findPendingByConnId_eq_some_iff.mp hq
  have hp : t.pendingByConnId[id]? = some q.1 := (getElem?_insert_of_ne hne).symm.trans hp
  obtain ⟨a, ha, ⟨-, rfl⟩ | ⟨-, rfl⟩⟩ := getElem?_modify_some hb
  · refine findPendingByConnId_eq_some_iff.mpr ⟨hp, a, ha, ?_⟩
    simpa [List.find?_append, hne.symm] using hpc
  · exact findPendingByConnId_eq_some_iff.mpr ⟨hp, b, ha, hpc⟩

/-- A first bind counts if its connection has a number. -/
theorem Counted.recordFirst {count' : UInt32 → Nat} (h : Counted t count) {pc : PendingConnect}
    (hpc : t.findPendingByConnId id = some (p, pc)) {sock : Socket}
    (hsame : ∀ id', id' ≠ id → count' id' = count id') (hone : count' id ≤ 1)
    (hzero : sock = invalidSocket → count' id = 0) : Counted (t.recordFirst p id sock) count' := by
  refine h.update id (fun id' q hne hq => ?_) hsame (Nat.le_succ_of_le hone)
    (fun _ _ => hone) fun q hq hinv => hzero ?_
  · obtain ⟨hp, b, hb, hq⟩ := findPendingByConnId_eq_some_iff.mp hq
    obtain ⟨a, ha, ⟨-, rfl⟩ | ⟨-, rfl⟩⟩ := getElem?_modify_some hb
    · refine findPendingByConnId_eq_some_iff.mpr ⟨hp, a, ha, ?_⟩
      rw [← hq]
      refine (find?_updatePending_other ?_ hne _).symm
      exact fun _ => rfl
    · exact findPendingByConnId_eq_some_iff.mpr ⟨hp, b, ha, hq⟩
  · -- the pending connect that is found has just been recorded
    obtain ⟨hp, b, hb, hq⟩ := findPendingByConnId_eq_some_iff.mp hq
    obtain ⟨hp', -⟩ := findPendingByConnId_eq_some_iff.mp hpc
    cases hp.symm.trans hp'
    obtain ⟨a, ha, ⟨-, rfl⟩ | ⟨hne, -⟩⟩ := getElem?_modify_some hb
    · have hmap := hq.symm.trans (find?_updatePending_self (fun _ => ?_) a.pendingConnects)
      · obtain ⟨pd, -, hpd⟩ := Option.map_eq_some_iff.mp hmap.symm
        rw [← hpd] at hinv
        exact hinv
      · rfl
    · exact absurd rfl hne

theorem Counted.retire {count' : UInt32 → Nat} (h : Counted t count)
    (hsame : ∀ id', id' ≠ id → count' id' = count id') (htwo : count' id ≤ 2) :
    Counted (t.retire p id) count' := by
  have hless : t.FindsLess (t.retire p id) := by
    refine .of_maps (fun id' r hr => (getElem?_erase_some hr).2) fun r b hb => ?_
    obtain ⟨a, ha, ⟨-, rfl⟩ | ⟨-, rfl⟩⟩ := getElem?_modify_some hb
    · refine .inr ⟨a, ha, fun id' hid' => ?_⟩
      have hne := (getElem?_erase_some hid').1
      show (a.pendingConnects.filter _).find? _ = _
      rw [List.find?_filter]
      refine List.find?_congr fun pc _ => ?_
      by_cases he : pc.connId = id'
      · simp [he, hne]
      · simp [he]
    · exact .inr ⟨b, ha, fun _ _ => rfl⟩
  have hgone {r : Ptr × PendingConnect} : (t.retire p id).findPendingByConnId id ≠ some r := by
    intro hr
    exact (getElem?_erase_some (findPendingByConnId_eq_some_iff.mp hr).1).1 rfl
  exact h.update id (fun id' q _ hq => hless id' q hq) hsame htwo (fun _ hq => absurd hq hgone)
    fun _ hq => absurd hq hgone

/-! ## Accepted binds -/

theorem handleConnectionBind_tables {x : TcpConn} {msg : Message} {pc : PendingConnect}
    (hx : s.conns.heap[c]? = some x) (hauth : (authenticate cfg env s msg).1 = 0)
    (hid : readConnectionId msg = some id) (hpc : s.tables.findPendingByConnId id = some (p, pc)) :
    (handleConnectionBind cfg env s (some c) msg).nextConnId = s.nextConnId ∧
      (pc.firstDataSock = invalidSocket ∧
          (handleConnectionBind cfg env s (some c) msg).tables = s.tables.recordFirst p id x.sock ∨
        pc.firstDataSock ≠ invalidSocket ∧
          (handleConnectionBind cfg env s (some c) msg).tables = s.tables.retire p id) := by
  obtain ⟨-, a, ha, -⟩ := findPendingByConnId_eq_some_iff.mp hpc
  rw [handleConnectionBind_accepted hx hauth hid hpc ha]
  split
  · rename_i hfirst
    exact ⟨nextConnId_of_fixed (bindFirst_fixed ..), .inl ⟨hfirst, bindFirst_tables ..⟩⟩
  · rename_i hfirst
    exact ⟨nextConnId_of_fixed (bindSecond_fixed ..), .inr ⟨hfirst, bindSecond_tables ..⟩⟩

/-- An accepted bind records the number of its connection or retires the pending
connect. -/
theorem step_of_acceptedBind (h : acceptedBind cfg s (e, env) = some (c, id)) :
    (step cfg s (e, env)).nextConnId = s.nextConnId ∧ ∃ p pc x, s.conns.heap[c]? = some x ∧
      s.tables.findPendingByConnId id = some (p, pc) ∧
      (pc.firstDataSock = invalidSocket ∧
          (step cfg s (e, env)).tables = s.tables.recordFirst p id x.sock ∨
        pc.firstDataSock ≠ invalidSocket ∧
          (step cfg s (e, env)).tables = s.tables.retire p id) := by
  cases e with
  | tcpParse sock =>
    cases hnext : s.nextMessage sock with
    | none => simp [acceptedBind, hnext] at h
    | some y =>
      obtain ⟨c', x, msg⟩ := y
      obtain ⟨rfl, hcls, hm, hauth, hid, hpend⟩ := (acceptedBind_eq_some_iff hnext).mp h
      obtain ⟨⟨p, pc⟩, hpc⟩ := Option.isSome_iff_exists.mp hpend
      have hheld := State.nextMessage_held hnext
      obtain ⟨y, hy, hsock⟩ := advance_conn hheld
      have hstep : step cfg s (.tcpParse sock, env) =
          handleConnectionBind cfg env (s.advance c') (some c') msg :=
        (parsePass_of_nextMessage hnext).trans (dispatchStun_bind hcls hm)
      have hauth : (authenticate cfg env (s.advance c') msg).1 = 0 :=
        (@authenticate_congr cfg env s (s.advance c') msg rfl rfl).trans hauth
      obtain ⟨hn, hbind⟩ := handleConnectionBind_tables hy hauth hid hpc
      rw [hstep]
      rw [hsock] at hbind
      exact ⟨hn, p, pc, x, (State.held_eq_some hheld).2, hpc, hbind⟩
  | _ => cases h

/-! ## Runs -/

/-- The connection has not been closed. -/
def State.isOpen (s : State) (c : Ptr) : Bool :=
  s.conns.heap[c]?.any fun x => x.sock ≠ invalidSocket

/-- The server with the number of open connections accepted for each id since it was
last given to a CONNECT. -/
structure BindCount where
  state : State
  count : UInt32 → Nat

def BindCount.start (cfg : Config) (env : Env) : BindCount := ⟨State.start cfg env, fun _ => 0⟩

def bindsStep (cfg : Config) (b : BindCount) (e : Event × Env) : BindCount where
  state := step cfg b.state e
  count id :=
    if (step cfg b.state e).nextConnId ≠ b.state.nextConnId ∧ id = b.state.nextConnId then 0
    else
      match acceptedBind cfg b.state e with
      | some (c, id') =>
          if id = id' ∧ b.state.isOpen c then b.count id + 1 else b.count id
      | none => b.count id

theorem acceptedBind_of_dispatched {msg : Message} {alloc : Option (Ptr × Allocation)}
    (hd : dispatched cfg s e = some (some c, msg, alloc))
    (hacc : Accepts cfg env s msg .connectionBind) (hid : readConnectionId msg = some id)
    (hpc : s.tables.findPendingByConnId id = some q) :
    acceptedBind cfg s (e, env) = some (c, id) := by
  cases e with
  | tcpParse sock =>
    obtain ⟨⟨c', x, m⟩, hnext, he⟩ := Option.map_eq_some_iff.mp hd
    cases he
    exact (acceptedBind_eq_some_iff hnext).mpr
      ⟨rfl, hacc.1, hacc.2.1, hacc.2.2, hid, by rw [hpc]; rfl⟩
  | udpData data ip port =>
    obtain ⟨m, -, he⟩ := Option.map_eq_some_iff.mp hd
    cases he
  | _ => cases hd

theorem bindsStep_counted {b : BindCount} (h : Counted b.state.tables b.count) (e : Event × Env) :
    Counted (bindsStep cfg b e).state.tables (bindsStep cfg b e).count := by
  obtain ⟨s, count⟩ := b
  obtain ⟨e, env⟩ := e
  cases hacc : acceptedBind cfg s (e, env) with
  | some x =>
    obtain ⟨c, id⟩ := x
    obtain ⟨hn, p, pc, x, hx, hpc, hbind⟩ := step_of_acceptedBind hacc
    have hopen : s.isOpen c = true ↔ x.sock ≠ invalidSocket := by simp [State.isOpen, hx]
    have hcount (id' : UInt32) : (bindsStep cfg ⟨s, count⟩ (e, env)).count id' =
        if id' = id ∧ x.sock ≠ invalidSocket then count id' + 1 else count id' := by
      simp [bindsStep, hn, hacc, hopen]
    have hsame (id' : UInt32) (hne : id' ≠ id) :
        (bindsStep cfg ⟨s, count⟩ (e, env)).count id' = count id' := by simp [hcount, hne]
    show Counted (step cfg s (e, env)).tables _
    obtain ⟨hfirst, ht⟩ | ⟨-, ht⟩ := hbind
    · have hzero : count id = 0 := h.zero id (p, pc) hpc hfirst
      rw [ht]
      refine h.recordFirst hpc hsame ?_ fun hinv => ?_
      · rw [hcount, hzero]
        split <;> decide
      · simp [hcount, hinv, hzero]
    · rw [ht]
      refine h.retire hsame ?_
      have hone : count id ≤ 1 := h.one id (p, pc) hpc
      rw [hcount]
      split <;> omega
  | none =>
    simp only [bindsStep, hacc]
    have hkeep {t' : Tables} (ht : s.tables.FindsLess t') :
        Counted t' fun id => if s.nextConnId ≠ s.nextConnId ∧ id = s.nextConnId then 0
          else count id := by
      simpa using h.less ht
    refine step_tables_rule (R := fun t n => Counted t fun id =>
      if n ≠ s.nextConnId ∧ id = s.nextConnId then 0 else count id) ⟨?_, ?_⟩ ?_
      ⟨?_, ?_, ?_, ?_, ?_, ?_, ?_⟩
    case refine_1 => exact fun _ _ h ht => h.less (.onlyPorts ht)
    case refine_2 => exact fun _ a overTcp h ha => h.less (.register a overTcp ha _)
    case refine_3 => exact hkeep fun _ _ hq => hq
    case refine_4 => exact fun p => hkeep (.destroyAllocation cfg _ p)
    case refine_5 =>
      exact hkeep (expireAllocations_rule (R := s.tables.FindsLess) (fun _ _ hq => hq)
        (fun _ _ h ht => h.trans (.onlyPorts ht))
        (fun _ p h => h.trans (.destroyAllocation cfg _ p)) fun _ _ _ h ha =>
          h.trans (.sweep _ _ ha))
    case refine_6 =>
      refine fun p f hf => hkeep (.modify _ p fun a => ?_)
      rw [hf a]
    case refine_7 => exact fun _ _ p _ _ _ _ _ _ _ _ _ => hkeep (.modify _ p fun _ => rfl)
    case refine_8 =>
      intro p a pc _ hfirst hid
      have hne : s.nextConnId + 1 ≠ s.nextConnId := by
        simp
      exact h.addPending p pc (by simp [hid, hne]) fun id hne' => by
        rw [hid] at hne'
        simp [hne']
    case refine_9 =>
      intro c msg alloc sock id p pc hd hb hid hpc _
      cases hacc.symm.trans (acceptedBind_of_dispatched hd hb hid hpc)
    case refine_10 =>
      intro c msg alloc id p pc hd hb hid hpc _
      cases hacc.symm.trans (acceptedBind_of_dispatched hd hb hid hpc)

/-! ## Data connections -/

/-- Every data connection of `k'` was one already, or `accepted` names it with its
id. -/
def DataFrom (k : Conns) (accepted : Option (Ptr × UInt32)) (k' : Conns) : Prop :=
  ∀ (c : Ptr) (y : TcpConn), k'.heap[c]? = some y → y.isData = true →
    (∃ x, k.heap[c]? = some x ∧ x.isData = true) ∨ accepted = some (c, y.connId)

theorem DataFrom.of_roles {k k₁ k' : Conns} {accepted : Option (Ptr × UInt32)}
    (h : DataFrom k accepted k₁) (hk : SameRoles k₁ k') : DataFrom k accepted k' := by
  intro c z hz hd
  obtain ⟨y, hy, hd', hid⟩ := hk.back c z hz
  rw [hid]
  exact h c y hy (hd'.symm.trans hd)

theorem DataFrom.refl (k : Conns) (accepted : Option (Ptr × UInt32)) : DataFrom k accepted k :=
  fun _ y hy hd => .inl ⟨y, hy, hd⟩

/-- A connection becomes a data connection only by an accepted bind. -/
theorem step_dataFrom (cfg : Config) (env : Env) (s : State) (e : Event) :
    DataFrom s.conns (acceptedBind cfg s (e, env)) (step cfg s (e, env)).conns := by
  have hsame := DataFrom.refl s.conns (acceptedBind cfg s (e, env))
  have hq (b : Option (Ptr × UInt32)) : Quiet cfg env fun s' => DataFrom s.conns b s'.conns :=
    .of_tables_conns cfg env fun _ k => DataFrom s.conns b k
  cases e with
  | udpData data ip port =>
    refine ioOnUdpData_rule (hq _) hsame (fun _ _ _ _ _ => hsame) fun msg _ => ?_
    by_cases hb : msg.cls = .request ∧ msg.method = .connectionBind
    · rw [dispatchStun_bind hb.1 hb.2]
      exact hsame
    · rw [(dispatchStun_noNew hb).2]
      exact hsame
  | relayData sock data ip port =>
    exact Quiet.ioOnRelayData (hq _) hsame _ _ _
  | tcpAccepted sock ip port hv =>
    intro c y hy hd
    obtain ⟨-, rfl⟩ | ⟨-, hy⟩ := getElem?_insert_some hy
    · cases hd
    · exact hsame c y hy hd
  | tcpReceive sock data => exact hsame.of_roles (.of_buffered (receive_buffered s sock data))
  | tcpParse sock =>
    have hadv (c : Ptr) : DataFrom s.conns (acceptedBind cfg s (.tcpParse sock, env))
        (s.advance c).conns := hsame.of_roles (.modify _ c fun _ => ⟨rfl, rfl⟩)
    refine parsePass_rule (hq _) hsame (fun c _ _ => hadv c) (fun _ _ h => h)
      (fun c _ _ _ _ _ _ _ => hadv c) (fun c _ _ _ _ _ _ _ => hadv c) fun c x msg hnext => ?_
    by_cases hb : msg.cls = .request ∧ msg.method = .connectionBind
    · rw [dispatchStun_bind hb.1 hb.2]
      have hmark (id : UInt32)
          (hacc : acceptedBind cfg s (.tcpParse sock, env) = some (c, id)) :
          DataFrom s.conns (acceptedBind cfg s (.tcpParse sock, env))
            (markData (s.advance c) c id).conns := by
        intro d y hy hd
        obtain ⟨z, hz, ⟨rfl, rfl⟩ | ⟨-, rfl⟩⟩ := getElem?_modify_some hy
        · exact .inr hacc
        · exact hadv c d y hz hd
      have hverdict := @authenticate_congr cfg env s (s.advance c) msg rfl rfl
      have haccept {id : UInt32} {q : Ptr × PendingConnect}
          (hauth : (authenticate cfg env (s.advance c) msg).1 = 0)
          (hid : readConnectionId msg = some id) (hq : s.tables.findPendingByConnId id = some q) :
          acceptedBind cfg s (.tcpParse sock, env) = some (c, id) :=
        (acceptedBind_eq_some_iff hnext).mpr
          ⟨rfl, hb.1, hb.2, hverdict.symm.trans hauth, hid, by rw [hq]; rfl⟩
      apply handleConnectionBind_rule (fun _ => (hq _).answering) (hadv c)
      · intro d y id p connector pc hd _ hauth hid hpc _ _
        cases hd
        rw [bindFirst_conns]
        exact hmark id (haccept hauth hid hpc)
      · intro d y id p connector pc hd _ hauth hid hpc _ _
        cases hd
        rw [bindSecond_conns]
        have hdata := hmark id (haccept hauth hid hpc)
        obtain hroles | ⟨peer, -, hroles⟩ := pairData_roles
          (sendBindResponse cfg (markData (s.advance c) c id) c msg) c y.sock pc.firstDataSock
        · exact DataFrom.of_roles hdata hroles
        · refine DataFrom.of_roles ?_ hroles
          exact hdata
    · rw [(dispatchStun_noNew hb).2]
      exact hadv c
  | tcpConnClosed sock =>
    show DataFrom s.conns _ (closeTcpConn cfg s sock).conns
    unfold closeTcpConn
    split
    · exact hsame
    · split
      · exact hsame
      · intro c y hy hd
        obtain ⟨x, hx, ⟨-, rfl⟩ | ⟨-, rfl⟩⟩ := getElem?_modify_some hy
        · obtain ⟨z, hz, ⟨-, rfl⟩ | ⟨-, rfl⟩⟩ := getElem?_modify_some hx
          · exact hsame c z hz hd
          · exact hsame c x hz hd
        · obtain ⟨z, hz, ⟨-, rfl⟩ | ⟨-, rfl⟩⟩ := getElem?_modify_some hx
          · exact hsame c z hz hd
          · exact hsame c y hz hd
  | tick =>
    show DataFrom s.conns _ (expireStale cfg env s).conns
    rw [expireStale_conns]
    exact hsame
  | reap =>
    intro c y hy hd
    refine hsame c y ?_ hd
    exact (getElem?_foldl_erase_some (g := id) hy).2

/-- The message of an accepted bind was signed by some user and names a pending
connect. -/
theorem signed_of_acceptedBind (h : acceptedBind cfg s (e, env) = some (c, id)) :
    ∃ msg alloc, dispatched cfg s e = some (some c, msg, alloc) ∧ SignedByUser cfg s msg ∧
      readConnectionId msg = some id ∧ (s.tables.findPendingByConnId id).isSome = true := by
  cases e with
  | tcpParse sock =>
    cases hnext : s.nextMessage sock with
    | none => simp [acceptedBind, hnext] at h
    | some y =>
      obtain ⟨c', x, msg⟩ := y
      obtain ⟨rfl, -, -, hauth, hid, hpend⟩ := (acceptedBind_eq_some_iff hnext).mp h
      refine ⟨msg, s.tables.deref s.tables.allocByControlSock[sock]?, ?_,
        signedByUser_of_authenticate hauth, hid, hpend⟩
      simp only [dispatched, hnext, Option.map_some]
  | _ => cases h

/-- In every run at most two connections that are open at that moment are accepted
for one CONNECT, and a connection becomes a data connection only by an accepted bind,
which any registered user may have signed. -/
theorem connectionBind_at_most_twice {b : BindCount}
    (hr : Reach (fun b => ∃ env, b = BindCount.start cfg env)
      (fun b e b' => b' = bindsStep cfg b e) b) :
    (∀ id, b.count id ≤ 2) ∧
      ∀ e env c y, (step cfg b.state (e, env)).conns.heap[c]? = some y → y.isData = true →
        (∃ x, b.state.conns.heap[c]? = some x ∧ x.isData = true) ∨
        acceptedBind cfg b.state (e, env) = some (c, y.connId) ∧
          ∃ msg alloc, dispatched cfg b.state e = some (some c, msg, alloc) ∧
            SignedByUser cfg b.state msg ∧ readConnectionId msg = some y.connId ∧
            (b.state.tables.findPendingByConnId y.connId).isSome = true := by
  have hinv : Counted b.state.tables b.count := by
    refine Reach.invariant (P := fun b => Counted b.state.tables b.count) ?_ ?_ hr
    · rintro b ⟨env, rfl⟩
      exact ⟨fun _ => Nat.zero_le 2, fun _ _ _ => Nat.zero_le 1, fun _ _ _ _ => rfl⟩
    · rintro b e b' hc rfl
      exact bindsStep_counted hc e
  refine ⟨hinv.two, fun e env c y hy hd => ?_⟩
  obtain hold | hacc := step_dataFrom cfg env b.state e c y hy hd
  · exact .inl hold
  · exact .inr ⟨hacc, signed_of_acceptedBind hacc⟩

/-- A CONNECTION-BIND for id 1, signed by `w`. -/
def bindByOther : Bytes :=
  [0, 11, 0, 64, 33, 18, 164, 66, 1, 2, 3, 4, 5, 6, 7, 8, 9, 10, 11, 12, 0, 6, 0, 1, 119, 0, 0,
    0, 0, 20, 0, 1, 114, 0, 0, 0, 0, 21, 0, 1, 110, 0, 0, 0, 0, 42, 0, 4, 0, 0, 0, 1, 0, 8, 0,
    20, 12, 84, 214, 195, 43, 235, 50, 78, 99, 44, 205, 242, 179, 201, 83, 46, 142, 128, 193,
    151, 128, 40, 0, 4, 80, 124, 141, 116]

theorem connectionBind_at_most_twice_one :
    let b := ((connectEvents ++ [Event.tcpReceive 12 bindByOther, Event.tcpParse 12]).map
      (·, smallEnv)).foldl (bindsStep twoUsers) (BindCount.start twoUsers smallEnv)
    b.count 1 = 1 ∧ ∀ id, b.count id ≤ 2 := by
  intro b
  refine ⟨by decide +kernel, (connectionBind_at_most_twice (Reach.foldl ?_ _)).1⟩
  exact .start ⟨smallEnv, rfl⟩

/-- Both ends of the CONNECT belong to `u`, and `w` gets a data connection. -/
theorem connectionBind_by_other_user :
    let s := (connectEvents.map (·, smallEnv)).foldl (step twoUsers)
      (State.start twoUsers smallEnv)
    let s' := receive s 12 bindByOther
    (s.tables.heap.toList.map fun x => x.2.username) = [ascii "u", ascii "u"] ∧
      (s'.nextMessage 12).map (fun x => getString x.2.2 .username) = some (ascii "w") ∧
      acceptedBind twoUsers s' (.tcpParse 12, smallEnv) = some (2, 1) := by
  decide +kernel

end Stice.Server
