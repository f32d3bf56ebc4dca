import Stice.Server.Evolution
import Stice.Server.Updates

/-! The local-relay shortcut. A frame for the relayed address of another allocation goes
straight to the client of that allocation; without the shortcut it leaves through the
relay socket, and the kernel hands it to the relay socket bound to its destination. The
two maps from relayed addresses and from relay sockets to allocations agree in every run,
so both ways lead to the same client. -/
namespace Stice.Server
open Std Net Stun Turn Lib

variable {cfg : Config} {env : Env} {s : State} {t t' : Tables} {p : Ptr} {a : Allocation}

/-! ## Relayed addresses and relay sockets -/

/-- An allocation found by its relayed address is found by its relay socket. -/
structure Tables.Linked (t : Tables) : Prop where
  addr : ∀ {k : Bytes} {q : Ptr} {b : Allocation}, t.allocByRelayAddr[k]? = some q →
    t.heap[q]? = some b → b.relayedAddr.key = k
  sock : ∀ {k : Bytes} {q : Ptr} {b : Allocation}, t.allocByRelayAddr[k]? = some q →
    t.heap[q]? = some b → b.hasRelay = true → t.allocByRelaySock[b.relaySock]? = some q
  distinct : ∀ {p q : Ptr} {a b : Allocation}, t.heap[p]? = some a → t.heap[q]? = some b →
    a.hasRelay = true → b.hasRelay = true → a.relaySock = b.relaySock → p = q
  relayless : ∀ {p : Ptr} {a : Allocation}, t.heap[p]? = some a → a.hasRelay = false →
    a.relaySock = invalidSocket
  heap_lt : ∀ {p : Ptr} {a : Allocation}, t.heap[p]? = some a → p < t.nextPtr
  addr_lt : ∀ {k : Bytes} {q : Ptr}, t.allocByRelayAddr[k]? = some q → q < t.nextPtr

theorem SameIdentity.hasRelay {a b : Allocation} (h : SameIdentity a b) :
    b.hasRelay = a.hasRelay := by
  simp only [Allocation.hasRelay, h.transport, h.relaySock]

theorem hasRelay_sock (h : a.hasRelay = true) : a.relaySock ≠ invalidSocket := by
  simp only [Allocation.hasRelay, Bool.and_eq_true, decide_eq_true_eq] at h
  exact h.2

theorem Tables.Linked.evolve (h : t.Linked) (hfrom : From SameIdentity t t')
    (haddr : t'.allocByRelayAddr = t.allocByRelayAddr)
    (hsock : t'.allocByRelaySock = t.allocByRelaySock) (hnext : t'.nextPtr = t.nextPtr) :
    t'.Linked := by
  constructor
  case addr =>
    intro k q b hk hb
    obtain ⟨b₀, hb₀, hsame⟩ := hfrom q b hb
    rw [hsame.relayedAddr]
    exact h.addr (haddr ▸ hk) hb₀
  case sock =>
    intro k q b hk hb hrelay
    obtain ⟨b₀, hb₀, hsame⟩ := hfrom q b hb
    rw [hsock, hsame.relaySock]
    exact h.sock (haddr ▸ hk) hb₀ (hsame.hasRelay ▸ hrelay)
  case distinct =>
    intro p q a b ha hb hra hrb heq
    obtain ⟨a₀, ha₀, hsa⟩ := hfrom p a ha
    obtain ⟨b₀, hb₀, hsb⟩ := hfrom q b hb
    exact h.distinct ha₀ hb₀ (hsa.hasRelay ▸ hra) (hsb.hasRelay ▸ hrb)
      (by rw [← hsa.relaySock, ← hsb.relaySock]; exact heq)
  case relayless =>
    intro p a ha hrelay
    obtain ⟨a₀, ha₀, hsa⟩ := hfrom p a ha
    rw [hsa.relaySock]
    exact h.relayless ha₀ (hsa.hasRelay ▸ hrelay)
  case heap_lt =>
    intro p a ha
    obtain ⟨a₀, ha₀, -⟩ := hfrom p a ha
    rw [hnext]
    exact h.heap_lt ha₀
  case addr_lt =>
    intro k q hk
    rw [hnext]
    exact h.addr_lt (haddr ▸ hk)

theorem Tables.Linked.onlyPorts (h : t.Linked) (ht : OnlyPorts t t') : t'.Linked := by
  rw [ht]
  exact h.evolve (.of_heap .refl rfl) rfl rfl rfl

theorem Tables.Linked.modify (h : t.Linked) (p : Ptr) {f : Allocation → Allocation}
    (ht : t' = { t with heap := t.heap.modify p f, pendingByConnId := t'.pendingByConnId })
    (hf : ∀ a, SameIdentity a (f a)) : t'.Linked := by
  rw [ht]
  exact h.evolve (.modify .refl hf rfl) rfl rfl rfl

theorem Tables.Linked.eraseAllocation (h : t.Linked) (k : Bytes) :
    (Tables.eraseAllocation k t).Linked := by
  refine h.evolve (.eraseAllocation .refl k t) ?_ ?_ ?_ <;> unfold Tables.eraseAllocation <;>
    split <;> rfl

/-- The allocation that is removed takes its own entries with it, and no other's: relay
sockets are distinct. -/
theorem Tables.Linked.eraseLookups (h : t.Linked) (ha : t.heap[p]? = some a) :
    (Tables.eraseLookups a t).Linked := by
  constructor
  case addr => exact fun hk hb => h.addr (getElem?_erase_some hk).2 hb
  case sock =>
    intro k q b hk hb hrelay
    obtain ⟨hne, hk⟩ := getElem?_erase_some hk
    have hsock : b.relaySock ≠ a.relaySock := by
      intro heq
      cases hra : a.hasRelay with
      | false => exact hasRelay_sock hrelay (heq.trans (h.relayless ha hra))
      | true =>
        cases h.distinct hb ha hrelay hra heq
        cases ha.symm.trans hb
        exact hne (h.addr hk ha).symm
    exact (getElem?_erase_of_ne hsock).trans (h.sock hk hb hrelay)
  case distinct => exact h.distinct
  case relayless => exact h.relayless
  case heap_lt => exact h.heap_lt
  case addr_lt => exact fun hk => h.addr_lt (getElem?_erase_some hk).2

theorem Tables.Linked.destroyAllocation (h : t.Linked) (p : Ptr) :
    (Tables.destroyAllocation cfg p t).Linked := by
  unfold Tables.destroyAllocation
  split
  · exact h
  · rename_i a ha
    exact ((h.eraseLookups ha).onlyPorts (.releaseRelayPort _ _ _)).eraseAllocation _

/-- The new allocation has a relay socket of its own. -/
def Tables.Apart (t : Tables) (a : Allocation) : Prop :=
  (a.hasRelay = false → a.relaySock = invalidSocket) ∧
    ∀ (q : Ptr) (b : Allocation), t.heap[q]? = some b → b.hasRelay = true →
      b.relaySock ≠ a.relaySock

theorem enterLookups_relay (a : Allocation) (overTcp : Bool) (t : Tables) :
    (Tables.enterLookups a overTcp t).heap = t.heap ∧
      (Tables.enterLookups a overTcp t).nextPtr = t.nextPtr + 1 ∧
      (Tables.enterLookups a overTcp t).allocByRelaySock =
        (if a.transport = .dgram then t.allocByRelaySock.insert a.relaySock t.nextPtr
          else t.allocByRelaySock) ∧
      (Tables.enterLookups a overTcp t).allocByRelayAddr =
        (if a.transport = .dgram then t.allocByRelayAddr.insert a.relayedAddr.key t.nextPtr
          else t.allocByRelayAddr) := by
  unfold Tables.enterLookups
  dsimp only
  split <;> split <;> exact ⟨rfl, rfl, rfl, rfl⟩

/-- Entered into the maps, before the object is. -/
theorem Tables.Linked.enterLookups (h : t.Linked) (ha : t.Apart a) (overTcp : Bool) :
    (Tables.enterLookups a overTcp t).Linked := by
  obtain ⟨hheap, hnext, hsock, haddr⟩ := enterLookups_relay a overTcp t
  have hold {k : Bytes} {q : Ptr} {b : Allocation}
      (hk : (Tables.enterLookups a overTcp t).allocByRelayAddr[k]? = some q)
      (hb : t.heap[q]? = some b) : t.allocByRelayAddr[k]? = some q := by
    rw [haddr] at hk
    split at hk
    · obtain ⟨-, rfl⟩ | ⟨-, hk⟩ := getElem?_insert_some hk
      · exact absurd (h.heap_lt hb) (Nat.lt_irrefl _)
      · exact hk
    · exact hk
  constructor
  case addr =>
    intro k q b hk hb
    rw [hheap] at hb
    exact h.addr (hold hk hb) hb
  case sock =>
    intro k q b hk hb hrelay
    rw [hheap] at hb
    rw [hsock]
    have hq := h.sock (hold hk hb) hb hrelay
    split
    · exact (getElem?_insert_of_ne (ha.2 q b hb hrelay)).trans hq
    · exact hq
  case distinct =>
    intro p q a b ha hb
    rw [hheap] at ha hb
    exact h.distinct ha hb
  case relayless =>
    intro p a ha
    rw [hheap] at ha
    exact h.relayless ha
  case heap_lt =>
    intro p a ha
    rw [hheap] at ha
    rw [hnext]
    exact Nat.lt_succ_of_lt (h.heap_lt ha)
  case addr_lt =>
    intro k q hk
    rw [haddr] at hk
    rw [hnext]
    split at hk
    · obtain ⟨-, rfl⟩ | ⟨-, hk⟩ := getElem?_insert_some hk
      · exact Nat.lt_succ_self _
      · exact Nat.lt_succ_of_lt (h.addr_lt hk)
    · exact Nat.lt_succ_of_lt (h.addr_lt hk)

theorem eraseAllocation_relay (k : Bytes) (t : Tables) :
    (Tables.eraseAllocation k t).nextPtr = t.nextPtr ∧
      (Tables.eraseAllocation k t).allocByRelaySock = t.allocByRelaySock ∧
      (Tables.eraseAllocation k t).allocByRelayAddr = t.allocByRelayAddr := by
  unfold Tables.eraseAllocation
  split <;> exact ⟨rfl, rfl, rfl⟩

theorem Tables.Linked.register (h : t.Linked) (ha : t.Apart a) (overTcp : Bool) :
    (Tables.register cfg a overTcp t).Linked := by
  obtain ⟨hheap, hnext, hsock, haddr⟩ := enterLookups_relay a overTcp t
  have hentered := (h.enterLookups ha overTcp).eraseAllocation (a.key cfg)
  obtain ⟨hnext', hsock', haddr'⟩ :=
    eraseAllocation_relay (a.key cfg) (Tables.enterLookups a overTcp t)
  rw [hnext] at hnext'
  rw [hsock] at hsock'
  rw [haddr] at haddr'
  have hfrom : From SameIdentity t (Tables.eraseAllocation (a.key cfg)
      (Tables.enterLookups a overTcp t)) := by
    intro q b hb
    obtain ⟨b₀, hb₀, hsame⟩ := From.eraseAllocation SameIdentity.refl _ _ q b hb
    exact ⟨b₀, hheap ▸ hb₀, hsame⟩
  have hapart {q : Ptr} {b : Allocation} (hb : (Tables.eraseAllocation (a.key cfg)
      (Tables.enterLookups a overTcp t)).heap[q]? = some b) (hrelay : b.hasRelay = true) :
      b.relaySock ≠ a.relaySock := by
    obtain ⟨b₀, hb₀, hsame⟩ := hfrom q b hb
    rw [hsame.relaySock]
    exact ha.2 q b₀ hb₀ (hsame.hasRelay ▸ hrelay)
  unfold Tables.register Tables.assignAllocation
  generalize Tables.eraseAllocation (a.key cfg) (Tables.enterLookups a overTcp t) = t₁ at *
  constructor <;> dsimp only
  case addr =>
    intro k q b hk hb
    obtain ⟨rfl, rfl⟩ | ⟨-, hb⟩ := getElem?_insert_some hb
    · rw [haddr'] at hk
      split at hk
      · obtain ⟨rfl, -⟩ | ⟨-, hk⟩ := getElem?_insert_some hk
        · rfl
        · exact absurd (h.addr_lt hk) (Nat.lt_irrefl _)
      · exact absurd (h.addr_lt hk) (Nat.lt_irrefl _)
    · exact hentered.addr hk hb
  case sock =>
    intro k q b hk hb hrelay
    obtain ⟨rfl, rfl⟩ | ⟨-, hb⟩ := getElem?_insert_some hb
    · have hdgram : b.transport = .dgram := by
        simp only [Allocation.hasRelay, Bool.and_eq_true, decide_eq_true_eq] at hrelay
        exact hrelay.1
      rw [hsock', if_pos hdgram]
      exact TreeMap.getElem?_insert_self
    · exact hentered.sock hk hb hrelay
  case distinct =>
    intro p q a' b hp hq hra hrb heq
    obtain ⟨rfl, rfl⟩ | ⟨-, hp'⟩ := getElem?_insert_some hp
    · obtain ⟨rfl, -⟩ | ⟨-, hq'⟩ := getElem?_insert_some hq
      · rfl
      · exact absurd heq.symm (hapart hq' hrb)
    · obtain ⟨rfl, rfl⟩ | ⟨-, hq'⟩ := getElem?_insert_some hq
      · exact absurd heq (hapart hp' hra)
      · exact hentered.distinct hp' hq' hra hrb heq
  case relayless =>
    intro p a' hp hrelay
    obtain ⟨rfl, rfl⟩ | ⟨-, hp⟩ := getElem?_insert_some hp
    · exact ha.1 hrelay
    · exact hentered.relayless hp hrelay
  case heap_lt =>
    intro p a' hp
    obtain ⟨rfl, rfl⟩ | ⟨-, hp⟩ := getElem?_insert_some hp
    · rw [hnext']
      exact Nat.lt_succ_self _
    · exact hentered.heap_lt hp
  case addr_lt => exact hentered.addr_lt

/-! ## New relay sockets -/

/-- The operating system does not give a descriptor that is open: a new relay socket is none
of those that are in use when an Allocate opens it. -/
def FreshRelay (cfg : Config) (s : State) (e : Event × Env) : Prop :=
  ∀ x t, dispatched cfg s e.1 = some x → s.tables.Cleared cfg e.2 x.2.2 t →
    ∀ (p : Ptr) (a : Allocation), t.heap[p]? = some a → a.hasRelay = true →
      ∀ i port bound, e.2.relaySocket i port ≠ some (a.relaySock, bound)

theorem bindRelay_sock {fuel i : Nat} {failed : List UInt16} {n : UInt16}
    {x : Socket × Option UInt16} (h : (bindRelay cfg env fuel i failed n t).1 = some x) :
    ∃ i port, env.relaySocket i port = some x := by
  induction fuel generalizing i failed n t with
  | zero => exact ⟨i, n, h⟩
  | succ fuel ih =>
    cases hs : env.relaySocket i n with
    | some y =>
      simp only [bindRelay, hs] at h
      exact ⟨i, n, hs.trans h⟩
    | none =>
      simp only [bindRelay, hs] at h
      split at h
      · cases h
      · exact ih h

theorem reserveRelay_sock {transport : SockType} {sock : Socket} {port : UInt16}
    (h : (reserveRelay cfg env transport t).1 = some (sock, port)) :
    transport = .stream ∧ sock = invalidSocket ∨
      transport = .dgram ∧ ∃ i port bound, env.relaySocket i port = some (sock, bound) := by
  simp only [reserveRelay] at h
  split at h
  · cases h
  · cases transport with
    | stream =>
      cases h
      exact .inl ⟨rfl, rfl⟩
    | dgram =>
      generalize hb : bindRelay cfg env 50 0 [] _ _ = x at h
      obtain ⟨o, n, t'⟩ := x
      cases o with
      | none => cases h
      | some y =>
        obtain ⟨i, port', hi⟩ := bindRelay_sock (congrArg Prod.fst hb)
        simp only [settleRelay] at h
        split at h <;> cases h <;> exact .inr ⟨rfl, i, port', y.2, hi⟩

theorem Tables.Linked.handleAllocate (h : s.tables.Linked)
    (hfresh : ∀ (p : Ptr) (a : Allocation), s.tables.heap[p]? = some a → a.hasRelay = true →
      ∀ i port bound, env.relaySocket i port ≠ some (a.relaySock, bound))
    (src : AddrRecord) (conn : Option Ptr) (msg : Message) :
    (handleAllocate cfg env s src conn msg).tables.Linked := by
  unfold Server.handleAllocate
  split
  · rw [replyError, reply_tables]
    exact h
  · rename_i transport _
    split
    · rw [replyError, reply_tables]
      exact h
    · have hports := OnlyPorts.reserveRelay cfg env transport s.tables
      split
      · rename_i t hres
        rw [hres] at hports
        rw [replyError, reply_tables]
        exact h.onlyPorts hports
      · rename_i sock port t hres
        rw [hres] at hports
        rw [reply_tables]
        refine (h.onlyPorts hports).register ⟨?_, ?_⟩ _
        · intro hrelay
          obtain ⟨-, hsock⟩ | ⟨rfl, -⟩ := reserveRelay_sock (congrArg Prod.fst hres)
          · exact hsock
          · simpa [Allocation.hasRelay, newAllocation] using hrelay
        · intro q b hb hrelay heq
          have hb : s.tables.heap[q]? = some b := by
            rw [hports] at hb
            exact hb
          obtain ⟨-, rfl⟩ | ⟨-, i, n, bound, hi⟩ := reserveRelay_sock (congrArg Prod.fst hres)
          · exact hasRelay_sock hrelay heq
          · exact hfresh q b hb hrelay i n bound (hi.trans (by rw [heq]; rfl))

theorem step_linked (h : s.tables.Linked) {e : Event × Env} (hfresh : FreshRelay cfg s e) :
    (step cfg s e).tables.Linked := by
  refine step_tables_cases (R := fun t _ => t.Linked) h ?_
    ⟨h.destroyAllocation, ?_, ?_, ?_, ?_, ?_, ?_⟩
  case refine_1 =>
    intro x s' src conn msg hx hs'
    exact Tables.Linked.handleAllocate (hs'.rule (Q := Tables.Linked) h h.destroyAllocation)
      (hfresh x _ hx hs') src conn msg
  case refine_2 =>
    exact expireAllocations_rule h (fun _ _ h ht => h.onlyPorts ht)
      (fun _ p h => h.destroyAllocation p)
      fun _ p _ h _ => h.modify p rfl fun _ => ⟨rfl, rfl, rfl, rfl, rfl, rfl⟩
  case refine_3 =>
    refine fun p f hf => h.modify p rfl fun a => ?_
    rw [hf a]
    exact ⟨rfl, rfl, rfl, rfl, rfl, rfl⟩
  case refine_4 =>
    exact fun _ _ p _ _ _ _ _ _ _ _ _ =>
      h.modify p rfl fun _ => ⟨rfl, rfl, rfl, rfl, rfl, rfl⟩
  case refine_5 =>
    exact fun p _ _ _ _ _ => h.modify p rfl fun _ => ⟨rfl, rfl, rfl, rfl, rfl, rfl⟩
  case refine_6 =>
    exact fun _ _ _ _ _ p _ _ _ _ _ _ =>
      h.modify p rfl fun _ => ⟨rfl, rfl, rfl, rfl, rfl, rfl⟩
  case refine_7 =>
    exact fun _ _ _ _ p _ _ _ _ _ _ =>
      h.modify p rfl fun _ => ⟨rfl, rfl, rfl, rfl, rfl, rfl⟩

theorem linked_of_reach
    (h : Reach (fun s => ∃ env, s = State.start cfg env)
      (Guarded (FreshRelay cfg) (step cfg)) s) : s.tables.Linked := by
  refine Reach.invariant (P := fun s => s.tables.Linked) ?_ ?_ h
  · rintro s ⟨env, rfl⟩
    constructor <;> simp [State.start, Tables.empty]
  · rintro s e t hs ⟨he, rfl⟩
    exact step_linked hs he

/-! ## Both ways -/

/-- What reaches the clients of an output: a relayed datagram comes back through the relay
socket bound to its destination, from the relayed address of its sender. -/
def looped (bound : Bytes → Option Socket) (env : Env) (s : State) (a : Allocation) :
    Output → List Output
  | .relay _ peer payload =>
      match bound peer.key with
      | some sock => (ioOnRelayData env s sock payload a.relayedAddr).out.drop s.out.length
      | none => []
  | o => [o]

/-- What a ChannelData frame of the allocation delivers. -/
def delivered (cfg : Config) (bound : Bytes → Option Socket) (env : Env) (s : State)
    (data : Bytes) (p : Ptr) (a : Allocation) : List Output :=
  ((handleChannelDataFrame cfg env s data p a).out.drop s.out.length).flatMap
    (looped bound env s a)

theorem drop_forwardToClient (env : Env) (s : State) (a : Allocation) (peer : AddrRecord)
    (data : Bytes) : ∀ o ∈ (forwardToClient env s a peer data).out.drop s.out.length,
      ∀ p q payload, o ≠ .relay p q payload := by
  have hemit (o : Output) : (s.emit o).out.drop s.out.length = [o] := by
    simp [State.emit]
  unfold forwardToClient
  split
  · simp
  · split
    · split
      · rw [hemit]
        simp
      · simp
    · rw [hemit]
      simp

/-- What goes to a client stays as it is. -/
theorem flatMap_looped {bound : Bytes → Option Socket} {l : List Output}
    (h : ∀ o ∈ l, ∀ p q payload, o ≠ .relay p q payload) :
    l.flatMap (looped bound env s a) = l := by
  induction l with
  | nil => rfl
  | cons o l ih =>
    have ho : looped bound env s a o = [o] := by
      cases o with
      | relay p q payload => exact absurd rfl (h _ List.mem_cons_self p q payload)
      | _ => rfl
    rw [List.flatMap_cons, ho, ih fun o ho => h o (List.mem_cons_of_mem _ ho)]
    rfl

theorem shortcutTarget_some {peer : AddrRecord} {b : Allocation}
    (h : shortcutTarget cfg t peer p = some b) :
    ∃ q, t.allocByRelayAddr[peer.key]? = some q ∧ t.heap[q]? = some b ∧ b.hasRelay = true := by
  obtain ⟨q, hq, hb, -, hrelay⟩ := shortcutTarget_eq_some h
  exact ⟨q, hq, hb, hrelay⟩

/-- The shortcut delivers what the kernel would have brought back. -/
theorem shortcut_transparent
    (h : Reach (fun s => ∃ env, s = State.start cfg env)
      (Guarded (FreshRelay cfg) (step cfg)) s) (bound : Bytes → Option Socket)
    (hbound : ∀ (q : Ptr) (b : Allocation), s.tables.heap[q]? = some b → b.hasRelay = true →
      bound b.relayedAddr.key = some b.relaySock) (env : Env) (data : Bytes) (p : Ptr)
    (a : Allocation) :
    delivered { cfg with localRelayShortcut := true } bound env s data p a =
      delivered { cfg with localRelayShortcut := false } bound env s data p a := by
  have hlinked := linked_of_reach h
  unfold delivered handleChannelDataFrame
  split
  · rfl
  rename_i channel payload _
  split
  · rfl
  rename_i c _
  split
  · rfl
  have hoff : shortcutTarget { cfg with localRelayShortcut := false } s.tables c.peer p = none :=
    rfl
  rw [hoff]
  cases hon : shortcutTarget { cfg with localRelayShortcut := true } s.tables c.peer p with
  | none => rfl
  | some b =>
    obtain ⟨q, hq, hb, hrelay⟩ := shortcutTarget_some hon
    have hback : bound c.peer.key = some b.relaySock := by
      rw [← hlinked.addr hq hb]
      exact hbound q b hb hrelay
    have hderef : s.tables.deref s.tables.allocByRelaySock[b.relaySock]? = some (q, b) := by
      rw [hlinked.sock hq hb hrelay]
      simp [Tables.deref, hb]
    have hemit : (s.emit (.relay p c.peer payload)).out.drop s.out.length =
        [.relay p c.peer payload] := by simp [State.emit]
    dsimp only
    rw [flatMap_looped (drop_forwardToClient env s b a.relayedAddr payload), hemit]
    simp only [List.flatMap_singleton, looped, hback, ioOnRelayData, hderef]

/-! ## Two clients of one server -/

/-- Every relay socket of the event gets the descriptor `100 + n`. -/
def descriptorEnv (n : Nat) : Env := { smallEnv with
  relaySocket := fun _ port => some (100 + n, some port)
  bound_eq := fun _ _ _ _ h => (Option.some.inj (congrArg Prod.snd (Option.some.inj h))).symm }

theorem freshRelay_descriptorEnv {n : Nat} {e : Event}
    (h : (s.tables.heap.toList.all fun x => x.2.relaySock ≠ 100 + n) = true) :
    FreshRelay cfg s (e, descriptorEnv n) := by
  intro x t _ ht p b hb _ i port bound hi
  have hfrom : Tables.From SameIdentity s.tables t :=
    ht.rule (Q := Tables.From SameIdentity s.tables) (.of_heap SameIdentity.refl rfl)
      (.destroyAllocation SameIdentity.refl cfg _)
  obtain ⟨a, ha, hsame⟩ := hfrom p b hb
  have hne := List.all_eq_true.mp h (p, a) (TreeMap.mem_toList_iff_getElem?_eq_some.mpr ha)
  rw [decide_eq_true_eq, ← hsame.relaySock] at hne
  exact hne (congrArg Prod.fst (Option.some.inj hi)).symm

def signedByU (m : Message) : Bytes :=
  (m.encode (some (ascii "p")) (some ⟨ascii "u", ascii "r", ascii "n",
    Crypto.longTermKey (ascii "u") (ascii "r") (ascii "p")⟩) none).raw

/-- The relayed address of the second client. -/
def secondRelay : AddrRecord := ⟨.v4 10 0 0 1, 49153, .dgram⟩

/-- The first client binds a channel to the relayed address of the second, and the second
permits the address. -/
def twoClients (n : Nat) : Event :=
  let m (method : Method) : Message := writeXorAddress ⟨method, .request, smallEnv.tid, [], []⟩
    .xorPeerAddress secondRelay smallEnv.tid
  match n with
  | 0 => .udpData allocateUdp (.v4 192 168 0 7) 50000
  | 1 => .udpData allocateUdp (.v4 192 168 0 8) 50000
  | 2 => .udpData (signedByU (addChannelNumber (m .channelBind) 0x4000)) (.v4 192 168 0 7) 50000
  | _ => .udpData (signedByU (m .createPermission)) (.v4 192 168 0 8) 50000

def twoClientsAfter : Nat → State
  | 0 => State.start smallConfig smallEnv
  | n + 1 => step smallConfig (twoClientsAfter n) (twoClients n, descriptorEnv n)

theorem twoClients_reached (n : Nat)
    (h : ∀ k < n, ((twoClientsAfter k).tables.heap.toList.all
      fun x => x.2.relaySock ≠ 100 + k) = true) :
    Reach (fun s => ∃ env, s = State.start smallConfig env)
      (Guarded (FreshRelay smallConfig) (step smallConfig)) (twoClientsAfter n) := by
  induction n with
  | zero => exact .start ⟨smallEnv, rfl⟩
  | succ n ih =>
    have hreach := ih fun k hk => h k (Nat.lt_succ_of_lt hk)
    exact hreach.next _ ⟨freshRelay_descriptorEnv (h n (Nat.lt_succ_self n)), rfl⟩

/-- Relay sockets 100 and 101 are bound to the two relayed addresses. -/
def twoSockets (key : Bytes) : Option Socket :=
  if key = secondRelay.key then some 101
  else if key = { secondRelay with port := 49152 }.key then some 100 else none

theorem shortcut_transparent_two_clients :
    ∃ a, (twoClientsAfter 4).tables.heap[(0 : Ptr)]? = some a ∧
      (delivered { smallConfig with localRelayShortcut := true } twoSockets smallEnv
        (twoClientsAfter 4) [0x40, 0, 0, 1, 65, 0, 0, 0] 0 a).length = 1 ∧
      delivered { smallConfig with localRelayShortcut := true } twoSockets smallEnv
          (twoClientsAfter 4) [0x40, 0, 0, 1, 65, 0, 0, 0] 0 a =
        delivered { smallConfig with localRelayShortcut := false } twoSockets smallEnv
          (twoClientsAfter 4) [0x40, 0, 0, 1, 65, 0, 0, 0] 0 a := by
  have hlength : ((twoClientsAfter 4).tables.heap[(0 : Ptr)]?.map fun a =>
      (delivered { smallConfig with localRelayShortcut := true } twoSockets smallEnv
        (twoClientsAfter 4) [0x40, 0, 0, 1, 65, 0, 0, 0] 0 a).length) = some 1 := by
    decide +kernel
  have hall : ((twoClientsAfter 4).tables.heap.toList.all fun x =>
      twoSockets x.2.relayedAddr.key = some x.2.relaySock) = true := by
    decide +kernel
  obtain ⟨a, ha, hone⟩ := Option.map_eq_some_iff.mp hlength
  have hreach := twoClients_reached 4 (by decide +kernel)
  refine ⟨a, ha, hone, shortcut_transparent hreach twoSockets ?_ smallEnv _ 0 a⟩
  intro q b hb _
  have hb := List.all_eq_true.mp hall (q, b) (TreeMap.mem_toList_iff_getElem?_eq_some.mpr hb)
  simpa using hb

end Stice.Server
