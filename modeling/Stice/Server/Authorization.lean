import Stice.Server.Pairing
import Stice.Server.Updates

/-! Who may do what. Relayed data needs a permission or a channel of the
allocation it passes through; a request changes the allocation of its own path
only, and only if some registered user signed it; a CONNECTION-BIND is accepted
from any registered user, at most twice for one CONNECT. -/
namespace Stice.Server
open Std Net Stun Turn Lib

variable {cfg : Config} {env : Env} {s s₀ : State} {Q : Output → Prop}
variable {a : Allocation} {msg : Message}

/-- The states the runs of the server reach, with any events. -/
def Reachable (cfg : Config) (s : State) : Prop :=
  Reach (fun s => ∃ env, s = State.start cfg env) (fun s e t => t = step cfg s e) s

/-! ## Relayed data -/

/-- An unexpired permission for the peer's IP, or an unexpired channel of the
peer. -/
def Authorizes (now : Int) (peer : AddrRecord) (a : Allocation) : Prop :=
  permitted now peer a = true ∨
    ∃ c ∈ a.channels, c.peer.isEqual peer true = true ∧ now < c.expiryMs

/-- Sent to the client of an allocation, the way `forwardToClient` does. -/
def ToClient (s : State) (a : Allocation) (raw : Bytes) (o : Output) : Prop :=
  o = .udp a.clientAddr raw ∨ a.controlSock ≠ invalidSocket ∧
    ∃ c, s.conns.tcpConnRef a.controlSock = some c ∧ o = .tcp c raw

theorem authorizes_of_clientFrame {peer : AddrRecord} {data frame : Bytes}
    (h : clientFrame env a peer data = some frame) : Authorizes env.now peer a := by
  unfold clientFrame at h
  dsimp only at h
  split at h
  · rename_i hch
    obtain ⟨c, hc, -⟩ := Option.bind_eq_some_iff.mp hch
    have hfound := List.find?_some hc
    simp only [Bool.and_eq_true, decide_eq_true_eq] at hfound
    exact .inr ⟨c, List.mem_of_find?_eq_some hc, hfound⟩
  · split at h
    · rename_i hperm
      exact .inl hperm
    · cases h

/-- Data from a peer goes to the client of an allocation that authorizes the
peer. -/
theorem Emits.forwardToClient (h : Emits Q s₀ s) {peer : AddrRecord} {data : Bytes}
    (hQ : ∀ raw o, Authorizes env.now peer a → clientFrame env a peer data = some raw →
      ToClient s a raw o → Q o) :
    Emits Q s₀ (forwardToClient env s a peer data) := by
  unfold Server.forwardToClient
  split
  · exact h
  · rename_i frame hframe
    have hauth := authorizes_of_clientFrame hframe
    split
    · rename_i hsock
      split
      · rename_i c hc
        exact h.emit (hQ frame _ hauth hframe (.inr ⟨hsock, c, hc, rfl⟩))
      · exact h
    · exact h.emit (hQ frame _ hauth hframe (.inl rfl))

/-- A ChannelBind of 0x4000 to 192.168.0.9:6000, signed by `u`. -/
def channelBindRequest : Bytes :=
  [0, 9, 0, 76, 33, 18, 164, 66, 1, 2, 3, 4, 5, 6, 7, 8, 9, 10, 11, 12, 0, 6, 0, 1, 117, 0, 0, 0,
    0, 20, 0, 1, 114, 0, 0, 0, 0, 21, 0, 1, 110, 0, 0, 0, 0, 12, 0, 4, 64, 0, 0, 0, 0, 18, 0, 8,
    0, 1, 54, 98, 225, 186, 164, 75, 0, 8, 0, 20, 109, 172, 26, 161, 221, 205, 119, 128, 76, 20,
    28, 165, 150, 231, 241, 126, 36, 13, 164, 107, 128, 40, 0, 4, 177, 164, 202, 21]

/-- Every allocation is the one stored under its key. -/
def Tables.Keyed (cfg : Config) (t : Tables) : Prop :=
  ∀ (p : Ptr) (a : Allocation), t.heap[p]? = some a →
    t.allocations[a.key cfg]? = some p ∧ p < t.nextPtr

variable {t : Tables} {p : Ptr}

/-- Erasing a key frees the allocation under it and no other. -/
theorem Tables.Keyed.erased (h : t.Keyed cfg) {k : Bytes} {q : Ptr} {b : Allocation}
    (hb : (eraseAllocation k t).heap[q]? = some b) :
    t.heap[q]? = some b ∧ b.key cfg ≠ k ∧ (eraseAllocation k t).allocations[b.key cfg]? =
      some q := by
  unfold eraseAllocation at hb ⊢
  split at hb
  · rename_i hk
    have hkey := (h q b hb).1
    refine ⟨hb, ?_, hkey⟩
    rintro rfl
    rw [hk] at hkey
    cases hkey
  · rename_i p hk
    obtain ⟨hne, hb⟩ := getElem?_erase_some hb
    have hkey := (h q b hb).1
    have hkne : b.key cfg ≠ k := by
      rintro rfl
      rw [hk] at hkey
      exact hne (Option.some.inj hkey).symm
    refine ⟨hb, hkne, ?_⟩
    dsimp only
    rw [getElem?_erase_of_ne hkne]
    exact hkey

theorem Tables.Keyed.eraseAllocation (h : t.Keyed cfg) (k : Bytes) :
    (eraseAllocation k t).Keyed cfg := by
  intro q b hb
  obtain ⟨hq, -, hkey⟩ := h.erased hb
  refine ⟨hkey, ?_⟩
  have hnext : (Tables.eraseAllocation k t).nextPtr = t.nextPtr := by
    unfold Tables.eraseAllocation
    split <;> rfl
  rw [hnext]
  exact (h q b hq).2

theorem Tables.Keyed.destroyAllocation (h : t.Keyed cfg) (p : Ptr) :
    (destroyAllocation cfg p t).Keyed cfg := by
  unfold Tables.destroyAllocation
  split
  · exact h
  · rename_i a _
    have hlookups : (eraseLookups a t).Keyed cfg := h
    refine Tables.Keyed.eraseAllocation ?_ _
    rw [OnlyPorts.releaseRelayPort a.relayPort (some p) (eraseLookups a t)]
    exact hlookups

/-- Destroying an allocation leaves the others alone. -/
theorem Tables.Keyed.destroyAllocation_other (h : t.Keyed cfg) {q : Ptr} (hq : q ≠ p) :
    (Tables.destroyAllocation cfg p t).heap[q]? = t.heap[q]? := by
  unfold Tables.destroyAllocation
  split
  · rfl
  · rename_i a ha
    rw [OnlyPorts.releaseRelayPort a.relayPort (some p) (eraseLookups a t)]
    have hkey : (eraseLookups a t).allocations[a.key cfg]? = some p := (h p a ha).1
    simp only [Tables.eraseAllocation, hkey]
    exact getElem?_erase_of_ne hq

theorem Tables.Keyed.modify (h : t.Keyed cfg) (p : Ptr) {f : Allocation → Allocation}
    (hf : ∀ a, (f a).key cfg = a.key cfg) : (t.modify p f).Keyed cfg := by
  intro q b hb
  obtain ⟨a, ha, ⟨-, rfl⟩ | ⟨-, rfl⟩⟩ := getElem?_modify_some hb
  · rw [hf a]
    exact h q a ha
  · exact h q b ha

theorem Tables.Keyed.register (h : t.Keyed cfg) (a : Allocation) (overTcp : Bool) :
    (register cfg a overTcp t).Keyed cfg := by
  have hnext : (enterLookups a overTcp t).nextPtr = t.nextPtr + 1 := by
    unfold enterLookups
    dsimp only
    split <;> split <;> rfl
  have hentered : (enterLookups a overTcp t).Keyed cfg := by
    intro q b hb
    rw [enterLookups_heap] at hb
    rw [enterLookups_allocations, hnext]
    exact ⟨(h q b hb).1, Nat.lt_succ_of_lt (h q b hb).2⟩
  have hsame : (Tables.eraseAllocation (a.key cfg) (enterLookups a overTcp t)).nextPtr =
      t.nextPtr + 1 := by
    unfold Tables.eraseAllocation
    split <;> exact hnext
  intro q b hb
  obtain ⟨rfl, rfl⟩ | ⟨-, hb⟩ := getElem?_insert_some hb
  · exact ⟨TreeMap.getElem?_insert_self, by
      show _ < (Tables.eraseAllocation _ _).nextPtr
      rw [hsame]
      exact Nat.lt_succ_self _⟩
  · obtain ⟨-, hne, hkey⟩ := hentered.erased hb
    refine ⟨(getElem?_insert_of_ne hne).trans hkey, ?_⟩
    exact (hentered.eraseAllocation (a.key cfg) q b hb).2

theorem Tables.Keyed.onlyPorts {t' : Tables} (h : t.Keyed cfg) (ht : OnlyPorts t t') :
    t'.Keyed cfg := by
  rw [ht]
  exact h

theorem step_keyed (h : s.tables.Keyed cfg) (e : Event × Env) :
    (step cfg s e).tables.Keyed cfg := by
  refine step_tables_rule (R := fun t _ => t.Keyed cfg)
    ⟨fun _ _ h ht => h.onlyPorts ht, fun _ a overTcp h _ => h.register a overTcp⟩ h
    ⟨h.destroyAllocation, ?_, ?_, ?_, ?_, ?_, ?_⟩
  case refine_1 =>
    exact expireAllocations_rule h (fun _ _ h ht => h.onlyPorts ht)
      (fun _ p h => h.destroyAllocation p) fun _ p _ h _ => h.modify p fun _ => rfl
  case refine_2 =>
    refine fun p f hf => h.modify p fun a => ?_
    rw [hf a]
    rfl
  case refine_3 => exact fun _ _ p _ _ _ _ _ _ _ _ _ => h.modify p fun _ => rfl
  case refine_4 => exact fun p _ _ _ _ _ => h.modify p fun _ => rfl
  case refine_5 => exact fun _ _ _ _ _ p _ _ _ _ _ _ => h.modify p fun _ => rfl
  case refine_6 => exact fun _ _ _ _ p _ _ _ _ _ _ => h.modify p fun _ => rfl

theorem Reachable.keyed (h : Reachable cfg s) : s.tables.Keyed cfg := by
  refine Reach.invariant (P := fun s => s.tables.Keyed cfg) ?_ ?_ h
  · rintro s ⟨env, rfl⟩ p a ha
    simp [State.start, Tables.empty] at ha
  · rintro s e s' hs rfl
    exact step_keyed hs e

/-- Signed under the current nonce with the key of a registered user. -/
def SignedByUser (cfg : Config) (s : State) (msg : Message) : Prop :=
  getString msg .nonce = s.nonce ∧ ∃ password, cfg.users[getString msg .username]? = some password ∧
    msg.checkIntegrity
      (Crypto.longTermKey (getString msg .username) (getString msg .realm) password) false = true

theorem signedByUser_of_authenticate (h : (authenticate cfg env s msg).1 = 0) :
    SignedByUser cfg s msg := by
  unfold authenticate at h
  split at h
  · cases h
  · split at h
    · cases h
    · split at h
      · cases h
      · rename_i hnonce
        split at h
        · cases h
        · rename_i password hpw
          dsimp only at h
          split at h
          · rename_i hint
            exact ⟨Decidable.not_not.mp hnonce, password, hpw, hint⟩
          · cases h

/-- A request on an allocation that exists already. -/
def OnAllocation (msg : Message) : Prop :=
  msg.cls = .request ∧ (msg.method = .refresh ∨ msg.method = .createPermission ∨
    msg.method = .channelBind ∨ msg.method = .connect)

/-- Such a request leaves the tables alone, or some user signed it and it destroys
or changes the allocation it found. -/
theorem dispatchStun_onAllocation {src : AddrRecord} {conn : Option Ptr} {msg : Message}
    {alloc : Option (Ptr × Allocation)} (hmsg : OnAllocation msg) :
    (dispatchStun cfg env s src conn msg alloc).tables.heap = s.tables.heap ∨
      SignedByUser cfg s msg ∧ ∃ p a, alloc = some (p, a) ∧
        ((dispatchStun cfg env s src conn msg alloc).tables.heap =
            (Tables.destroyAllocation cfg p s.tables).heap ∨
          ∃ f, (dispatchStun cfg env s src conn msg alloc).tables.heap =
            s.tables.heap.modify p f) := by
  obtain ⟨hcls, hm⟩ := hmsg
  have hne {method : Method} (h : msg.method = method)
      (hd : ¬(method = .refresh ∨ method = .createPermission ∨ method = .channelBind ∨
        method = .connect)) {C : Prop} : C := absurd (h ▸ hm) hd
  have hchange (s' : State) {method : Method} {p : Ptr} {a : Allocation}
      (hp : alloc = some (p, a)) (hacc : Accepts cfg env s msg method)
      {f : Allocation → Allocation} (hs : s'.tables.heap = s.tables.heap.modify p f) :
      s'.tables.heap = s.tables.heap ∨ SignedByUser cfg s msg ∧ ∃ p a, alloc = some (p, a) ∧
        (s'.tables.heap = (Tables.destroyAllocation cfg p s.tables).heap ∨
          ∃ f, s'.tables.heap = s.tables.heap.modify p f) :=
    .inr ⟨signedByUser_of_authenticate hacc.2.2, p, a, hp, .inr ⟨f, hs⟩⟩
  apply dispatchStun_rule (P := fun s' => s'.tables.heap = s.tables.heap ∨
      SignedByUser cfg s msg ∧ ∃ p a, alloc = some (p, a) ∧
        (s'.tables.heap = (Tables.destroyAllocation cfg p s.tables).heap ∨
          ∃ f, s'.tables.heap = s.tables.heap.modify p f))
    ⟨fun _ _ _ h => by rwa [reply_tables], fun _ _ h => h⟩ (.inl rfl)
  case hexpired => exact fun _ _ _ _ h => hne h (by decide)
  case hallocate => exact fun _ _ h => hne h (by decide)
  case hrefresh =>
    intro p a hp hacc
    unfold handleRefresh
    dsimp only
    split
    · rw [reply_tables]
      exact .inr ⟨signedByUser_of_authenticate hacc.2.2, p, a, hp, .inl rfl⟩
    · rw [reply_tables]
      exact hchange (s.updateAlloc p _) hp hacc rfl
  case hpermission =>
    intro p a hp hacc
    obtain ⟨permissions, raw, -, heq⟩ := handleCreatePermission_eq cfg env s src conn p msg a
    rw [heq, reply_tables]
    exact hchange (s.updateAlloc p _) hp hacc rfl
  case hchannel =>
    intro p a hp hacc
    obtain heq | ⟨channel, peer, -, -, -, -, heq⟩ :=
      handleChannelBind_tables cfg env s src conn msg p a
    · exact .inl (congrArg Tables.heap heq)
    · exact hchange _ hp hacc (congrArg Tables.heap heq)
  case hconnect =>
    intro c p a _ hp _ hacc
    obtain ⟨heq, -⟩ | ⟨pc, -, -, heq, -⟩ := handleConnect_pending env s c p msg a
    · exact .inl (congrArg Tables.heap heq)
    · exact hchange _ hp hacc (congrArg Tables.heap heq)
  case hbind => exact fun _ h => hne h (by decide)
  case hrelay => exact fun _ _ _ _ _ _ _ => .inl rfl

/-- A request changes the allocation of its own path only, and only if a
registered user signed it. The name of the user is not compared with the one that
made the allocation. -/
theorem request_changes_own_allocation (hr : Reachable cfg s) {e : Event} {conn : Option Ptr}
    {msg : Message} {alloc : Option (Ptr × Allocation)}
    (hd : dispatched cfg s e = some (conn, msg, alloc)) (hmsg : OnAllocation msg) {a : Allocation}
    (ha : s.tables.heap[p]? = some a) (hne : (step cfg s (e, env)).tables.heap[p]? ≠ some a) :
    SignedByUser cfg s msg ∧ alloc.map Prod.fst = some p := by
  obtain ⟨k, src, hstep⟩ := step_of_dispatched env hd
  rw [hstep] at hne
  obtain heq | ⟨hsigned, q, b, rfl, hq⟩ := @dispatchStun_onAllocation cfg env
    { s with conns := k } src conn msg alloc hmsg
  · rw [heq] at hne
    exact absurd ha hne
  · refine ⟨hsigned, congrArg some (Decidable.byContradiction fun hqp => hne ?_)⟩
    have hpq : p ≠ q := fun h => hqp h.symm
    obtain heq | ⟨f, heq⟩ := hq
    · rw [heq]
      exact (hr.keyed.destroyAllocation_other hpq).trans ha
    · rw [heq]
      exact (getElem?_modify_of_ne hpq f).trans ha

/-- The small server with a second user `w`. -/
def twoUsers : Config :=
  { smallConfig with users := smallConfig.users.insert (ascii "w") (ascii "q") }

/-- A Refresh with lifetime 0, signed by `w`. -/
def refreshByOther : Bytes :=
  [0, 4, 0, 64, 33, 18, 164, 66, 1, 2, 3, 4, 5, 6, 7, 8, 9, 10, 11, 12, 0, 6, 0, 1, 119, 0, 0, 0,
    0, 20, 0, 1, 114, 0, 0, 0, 0, 21, 0, 1, 110, 0, 0, 0, 0, 13, 0, 4, 0, 0, 0, 0, 0, 8, 0, 20,
    58, 1, 179, 188, 8, 207, 34, 220, 162, 231, 47, 213, 210, 235, 215, 68, 245, 176, 231, 77,
    128, 40, 0, 4, 239, 165, 210, 6]

/-- `w` ends the allocation that `u` made. -/
theorem refresh_by_other_user :
    let s := step twoUsers (State.start twoUsers smallEnv)
      (.udpData allocateUdp (.v4 192 168 0 7) 50000, smallEnv)
    let s' := step twoUsers s (.udpData refreshByOther (.v4 192 168 0 7) 50000, smallEnv)
    s.tables.heap[(0 : Ptr)]?.map Allocation.username = some (ascii "u") ∧
      (stunMessage refreshByOther).map (getString · .username) = some (ascii "w") ∧
      s'.tables.heap[(0 : Ptr)]?.isNone = true := by
  decide +kernel

theorem request_changes_own_allocation_refresh :
    let s := step twoUsers (State.start twoUsers smallEnv)
      (.udpData allocateUdp (.v4 192 168 0 7) 50000, smallEnv)
    ∃ msg, stunMessage refreshByOther = some msg ∧ SignedByUser twoUsers s msg ∧
      s.tables.findAlloc (allocKey twoUsers .dgram ⟨.v4 192 168 0 7, 50000, .dgram⟩) = some 0 := by
  intro s
  have hreach : Reachable twoUsers s := .next _ (.start ⟨smallEnv, rfl⟩) rfl
  have hfacts : s.tables.heap[(0 : Ptr)]?.isSome = true ∧
      (step twoUsers s (.udpData refreshByOther (.v4 192 168 0 7) 50000, smallEnv)).tables.heap[
        (0 : Ptr)]?.isNone = true ∧
      (stunMessage refreshByOther).map (fun m => (m.cls, m.method)) =
        some (.request, .refresh) := by
    decide +kernel
  obtain ⟨hsome, hnone, hm⟩ := hfacts
  obtain ⟨a, ha⟩ := Option.isSome_iff_exists.mp hsome
  obtain ⟨msg, hmsg, hkind⟩ := Option.map_eq_some_iff.mp hm
  have hgone : (step twoUsers s (.udpData refreshByOther (.v4 192 168 0 7) 50000,
      smallEnv)).tables.heap[(0 : Ptr)]? ≠ some a := by
    rw [Option.isNone_iff_eq_none.mp hnone]
    exact nofun
  obtain ⟨hsigned, hown⟩ := request_changes_own_allocation hreach (dispatched_udpData hmsg)
    ⟨congrArg Prod.fst hkind, .inl (congrArg Prod.snd hkind)⟩ ha hgone
  obtain ⟨⟨q, b⟩, hq, rfl⟩ := Option.map_eq_some_iff.mp hown
  exact ⟨msg, hmsg, hsigned, (Tables.deref_eq_some hq).1⟩

end Stice.Server
