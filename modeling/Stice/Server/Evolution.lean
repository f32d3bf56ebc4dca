import Stice.Server.Integrity
import Stice.Server.Ownership

/-! What one message does to the allocations and through them: it changes the
allocation it found, makes a new one under a free key, and relays through the
allocation it found only. A CONNECTION-BIND changes the pending connects of the
connector. -/
namespace Stice.Server
open Std Net Stun Turn Lib

variable {cfg : Config} {env : Env} {s : State} {t t' : Tables} {p : Ptr}

/-! ## Evolution of the heap -/

/-- Every allocation of the later tables was there, related by `R`. -/
def Tables.From (R : Allocation → Allocation → Prop) (t t' : Tables) : Prop :=
  ∀ (p : Ptr) (b : Allocation), t'.heap[p]? = some b → ∃ a, t.heap[p]? = some a ∧ R a b

section
variable {R : Allocation → Allocation → Prop} (hrefl : ∀ a, R a a)
include hrefl

theorem Tables.From.of_heap (h : t'.heap = t.heap) : From R t t' :=
  fun _ b hb => ⟨b, h ▸ hb, hrefl b⟩

theorem Tables.From.modify {f : Allocation → Allocation} (hf : ∀ a, R a (f a))
    (ht' : t'.heap = t.heap.modify p f) : From R t t' := by
  intro q b hb
  rw [ht'] at hb
  obtain ⟨a, ha, ⟨-, rfl⟩ | ⟨-, rfl⟩⟩ := getElem?_modify_some hb
  · exact ⟨a, ha, hf a⟩
  · exact ⟨b, ha, hrefl b⟩

theorem Tables.From.eraseAllocation (k : Bytes) (t : Tables) :
    From R t (Tables.eraseAllocation k t) := by
  intro q b hb
  simp only [Tables.eraseAllocation] at hb
  split at hb
  · exact ⟨b, hb, hrefl b⟩
  · exact ⟨b, (getElem?_erase_some hb).2, hrefl b⟩

theorem Tables.From.destroyAllocation (cfg : Config) (t : Tables) (p : Ptr) :
    From R t (Tables.destroyAllocation cfg p t) := by
  simp only [Tables.destroyAllocation]
  split
  · exact .of_heap hrefl rfl
  · rename_i a _
    intro q b hb
    obtain ⟨c, hc, hcb⟩ := From.eraseAllocation hrefl _ _ q b hb
    rw [releaseRelayPort_heap] at hc
    exact ⟨c, hc, hcb⟩

variable (htrans : ∀ a b c, R a b → R b c → R a c)
include htrans

omit hrefl in
theorem Tables.From.trans {t₁ t₂ t₃ : Tables} (h : From R t₁ t₂) (h' : From R t₂ t₃) :
    From R t₁ t₃ := by
  intro p c hc
  obtain ⟨b, hb, hbc⟩ := h' p c hc
  obtain ⟨a, ha, hab⟩ := h p b hb
  exact ⟨a, ha, htrans a b c hab hbc⟩

theorem Tables.From.expireAllocations (cfg : Config) (now : Int)
    (hdrop : ∀ a, R a (dropExpired now a)) (t : Tables) :
    From R t (Tables.expireAllocations cfg now t) := by
  have hone (t : Tables) (p : Ptr) : From R t (expireOne cfg now t p) := by
    simp only [expireOne]
    split
    · exact .of_heap hrefl rfl
    · rename_i a _
      have hmod : From R t { t with
          heap := t.heap.modify p (dropExpired now)
          pendingByConnId := (a.pendingConnects.filter fun x => x.expiryMs ≤ now).foldl
            (fun m pc => m.erase pc.connId) t.pendingByConnId } := .modify hrefl hdrop rfl
      split
      · exact hmod.trans htrans (.destroyAllocation hrefl cfg _ p)
      · exact hmod
  have hsweep (ps : List Ptr) (t : Tables) : From R t (ps.foldl (expireOne cfg now) t) := by
    induction ps generalizing t with
    | nil => exact .of_heap hrefl rfl
    | cons p ps ih => exact (hone t p).trans htrans (ih _)
  exact hsweep _ t

end

variable {src : AddrRecord} {conn : Option Ptr} {msg : Message}

/-! ## What is sent -/

/-- Everything that was sent between two states meets `Q`. -/
def Emits (Q : Output → Prop) (s s' : State) : Prop :=
  ∃ new, s'.out = s.out ++ new ∧ ∀ o ∈ new, Q o

variable {Q : Output → Prop} {s₀ : State}

theorem Emits.refl (Q : Output → Prop) (s : State) : Emits Q s s :=
  ⟨[], (List.append_nil _).symm, fun _ h => nomatch h⟩

/-- Only what was sent counts. -/
theorem Emits.of_out {s' : State} (h : Emits Q s₀ s) (hout : s'.out = s.out) :
    Emits Q s₀ s' := by
  obtain ⟨new, hnew, hQ⟩ := h
  exact ⟨new, hout.trans hnew, hQ⟩

theorem Emits.emit (h : Emits Q s₀ s) {o : Output} (ho : Q o) : Emits Q s₀ (s.emit o) := by
  obtain ⟨new, hnew, hQ⟩ := h
  refine ⟨new ++ [o], by simp [State.emit, hnew], fun o' ho' => ?_⟩
  rcases List.mem_append.mp ho' with ho' | ho'
  · exact hQ o' ho'
  · exact List.mem_singleton.mp ho' ▸ ho

/-- What a message that came from `src`, or on a connection, is answered with: a
response the way it came, or a message of RFC 6062 to the control connection of the
other end. -/
inductive Answer (s : State) (src : AddrRecord) (msg : Message) : Option Ptr → Output → Prop
  | udp {raw : Bytes} (hraw : Response msg.transactionID raw) : Answer s src msg none (.udp src raw)
  | tcp {c : Ptr} {raw : Bytes} (hraw : Response msg.transactionID raw) :
      Answer s src msg (some c) (.tcp c raw)
  | attempt {conn : Option Ptr} {c p : Ptr} {a : Allocation} (m : Message)
      (hmsg : msg.method = .connect) (hm : m.method = .connectionAttempt ∧ m.cls = .indication)
      (ha : s.tables.heap[p]? = some a) (hc : s.conns.tcpConnRef a.controlSock = some c) :
      Answer s src msg conn (.tcp c (m.encode none none (some serverName)).raw)
  | connected {conn : Option Ptr} {c p : Ptr} {a : Allocation} {id : UInt32} {pc : PendingConnect}
      {raw : Bytes} (hmsg : msg.method = .connectionBind) (ha : s.tables.heap[p]? = some a)
      (hpc : s.tables.findPendingByConnId id = some (p, pc)) (hraw : Response pc.connectTid raw)
      (hc : s.conns.tcpConnRef a.controlSock = some c) : Answer s src msg conn (.tcp c raw)

/-- The answers depend on the tables and on who may be reached. -/
theorem Answer.frame {s' : State} {o : Output} (ht : s'.tables = s.tables)
    (hk : s.conns.Frame s'.conns) (h : Answer s' src msg conn o) : Answer s src msg conn o := by
  cases h with
  | udp hraw => exact .udp hraw
  | tcp hraw => exact .tcp hraw
  | attempt m hmsg hm ha hc => exact .attempt m hmsg hm (ht ▸ ha) (hk.tcpConnRef hc)
  | connected hmsg ha hpc hraw hc =>
    exact .connected hmsg (ht ▸ ha) (ht ▸ hpc) hraw (hk.tcpConnRef hc)

/-- A message is answered, relayed through the allocation it found, or makes data
connections exchange what they have buffered. -/
theorem Emits.dispatchStun {alloc : Option (Ptr × Allocation)} (h : Emits Q s₀ s)
    (hanswer : ∀ o, Answer s src msg conn o → Q o)
    (hrelay : ∀ p a peer data, alloc = some (p, a) → SendsTo msg peer data →
      permitted env.now peer a = true → Q (.relay p peer data))
    (hpipe : ∀ c peer data, Q (.pipe c peer data)) :
    Emits Q s₀ (dispatchStun cfg env s src conn msg alloc) := by
  have hq : Answering cfg env src conn msg (Emits Q s₀) := by
    refine ⟨fun s' raw hraw h => ?_, fun _ _ h => h⟩
    cases conn with
    | none => exact h.emit (hanswer _ (.udp hraw))
    | some c => exact h.emit (hanswer _ (.tcp hraw))
  apply dispatchStun_rule_of_answers hq (fun _ _ _ h => h.of_out rfl) h
  case hattempt =>
    intro s' q target id addr hm hq hk h
    unfold sendConnectionAttempt
    dsimp only
    split
    · rename_i c hc
      rw [hk] at hc
      exact h.emit (hanswer _ (.attempt _ hm ⟨rfl, rfl⟩ hq hc))
    · exact h
  case hbind =>
    intro hcls hm
    have hmark (c : Ptr) (id : UInt32) : s.conns.Frame (markData s c id).conns :=
      .modify _ c fun _ => ⟨rfl, rfl, rfl⟩
    have hflush {s : State} (h : Emits Q s₀ s) (c : Ptr) :
        Emits Q s₀ (flushPrePair s c) := by
      unfold flushPrePair
      split
      · exact h
      · split
        · exact h
        · split
          · exact h
          · exact (h.emit (hpipe _ _ _)).of_out rfl
    cases conn with
    | none => exact h
    | some d =>
      have hqd (src' : AddrRecord) : Answering cfg env src' (some d) msg (Emits Q s₀) :=
        ⟨fun _ _ hraw h => Emits.emit h (hanswer (.tcp d _) (.tcp hraw)), fun _ _ h => h⟩
      apply handleConnectionBind_rule hqd h
      · rintro c x id p connector pc ⟨⟩ _ _ _ hpc hp _
        have hconnect : Emits Q s₀ (sendConnectResponse cfg (markData s d id) id connector pc) := by
          unfold sendConnectResponse
          split
          · exact h.of_out rfl
          · split
            · rename_i c hc
              refine Emits.emit (h.of_out rfl) (hanswer _ ?_)
              exact .connected hm hp hpc (.success ..) ((hmark d id).tcpConnRef hc)
            · exact h.of_out rfl
        exact Emits.emit (hconnect.of_out rfl) (hanswer _ (.tcp (.success ..)))
      · rintro c x id p connector pc ⟨⟩ _ _ _ _ _ _
        have hbound : Emits Q s₀ (sendBindResponse cfg (markData s d id) d msg) :=
          Emits.emit (h.of_out rfl) (hanswer _ (.tcp (.success ..)))
        have hpair : Emits Q s₀ (pairData (sendBindResponse cfg (markData s d id) d msg) d
            x.sock pc.firstDataSock) := by
          unfold pairData
          split
          · apply hflush
            apply hflush
            exact hbound.of_out rfl
          · exact hbound
        exact hpair.of_out rfl
  case hrelay => exact fun p a peer data hp hs hperm => h.emit (hrelay p a peer data hp hs hperm)

end Stice.Server
