import Stice.Turn.Paths

/-! What the steps of the client do to its bindings. A channel is given only to the
binding of a peer with a permission, and a permission is never taken back, so a binding
with a channel always has the permission to use it. -/
namespace Stice.Turn
open Net Stun Lib

def Action.isData : Action → Bool
  | .data _ => true
  | _ => false

namespace Client

/-- What an update keeps of a binding. -/
structure Kept (c : Client) (b b' : PeerBinding) : Prop where
  peer : b'.peer = b.peer
  permitted : b.permissionPermitted = true → b'.permissionPermitted = true
  channel : b'.channel = b.channel ∨
    b.channel = 0 ∧ c.hasPermission b.peer = true ∧ channelValid b'.channel = true
  ready : b.channelReady = true → b'.channelReady = true
  data : b'.pendingData = b.pendingData ∨ b'.pendingData = []

inductive BindingStep (env : ClientEnv) (c : Client) : Action → List PeerBinding → Prop
  | idle {a : Action} (ha : a.isData = false) : BindingStep env c a c.bindings
  | bind {peer : AddrRecord} (h : c.bindings.find? (samePeer peer) = none) :
      BindingStep env c .quiet (c.bindings ++ [.new peer])
  | update {a : Action} {peer : AddrRecord} {f : PeerBinding → PeerBinding} {b : PeerBinding}
      (ha : a.isData = false) (hb : c.bindings.find? (samePeer peer) = some b)
      (h : Kept c b (f b)) : BindingStep env c a (modifyBinding peer f c.bindings)
  | accept {peer : AddrRecord} {b : PeerBinding} {payload : Bytes}
      (hb : c.bindings.find? (samePeer peer) = some b) :
      BindingStep env c (.data (.accept b.peer payload))
        (modifyBinding peer (.buffer payload) c.bindings)
  | direct {b : PeerBinding} {r : Relay} (hb : c.bindings.find? (samePeer r.peer) = some b)
      (hperm : c.hasPermission r.peer = true)
      (hsize : b.channelReady = false → r.payload.length ≤ 0xFFFF - 40) {d : Client}
      (hr : hand env c b r.peer r.payload = some (d, r)) :
      BindingStep env c (.data (.direct r)) c.bindings
  | flush {i : Nat} {b : PeerBinding} {rest : List Bytes} {d : Client} {r : Relay}
      (hb : c.bindings[i]? = some b) (hdata : b.pendingData = r.payload :: rest)
      (hr : hand env c b r.peer r.payload = some (d, r)) (hpeer : r.peer = b.peer) :
      BindingStep env c (.data (.flush r)) (if r.result < 0 then c.bindings
        else c.bindings.set i { b with pendingData := rest })
  | collect : BindingStep env c .quiet (c.bindings.filter fun b => !stale env b)

section
variable {env : ClientEnv} {c d : Client} {a : Action} {peer : AddrRecord} {b : PeerBinding}

/-! ## Channels and permissions of one peer -/

theorem hasPermission_congr (c : Client) {p q : AddrRecord} (h : p.key = q.key) :
    c.hasPermission p = c.hasPermission q := by
  have h := (AddrRecord.isEqual_iff_key p q).mpr h
  simp only [AddrRecord.isEqual, addrEqual, Bool.not_true, Bool.false_or, Bool.and_eq_true,
    decide_eq_true_eq] at h
  simp only [hasPermission, AddrRecord.isEqual, addrEqual, h.1, h.2.1, h.2.2]

theorem channelValid_random (r : UInt32) : channelValid (randomChannelNumber r) = true := by
  have h : (r &&& 0x3FFF).toUInt16.toNat < 2 ^ 14 := by
    have hand : (r &&& 0x3FFF).toNat ≤ 0x3FFF := by
      rw [UInt32.toNat_and]
      exact Nat.and_le_right
    rw [UInt32.toNat_toUInt16]
    omega
  have hor : (randomChannelNumber r).toNat = 2 ^ 14 + (r &&& 0x3FFF).toUInt16.toNat := by
    have := Nat.two_pow_add_eq_or_of_lt h 1
    rw [randomChannelNumber, UInt16.toNat_or]
    simpa [channelMin] using this.symm
  have hmin : channelMin.toNat = 2 ^ 14 := rfl
  have hmax : channelMax.toNat = 2 ^ 15 - 1 := rfl
  simp only [channelValid, Bool.and_eq_true, decide_eq_true_eq, UInt16.le_iff_toNat_le]
  omega

theorem channelValid_pickChannel (env : ClientEnv) (c : Client) (peer : AddrRecord) :
    channelValid (c.pickChannel env peer) = true := by
  unfold pickChannel
  dsimp only
  cases h : ((List.range 8).map fun attempt =>
      randomChannelNumber (env.random c.drawn attempt)).find? _ with
  | none => exact channelValid_random _
  | some ch =>
    obtain ⟨_, -, rfl⟩ := List.mem_map.mp (List.mem_of_find?_eq_some h)
    exact channelValid_random _

/-! ## Every step is one of these -/

theorem BindingStep.of_update {f : PeerBinding → PeerBinding} (ha : a.isData = false)
    (h : ∀ b, c.bindings.find? (samePeer peer) = some b → Kept c b (f b)) :
    BindingStep env c a (c.updateBinding peer f).bindings := by
  cases hb : c.bindings.find? (samePeer peer) with
  | none =>
    rw [updateBinding_eq_self fun b hb' => nomatch hb.symm.trans hb']
    exact .idle ha
  | some b => exact .update ha hb (h b hb)

theorem Kept.channelFor (hb : c.bindings.find? (samePeer peer) = some b)
    (h : b.channel ≠ 0 ∨ c.hasPermission peer = true) :
    Kept c b { b with channel := c.channelFor env peer, channelTidFresh := true } := by
  have hget : c.getBinding peer = b := getBinding_found hb
  have hkey : b.peer.key = peer.key := samePeer_iff.mp (List.find?_some hb)
  refine ⟨rfl, id, ?_, id, .inl rfl⟩
  unfold Client.channelFor
  rw [hget]
  by_cases hzero : b.channel = 0
  · have hperm : c.hasPermission peer = true := h.resolve_left fun hne => hne hzero
    rw [if_pos hzero, hasPermission_congr c hkey]
    exact .inr ⟨hzero, hperm, channelValid_pickChannel env _ peer⟩
  · rw [if_neg hzero]
    exact .inl rfl

theorem BindingStep.start {kind : TxKind} (h : c.Unarmed kind) (ha : a.isData = false) :
    BindingStep env c a (c.arm env kind).bindings := by
  cases kind with
  | allocate => exact .idle ha
  | refresh => exact .idle ha
  | createPermission peer => exact .of_update ha fun _ _ => ⟨rfl, id, .inl rfl, id, .inl rfl⟩
  | channelBind peer =>
    obtain ⟨b, hb, -, hperm⟩ := h
    refine .of_update ha fun b' hb' => ?_
    cases hb.symm.trans hb'
    exact Kept.channelFor hb hperm
  | connect _ => exact .idle ha

theorem BindingStep.finish (c : Client) (key : Bytes) (kind : TxKind) (ha : a.isData = false) :
    BindingStep env c a (c.finish key kind).bindings := by
  cases kind with
  | allocate => exact .idle ha
  | refresh => exact .idle ha
  | createPermission peer =>
    exact (.of_update ha fun _ _ => ⟨rfl, id, .inl rfl, id, .inl rfl⟩ :
      BindingStep env c a (c.updateBinding peer .clearPermissionTid).bindings)
  | channelBind peer =>
    exact (.of_update ha fun _ _ => ⟨rfl, id, .inl rfl, id, .inl rfl⟩ :
      BindingStep env c a (c.updateBinding peer .clearChannelTid).bindings)
  | connect _ => exact .idle ha

theorem failAllocation_bindings (c : Client) (code : Nat) (reason : Bytes) :
    (c.failAllocation code reason).bindings = c.bindings := by
  unfold failAllocation
  split <;> rfl

theorem Move.bindingStep (h : Move env c a d) : BindingStep env c a d.bindings := by
  cases h with
  | note | auth | schedule | draw | allocated | reject | giveUp => exact .idle rfl
  | resend => exact .idle rfl
  | bind h => exact .bind h
  | start kind h _ =>
    rw [startTx_bindings]
    exact .start h rfl
  | finish h => exact .finish c _ _ rfl
  | abort h =>
    rw [failAllocation_bindings]
    exact .idle rfl
  | permit peer time => exact .of_update rfl fun _ _ => ⟨rfl, fun _ => rfl, .inl rfl, id, .inl rfl⟩
  | ready time _ => exact .of_update rfl fun _ _ => ⟨rfl, id, .inl rfl, fun _ => rfl, .inl rfl⟩
  | keep peer time => exact .of_update rfl fun _ _ => ⟨rfl, id, .inl rfl, id, .inl rfl⟩
  | drop peer => exact .of_update rfl fun _ _ => ⟨rfl, id, .inl rfl, id, .inr rfl⟩
  | collect => exact .collect
  | accept _ hb _ => exact .accept hb
  | direct _ _ hb hperm hsize hr =>
    obtain ⟨n, -, rfl, rfl, rfl, -⟩ := hand_eq hr
    exact .direct hb hperm hsize hr
  | flush _ hb _ hdata hr =>
    obtain ⟨n, -, -, hpeer, rfl, -⟩ := hand_eq hr
    exact .flush hb hdata (by rw [hpeer]; exact hr) hpeer

/-! ## A channel has a permission -/

theorem modifyBinding_mem {f : PeerBinding → PeerBinding} {bs : List PeerBinding} (hb : b ∈ bs) :
    b ∈ modifyBinding peer f bs ∨
      bs.find? (samePeer peer) = some b ∧ f b ∈ modifyBinding peer f bs := by
  induction bs with
  | nil => cases hb
  | cons x xs ih =>
    by_cases hx : samePeer peer x = true
    · rw [modifyBinding, if_pos hx, List.find?_cons_of_pos hx]
      obtain rfl | hb := List.mem_cons.mp hb
      · exact .inr ⟨rfl, List.mem_cons_self⟩
      · exact .inl (List.mem_cons_of_mem _ hb)
    · rw [modifyBinding, if_neg hx, List.find?_cons_of_neg hx]
      obtain rfl | hb := List.mem_cons.mp hb
      · exact .inl List.mem_cons_self
      · obtain h | ⟨hfind, h⟩ := ih hb
        · exact .inl (List.mem_cons_of_mem _ h)
        · exact .inr ⟨hfind, List.mem_cons_of_mem _ h⟩

variable {bs : List PeerBinding}

/-- A binding that updates keep as it is, and that is not stale, stays. -/
theorem BindingStep.survives (h : BindingStep env c a bs) {P : PeerBinding → Prop}
    (hkept : ∀ b b', Kept c b b' → P b → P b') (hdata : ∀ b l, P b → P { b with pendingData := l })
    (hstale : ∀ b, P b → stale env b = false) (hb : b ∈ c.bindings) (hP : P b) :
    ∃ b' ∈ bs, P b' := by
  cases h with
  | idle | direct => exact ⟨b, hb, hP⟩
  | bind => exact ⟨b, List.mem_append_left _ hb, hP⟩
  | @update _ peer f b₀ _ hb₀ hk =>
    obtain h | ⟨hfind, h⟩ := modifyBinding_mem (f := f) hb
    · exact ⟨b, h, hP⟩
    · cases hb₀.symm.trans hfind
      exact ⟨f b, h, hkept b _ hk hP⟩
  | accept =>
    obtain h | ⟨-, h⟩ := modifyBinding_mem (f := .buffer _) hb
    · exact ⟨b, h, hP⟩
    · exact ⟨_, h, hdata b _ hP⟩
  | @flush i b₀ _ _ _ hb₀ _ _ _ =>
    split
    · exact ⟨b, hb, hP⟩
    · obtain ⟨j, hj⟩ := List.mem_iff_getElem?.mp hb
      by_cases hij : i = j
      · subst hij
        cases hb₀.symm.trans hj
        have hlt := (List.getElem?_eq_some_iff.mp hb₀).1
        exact ⟨_, List.mem_set hlt _, hdata b _ hP⟩
      · exact ⟨b, List.mem_iff_getElem?.mpr ⟨j, by rw [List.getElem?_set_ne hij]; exact hj⟩, hP⟩
  | collect => exact ⟨b, List.mem_filter.mpr ⟨hb, by rw [hstale b hP]; rfl⟩, hP⟩

/-- No step takes a permission back. -/
theorem BindingStep.permitted (h : BindingStep env c a bs) (hb : b ∈ c.bindings)
    (hperm : b.permissionPermitted = true) :
    ∃ b' ∈ bs, b'.peer = b.peer ∧ b'.permissionPermitted = true := by
  refine h.survives (P := fun b' => b'.peer = b.peer ∧ b'.permissionPermitted = true)
    ?_ ?_ ?_ hb ⟨rfl, hperm⟩
  · exact fun _ _ hk h => ⟨hk.peer.trans h.1, hk.permitted h.2⟩
  · exact fun _ _ h => h
  · exact fun _ h => by simp [stale, h.2]

/-- No step closes a channel or changes its number. -/
theorem BindingStep.open_channel (h : BindingStep env c a bs) (hb : b ∈ c.bindings)
    (hready : b.channelReady = true) (hne : b.channel ≠ 0) :
    ∃ b' ∈ bs, b'.peer = b.peer ∧ b'.channelReady = true ∧ b'.channel = b.channel := by
  refine h.survives
    (P := fun b' => b'.peer = b.peer ∧ b'.channelReady = true ∧ b'.channel = b.channel)
    ?_ ?_ ?_ hb ⟨rfl, hready, rfl⟩
  · intro b₁ b' hk h
    refine ⟨hk.peer.trans h.1, hk.ready h.2.1, ?_⟩
    obtain hch | ⟨hzero, -⟩ := hk.channel
    · exact hch.trans h.2.2
    · exact absurd (h.2.2.symm.trans hzero) hne
  · exact fun _ _ h => h
  · exact fun _ h => by simp [stale, h.2.1]

theorem Move.hasPermission (h : Move env c a d) (hperm : c.hasPermission peer = true) :
    d.hasPermission peer = true := by
  obtain ⟨b, hb, hp⟩ := List.any_eq_true.mp hperm
  obtain ⟨heq, hp⟩ := Bool.and_eq_true_iff.mp hp
  obtain ⟨b', hb', hpeer, hp'⟩ := h.bindingStep.permitted hb hp
  exact List.any_eq_true.mpr ⟨b', hb', by rw [hpeer, heq, hp']; rfl⟩

/-- A binding with a channel number has the permission to use it. -/
def Chartered (c : Client) : Prop :=
  ∀ b ∈ c.bindings, b.channel ≠ 0 →
    c.hasPermission b.peer = true ∧ channelValid b.channel = true

theorem BindingStep.channel (h : BindingStep env c a bs) {b' : PeerBinding} (hb' : b' ∈ bs) :
    b'.channel = 0 ∨ (∃ b ∈ c.bindings, b'.peer = b.peer ∧ b'.channel = b.channel) ∨
      c.hasPermission b'.peer = true ∧ channelValid b'.channel = true := by
  cases h with
  | idle | direct => exact .inr (.inl ⟨b', hb', rfl, rfl⟩)
  | bind =>
    obtain hb' | hb' := List.mem_append.mp hb'
    · exact .inr (.inl ⟨b', hb', rfl, rfl⟩)
    · cases List.mem_singleton.mp hb'
      exact .inl rfl
  | update _ hb hk =>
    obtain hb' | ⟨b₀, hfind, rfl⟩ := mem_modifyBinding_find hb'
    · exact .inr (.inl ⟨b', hb', rfl, rfl⟩)
    · cases hb.symm.trans hfind
      obtain hch | hch := hk.channel
      · exact .inr (.inl ⟨_, List.mem_of_find?_eq_some hfind, hk.peer, hch⟩)
      · rw [hk.peer]
        exact .inr (.inr hch.2)
  | accept =>
    obtain hb' | ⟨b₀, hfind, rfl⟩ := mem_modifyBinding_find hb'
    · exact .inr (.inl ⟨b', hb', rfl, rfl⟩)
    · exact .inr (.inl ⟨b₀, List.mem_of_find?_eq_some hfind, rfl, rfl⟩)
  | @flush i b₀ _ _ _ hb₀ _ _ _ =>
    split at hb'
    · exact .inr (.inl ⟨b', hb', rfl, rfl⟩)
    · obtain hb' | rfl := List.mem_or_eq_of_mem_set hb'
      · exact .inr (.inl ⟨b', hb', rfl, rfl⟩)
      · exact .inr (.inl ⟨b₀, List.mem_of_getElem? hb₀, rfl, rfl⟩)
  | collect => exact .inr (.inl ⟨b', (List.mem_filter.mp hb').1, rfl, rfl⟩)

theorem Move.chartered (h : Move env c a d) (hc : Chartered c) : Chartered d := by
  intro b' hb' hne
  obtain hzero | ⟨b, hb, hpeer, hch⟩ | ⟨hperm, hvalid⟩ := h.bindingStep.channel hb'
  · exact absurd hzero hne
  · rw [hch] at hne ⊢
    obtain ⟨hperm, hvalid⟩ := hc b hb hne
    exact ⟨by rw [hpeer]; exact h.hasPermission hperm, hvalid⟩
  · exact ⟨h.hasPermission hperm, hvalid⟩

theorem Runs.chartered {ok : Client → Call → Prop} (h : Runs ok c) : Chartered c := by
  refine h.of_moves (P := Chartered) ?_ ?_
  · intro cfg hasSend b hb
    cases hb
  · exact fun hc hm => hm.chartered hc

end
end Client
end Stice.Turn
