import Stice.Turn.Paths

/-! The flags of the TURN client say exactly which transactions are under way, as long as
transaction ids do not collide and the allocation is not given up. -/
namespace Stice.Turn.Client
open Std Net Stun Lib

/-- The ids that a call draws are not in use, and differ from each other. -/
def DistinctIds (env : ClientEnv) (c : Client) (e : Call) : Prop :=
  ∀ n < (c.call env e).drawn, c.drawn ≤ n →
    c.pending[(env.tid n).1]?.isNone ∧ ∀ m < n, c.drawn ≤ m → (env.tid m).1 ≠ (env.tid n).1

instance (env : ClientEnv) (c : Client) (e : Call) : Decidable (DistinctIds env c e) :=
  inferInstanceAs (Decidable (∀ n < (c.call env e).drawn, c.drawn ≤ n →
    c.pending[(env.tid n).1]?.isNone ∧ ∀ m < n, c.drawn ≤ m → (env.tid m).1 ≠ (env.tid n).1))

/-- The transactions under way in a slot. -/
def inFlight (c : Client) (s : Slot) : Nat :=
  (c.pending.toList.filter fun x => slotOf x.2.kind = some s).length

section
variable {env : ClientEnv} {c d : Client} {a : Action}

/-! ## Ids -/

theorem startTx_drawn (env : ClientEnv) (c : Client) (kind : TxKind)
    (build : TransactionID → Message) : (startTx env c kind build).drawn = c.drawn + 1 := by
  rw [startTx_eq]

theorem finish_drawn (c : Client) (key : Bytes) (kind : TxKind) :
    (c.finish key kind).drawn = c.drawn := by
  cases kind <;> rfl

theorem failAllocation_drawn (c : Client) (code : Nat) (reason : Bytes) :
    (c.failAllocation code reason).drawn = c.drawn := by
  unfold failAllocation
  split <;> rfl

theorem Move.drawn_le (h : Move env c a d) : c.drawn ≤ d.drawn := by
  cases h with
  | draw h => exact h
  | start kind => rw [startTx_drawn, arm_drawn]; exact Nat.le_succ _
  | finish => exact Nat.le_of_eq (finish_drawn ..).symm
  | abort => exact Nat.le_of_eq (failAllocation_drawn ..).symm
  | direct _ _ _ _ _ hr =>
    obtain ⟨n, hn, rfl, -⟩ := hand_eq hr
    exact hn
  | flush _ _ _ _ hr =>
    obtain ⟨n, hn, rfl, -⟩ := hand_eq hr
    exact hn
  | _ => exact Nat.le_refl _

/-- A step that starts nothing only takes transactions out. -/
theorem Move.pending_some (h : Move env c a d) {k : Bytes} (hk : d.pending[k]?.isSome = true) :
    c.pending[k]?.isSome = true ∨ k = (env.tid c.drawn).1 ∧ c.drawn < d.drawn := by
  obtain ⟨tx, htx⟩ := Option.isSome_iff_exists.mp hk
  cases h with
  | start kind =>
    rw [startTx_eq, arm_pending, arm_drawn] at htx
    obtain ⟨rfl, -⟩ | ⟨-, htx⟩ := getElem?_insert_some htx
    · exact .inr ⟨rfl, by rw [startTx_drawn, arm_drawn]; exact Nat.lt_succ_self _⟩
    · exact .inl (by rw [htx]; rfl)
  | resend h =>
    obtain ⟨rfl, -⟩ | ⟨-, htx⟩ := getElem?_insert_some htx
    · exact .inl (by rw [h]; rfl)
    · exact .inl (by rw [htx]; rfl)
  | finish h =>
    rw [finish_pending] at htx
    exact .inl (by rw [(getElem?_erase_some htx).2]; rfl)
  | abort h =>
    unfold failAllocation at htx
    simp [h, effect] at htx
  | direct _ _ _ _ _ hr =>
    obtain ⟨n, -, rfl, -⟩ := hand_eq hr
    exact .inl hk
  | flush _ _ _ _ hr =>
    obtain ⟨n, -, rfl, -⟩ := hand_eq hr
    exact .inl hk
  | _ => exact .inl hk

/-! ## A flag that is set has its transaction -/

/-- Until the allocation is given up. -/
def Backed (c : Client) : Prop := c.active = true → Held c.occupies c.flag

theorem Backed.of_inactive (h : c.active = false) : Backed c := by
  intro hactive
  rw [h] at hactive
  cases hactive

theorem Backed.congr (h : Backed c) (hpending : d.pending = c.pending) (hstate : d.state = c.state)
    (hflag : ∀ s, d.flag s = true → c.flag s = true) : Backed d := by
  intro hactive
  rw [active_congr hstate] at hactive
  rw [occupies_congr hpending (active_congr hstate)]
  exact (h hactive).mono hflag fun _ _ hk _ => hk

theorem Backed.flags (h : Backed c) (hpending : d.pending = c.pending) (hstate : d.state = c.state)
    (hfresh : d.refreshTidFresh = c.refreshTidFresh)
    (hflags : flags d.bindings = flags c.bindings) : Backed d := by
  refine h.congr hpending hstate fun s hs => ?_
  rw [flag_congr hstate hfresh hflags] at hs
  exact hs

theorem Backed.updateBinding (h : Backed c) {peer : AddrRecord} {f : PeerBinding → PeerBinding}
    (hf : ∀ b, Client.flags [f b] = Client.flags [b]) : Backed (c.updateBinding peer f) :=
  h.flags rfl rfl rfl (flags_modifyBinding c.bindings hf)

theorem Backed.start (h : Backed c) {kind : TxKind}
    {build : TransactionID → Message} (hunarmed : c.Unarmed kind)
    (hfresh : c.pending[(env.tid c.drawn).1]? = none) :
    Backed (startTx env (c.arm env kind) kind build) := by
  intro hactive
  have hstart : (startTx env (c.arm env kind) kind build).active = c.active := by
    rw [startTx_eq]
    exact active_arm hunarmed
  rw [hstart] at hactive
  rw [flag_startTx]
  have hocc : ∀ k s, c.occupies k = some s →
      (startTx env (c.arm env kind) kind build).occupies k = some s := by
    intro k s hk
    obtain ⟨tx, htx, hs, hcount⟩ := occupies_eq_some.mp hk
    refine occupies_eq_some.mpr ⟨tx, ?_, hs, fun hr => hstart.trans (hcount hr)⟩
    have hne : k ≠ (env.tid c.drawn).1 := by
      rintro rfl
      exact nomatch hfresh.symm.trans htx
    rw [startTx_eq, arm_pending, arm_drawn]
    exact (getElem?_insert_of_ne hne).trans htx
  cases hs : slotOf kind with
  | none =>
    refine (h hactive).mono (fun s hflag => ?_) fun k s hk _ => hocc k s hk
    rw [flag_arm hunarmed (by rw [hs]; exact nofun)] at hflag
    exact hflag
  | some s =>
    refine (h hactive).acquire (k := (env.tid c.drawn).1) (s := s) ?_ hocc ?_
    · refine occupies_eq_some.mpr ⟨⟨kind, env.now + turnRtoMs, 0,
        txRequest env (c.arm env kind) build⟩,
        ?_, hs, fun _ => hstart.trans hactive⟩
      rw [startTx_eq, arm_drawn]
      exact TreeMap.getElem?_insert_self
    · intro s' hne hflag
      rw [flag_arm hunarmed (by rw [hs]; exact fun e => hne (Option.some.inj e).symm)] at hflag
      exact hflag

/-- Ending a transaction clears its flag. -/
theorem Wired.flag_finish_self (hw : Wired c) {key : Bytes} {kind : TxKind} {s : Slot}
    (hs : slotOf kind = some s) : (c.finish key kind).flag s = false := by
  have hcleared (peer : AddrRecord) {f : PeerBinding → PeerBinding} {g : PeerBinding → Bool}
      (hf : ∀ b, (f b).peer = b.peer) (hg : ∀ b, g (f b) = false) :
      ((modifyBinding peer f c.bindings).any fun b => b.peer.key = peer.key && g b) = false := by
    have hn : (peerKeys (modifyBinding peer f c.bindings)).Nodup := nodup_modifyBinding hw.peers hf
    cases hb : (modifyBinding peer f c.bindings).find? (samePeer peer) with
    | none =>
      rw [List.any_eq_false]
      intro b hb'
      have hne := List.find?_eq_none.mp hb b hb'
      rw [samePeer_iff] at hne
      simp [hne]
    | some b =>
      rw [any_key_eq hn hb]
      rw [find?_modifyBinding peer hf] at hb
      obtain ⟨b₀, -, rfl⟩ := Option.map_eq_some_iff.mp hb
      exact hg b₀
  cases kind with
  | allocate => cases hs; rfl
  | refresh => cases hs; rfl
  | createPermission peer =>
    cases hs
    exact hcleared peer (f := .clearPermissionTid) (fun _ => rfl) fun _ => rfl
  | channelBind peer =>
    cases hs
    exact hcleared peer (f := .clearChannelTid) (fun _ => rfl) fun _ => rfl
  | connect peer => cases hs

theorem Backed.finish (h : Backed c) (hw : Wired c) {key : Bytes} {tx : PendingTx}
    (htx : c.pending[key]? = some tx) : Backed (c.finish key tx.kind) := by
  have hallocating := hw.allocating htx
  have hother : ∀ s, (c.finish key tx.kind).flag s = true → slotOf tx.kind ≠ some s := by
    intro s hflag hs
    rw [hw.flag_finish_self hs] at hflag
    cases hflag
  intro hactive
  rw [active_finish hallocating] at hactive
  refine (h hactive).mono (fun s hflag => ?_) fun k s hk hflag => ?_
  · rw [flag_finish hallocating (hother s hflag)] at hflag
    exact hflag
  · obtain ⟨tx', htx', hs, hcount⟩ := occupies_eq_some.mp hk
    refine occupies_eq_some.mpr ⟨tx', ?_, hs,
      fun hr => (active_finish hallocating).trans (hcount hr)⟩
    have hne : k ≠ key := by
      rintro rfl
      cases htx.symm.trans htx'
      exact hother s hflag hs
    rw [finish_pending]
    exact (getElem?_erase_of_ne hne).trans htx'

theorem Move.backed (h : Move env c a d) (hw : Wired c)
    (hfresh : c.drawn < d.drawn → c.pending[(env.tid c.drawn).1]? = none) (hb : Backed c) :
    Backed d := by
  cases h with
  | note => exact hb.flags rfl rfl rfl rfl
  | auth => exact hb.flags rfl rfl rfl rfl
  | schedule => exact hb.flags rfl rfl rfl rfl
  | draw => exact hb.flags rfl rfl rfl rfl
  | @bind peer =>
    refine hb.congr rfl rfl fun s hs => ?_
    rw [flag_bind] at hs
    exact hs
  | start kind h =>
    refine hb.start h (hfresh ?_)
    rw [startTx_drawn, arm_drawn]
    exact Nat.lt_succ_self _
  | @resend key tx h =>
    intro hactive
    refine (hb hactive).mono (fun _ hs => hs) fun k s hk _ => ?_
    obtain ⟨tx', htx', hs⟩ := occupies_eq_some.mp hk
    by_cases hne : k = key
    · subst hne
      cases h.symm.trans htx'
      exact occupies_eq_some.mpr ⟨advance env tx, TreeMap.getElem?_insert_self, hs⟩
    · exact occupies_eq_some.mpr ⟨tx', (getElem?_insert_of_ne hne).trans htx', hs⟩
  | finish h => exact hb.finish hw h
  | abort h =>
    refine .of_inactive ?_
    unfold failAllocation
    rw [if_neg (by simp [h])]
    rfl
  | allocated h =>
    intro _
    have hactive : c.active = true := by simp [active, h]
    refine (hb hactive).mono (fun s hs => ?_) fun k s hk _ => ?_
    · cases s with
      | allocate => cases hs
      | refresh => simpa [flag, active, h] using hs
      | _ => exact hs
    · obtain ⟨tx, htx, hs, -⟩ := occupies_eq_some.mp hk
      exact occupies_eq_some.mpr ⟨tx, htx, hs, fun _ => rfl⟩
  | reject => exact .of_inactive rfl
  | giveUp => exact .of_inactive rfl
  | permit => exact hb.updateBinding fun _ => rfl
  | ready => exact hb.updateBinding fun _ => rfl
  | keep => exact hb.updateBinding fun _ => rfl
  | drop => exact hb.updateBinding fun _ => rfl
  | collect =>
    refine hb.congr rfl rfl fun s hs => ?_
    cases s with
    | allocate => exact hs
    | refresh => exact hs
    | _ =>
      obtain ⟨b, hmem, hflag⟩ := List.any_eq_true.mp hs
      exact List.any_eq_true.mpr ⟨b, (List.mem_filter.mp hmem).1, hflag⟩
  | accept => exact hb.updateBinding fun _ => rfl
  | direct _ _ _ _ _ hr =>
    obtain ⟨n, -, rfl, -⟩ := hand_eq hr
    exact hb.flags rfl rfl rfl rfl
  | @flush i b pkt rest d' r _ hmem _ _ hr =>
    obtain ⟨n, -, rfl, -⟩ := hand_eq hr
    refine hb.flags rfl rfl rfl ?_
    dsimp only
    split
    · rfl
    · exact flags_set hmem rfl

/-! ## Paths -/

theorem drawn_le_of_path {as : List Action} (h : Path (Move env) c as d) : c.drawn ≤ d.drawn := by
  induction h with
  | nil => exact Nat.le_refl _
  | cons h _ ih => exact Nat.le_trans h.drawn_le ih

theorem backed_of_path {as : List Action} (h : Path (Move env) c as d) (hw : Wired c)
    (hids : ∀ n < d.drawn, c.drawn ≤ n → c.pending[(env.tid n).1]?.isNone = true ∧
      ∀ m < n, c.drawn ≤ m → (env.tid m).1 ≠ (env.tid n).1)
    (hb : Backed c) : Backed d := by
  induction h with
  | nil => exact hb
  | @cons c t d a as h hpath ih =>
    have hle := h.drawn_le
    have hlast := drawn_le_of_path hpath
    refine ih (h.wired hw) (fun n hn hcn => ⟨?_, fun m hm htm => ?_⟩) ?_
    · -- the id was not in use before the step, and the step takes another one
      obtain ⟨hnone, hdistinct⟩ := hids n hn (Nat.le_trans hle hcn)
      rw [Option.isNone_iff_eq_none, ← Option.not_isSome_iff_eq_none]
      intro hsome
      obtain hsome | ⟨heq, hlt⟩ := h.pending_some hsome
      · rw [Option.isNone_iff_eq_none] at hnone
        rw [hnone] at hsome
        cases hsome
      · exact hdistinct c.drawn (by omega) (Nat.le_refl _) heq.symm
    · exact (hids n hn (Nat.le_trans hle hcn)).2 m hm (Nat.le_trans hle htm)
    · refine h.backed hw (fun hlt => ?_) hb
      exact Option.isNone_iff_eq_none.mp (hids c.drawn (by omega) (Nat.le_refl _)).1

end

/-! ## Runs -/

/-- The states of the runs in which transaction ids do not collide. -/
def DistinctRuns : Client → Prop :=
  Reach Fresh (Guarded (fun c i => DistinctIds i.1 c i.2) step)

theorem DistinctRuns.invariant {c : Client} (h : DistinctRuns c) :
    Wired c ∧ Phase c ∧ Backed c := by
  refine Reach.invariant (P := fun c => Wired c ∧ Phase c ∧ Backed c) ?_ ?_ h
  · rintro _ ⟨cfg, hasSend, rfl⟩
    refine ⟨.init cfg hasSend, Fresh.phase ⟨cfg, hasSend, rfl⟩, fun _ s hs => ?_⟩
    cases s <;> cases hs
  · rintro c ⟨env, e⟩ t ⟨hw, hp, hb⟩ ⟨hids, rfl⟩
    refine ⟨hw.call env hp e, phase_call env c e hp, ?_⟩
    obtain ⟨as, hpath, -⟩ := Goes.call env hw hp e
    exact backed_of_path hpath hw hids hb

/-- A slot holds one transaction if its flag is set, and none otherwise. -/
theorem inFlight_eq {c : Client} (hw : Wired c) (hb : Backed c) (hactive : c.active = true)
    (s : Slot) : c.inFlight s = if c.flag s then 1 else 0 := by
  have hocc {k : Bytes} {tx : PendingTx} (htx : c.pending[k]? = some tx)
      (hs : decide (slotOf tx.kind = some s) = true) : c.occupies k = some s :=
    occupies_eq_some.mpr ⟨tx, htx, of_decide_eq_true hs, fun _ => hactive⟩
  refine length_filter_toList ?_ ?_
  · intro k₁ k₂ tx₁ tx₂ h₁ h₂ hs₁ hs₂
    exact hw.slots.unique k₁ k₂ s (hocc h₁ hs₁) (hocc h₂ hs₂)
  · constructor
    · intro hflag
      obtain ⟨k, hk⟩ := hb hactive s hflag
      obtain ⟨tx, htx, hs, -⟩ := occupies_eq_some.mp hk
      exact ⟨k, tx, htx, decide_eq_true hs⟩
    · rintro ⟨k, tx, htx, hs⟩
      exact hw.slots.armed k s (hocc htx hs)

/-- The flag of a binding is that of its peer. -/
theorem any_key_self {c : Client} (hw : Wired c) {b : PeerBinding} (hb : b ∈ c.bindings)
    (g : PeerBinding → Bool) : (c.bindings.any fun x => x.peer.key = b.peer.key && g x) = g b := by
  cases hfind : c.bindings.find? (samePeer b.peer) with
  | none => exact absurd (samePeer_iff.mpr rfl) (List.find?_eq_none.mp hfind b hb)
  | some b' =>
    rw [eq_of_find? hw.peers hfind hb rfl]
    exact any_key_eq hw.peers (eq_of_find? hw.peers hfind hb rfl ▸ hfind) g

theorem guards_exact {c : Client} (h : DistinctRuns c)
    (hstate : c.state = .allocating ∨ c.state = .allocated) :
    c.inFlight .allocate = (if c.state = .allocating then 1 else 0) ∧
      c.inFlight .refresh = (if c.refreshTidFresh then 1 else 0) ∧
      ∀ b ∈ c.bindings,
        c.inFlight (.permission b.peer.key) = (if b.permissionTidFresh then 1 else 0) ∧
        c.inFlight (.channel b.peer.key) = (if b.channelTidFresh then 1 else 0) := by
  obtain ⟨hw, -, hb⟩ := h.invariant
  have hactive : c.active = true := by
    obtain hstate | hstate := hstate <;> simp [active, hstate]
  have hcount := inFlight_eq hw hb hactive
  refine ⟨?_, ?_, fun b hmem => ⟨?_, ?_⟩⟩
  · rw [hcount, flag]
    simp
  · rw [hcount, flag, hactive, Bool.and_true]
  · rw [hcount, flag, any_key_self hw hmem]
  · rw [hcount, flag, any_key_self hw hmem]

/-- A permission has been granted, and a ChannelBind and the refresh of the permission are
under way. -/
def refreshingCalls : List (ClientEnv × Call) :=
  allocation ++ [(clientEnv 0, .sendData peerA [1]),
    (clientEnv 0, .handleInbound (some (reply .createPermission .successResponse
      (numberedTid 1) []))), (clientEnv 120000, .tick)]

theorem guards_exact_refreshing :
    ∃ c, checkedRun (fun c i => decide (DistinctIds i.1 c i.2)) step smallClient
        refreshingCalls = some c ∧
      c.state = .allocated ∧
      (c.bindings.map fun b => (b.permissionTidFresh, b.channelTidFresh)) = [(true, true)] ∧
      c.inFlight .allocate = (if c.state = .allocating then 1 else 0) ∧
      c.inFlight .refresh = (if c.refreshTidFresh then 1 else 0) ∧
      ∀ b ∈ c.bindings,
        c.inFlight (.permission b.peer.key) = (if b.permissionTidFresh then 1 else 0) ∧
        c.inFlight (.channel b.peer.key) = (if b.channelTidFresh then 1 else 0) := by
  have hrun : (checkedRun (fun c i => decide (DistinctIds i.1 c i.2)) step smallClient
      refreshingCalls).map
        (fun c => (c.state, c.bindings.map fun b => (b.permissionTidFresh, b.channelTidFresh))) =
      some (.allocated, [(true, true)]) := by
    decide +kernel
  obtain ⟨c, hc, hfields⟩ := Option.map_eq_some_iff.mp hrun
  have hstate : c.state = .allocated := congrArg Prod.fst hfields
  have hreach : DistinctRuns c :=
    Reach.of_checkedRun Fresh (fun c i h => of_decide_eq_true h) (.start ⟨_, _, rfl⟩) hc
  exact ⟨c, hc, hstate, congrArg Prod.snd hfields, guards_exact hreach (.inr hstate)⟩

end Stice.Turn.Client
