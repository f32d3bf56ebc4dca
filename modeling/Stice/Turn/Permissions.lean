import Stice.Turn.BindingSteps
import Stice.Turn.InFlight

/-! How old the permissions of a client are. A permission is believed from the response that
grants it and is never withdrawn; two minutes later the timer asks for it again, and goes on
asking. A binding without permission and channel is dropped five minutes after the epoch of
the clock, so that it is not kept longer than that. -/
namespace Stice.Turn.Client
open Std Net Stun Lib

/-! ## What a call does to a binding -/

/-- Only a success grants a permission, and only a success or the error that keeps a channel
moves the deadline of a channel; `g` and `a` are the peers for which this call brings one. -/
structure Ages (env : ClientEnv) (g a : Bytes → Prop) (b b' : PeerBinding) : Prop where
  peer : b'.peer = b.peer
  permission : b'.permissionPermitted = b.permissionPermitted ∧
      b'.permissionRefreshAt = b.permissionRefreshAt ∨
    g b.peer.key ∧ b'.permissionPermitted = true ∧ b'.permissionRefreshAt = env.now + 120000
  channel : b'.channelReady = b.channelReady ∧ b'.channelRefreshAt = b.channelRefreshAt ∨
    a b.peer.key ∧ b'.channelReady = true ∧ b'.channelRefreshAt = env.now + 300000

section
variable {env : ClientEnv} {g a : Bytes → Prop} {c d : Client} {b b' b'' : PeerBinding}

theorem Ages.of_grants (h : grants b' = grants b) : Ages env g a b b' := by
  simp only [grants, Prod.mk.injEq] at h
  obtain ⟨hpeer, hpermitted, hready, hpermission, hchannel⟩ := h
  exact ⟨hpeer, .inl ⟨hpermitted, hpermission⟩, .inl ⟨hready, hchannel⟩⟩

theorem Ages.trans (h : Ages env g a b b') (h' : Ages env g a b' b'') : Ages env g a b b'' := by
  have hkey : b'.peer.key = b.peer.key := by rw [h.peer]
  refine ⟨h'.peer.trans h.peer, ?_, ?_⟩
  · obtain ⟨hp, ht⟩ | ⟨hg, hp, ht⟩ := h'.permission
    · rw [hp, ht]
      exact h.permission
    · exact .inr ⟨hkey ▸ hg, hp, ht⟩
  · obtain ⟨hr, ht⟩ | ⟨ha, hr, ht⟩ := h'.channel
    · rw [hr, ht]
      exact h.channel
    · exact .inr ⟨hkey ▸ ha, hr, ht⟩

/-- The bindings of `d` are those of `c`, and new ones. -/
def Stays (env : ClientEnv) (g a : Bytes → Prop) (c d : Client) : Prop :=
  ∀ b' ∈ d.bindings, (∃ b ∈ c.bindings, Ages env g a b b') ∨ Ages env g a (.new b'.peer) b'

theorem Stays.of_eq (h : d.bindings = c.bindings) : Stays env g a c d := fun b' hb' =>
  .inl ⟨b', h ▸ hb', .of_grants rfl⟩

theorem Stays.trans {e : Client} (h : Stays env g a c d) (h' : Stays env g a d e) :
    Stays env g a c e := by
  intro b'' hb''
  obtain ⟨b', hb', hages⟩ | hnew := h' b'' hb''
  · obtain ⟨b, hb, hages'⟩ | hnew := h b' hb'
    · exact .inl ⟨b, hb, hages'.trans hages⟩
    · rw [hages.peer]
      exact .inr (hnew.trans hages)
  · exact .inr hnew

theorem passive_stays (env : ClientEnv) (g a : Bytes → Prop) : Passive env (Stays env g a) where
  trans := .trans
  same _ hbindings _ _ _ _ _ := .of_eq hbindings
  fail c code reason := .of_eq (failAllocation_bindings c code reason)
  bind c peer := by
    unfold Client.withBinding
    split
    · exact .of_eq rfl
    · intro b' hb'
      obtain hb' | hb' := List.mem_append.mp hb'
      · exact .inl ⟨b', hb', .of_grants rfl⟩
      · rw [List.mem_singleton.mp hb']
        exact .inr (.of_grants rfl)
  flags c bs h := by
    intro b' hb'
    have hmem : grants b' ∈ c.bindings.map grants := h ▸ List.mem_map_of_mem hb'
    obtain ⟨b, hb, heq⟩ := List.mem_map.mp hmem
    exact .inl ⟨b, hb, .of_grants heq.symm⟩
  start c kind build _ := .of_eq (startTx_bindings env c kind build)

theorem Stays.updateBinding (c : Client) {peer : AddrRecord} {f : PeerBinding → PeerBinding}
    (h : ∀ b, c.bindings.find? (samePeer peer) = some b → Ages env g a b (f b)) :
    Stays env g a c (c.updateBinding peer f) := by
  intro b' hb'
  obtain hb' | ⟨b, hb, rfl⟩ := mem_modifyBinding_find hb'
  · exact .inl ⟨b', hb', .of_grants rfl⟩
  · exact .inl ⟨b, List.mem_of_find?_eq_some hb, h b hb⟩

end

/-- The peer to which the call brings a permission. -/
def grantedBy (c : Client) (e : Call) : Option Bytes :=
  match c.responseOf e with
  | some (m, tx) =>
      match tx.kind with
      | .createPermission peer => if m.cls = .errorResponse then none else some peer.key
      | _ => none
  | none => none

/-- The peer to which the call brings a channel. -/
def boundBy (c : Client) (e : Call) : Option Bytes :=
  match c.responseOf e with
  | some (m, tx) =>
      match tx.kind with
      | .channelBind peer => if m.cls = .errorResponse then none else some peer.key
      | _ => none
  | none => none

/-- The peer whose ChannelBind request the call answers with Bad Request. -/
def keptBy (c : Client) (e : Call) : Option Bytes :=
  match c.responseOf e with
  | some (m, tx) =>
      match tx.kind with
      | .channelBind peer =>
          if m.cls = .errorResponse ∧ (errorOf m).1 = 400 then some peer.key else none
      | _ => none
  | none => none

theorem Stays.call (env : ClientEnv) (c : Client) (e : Call) :
    Stays env (fun k => c.grantedBy e = some k)
      (fun k => c.boundBy e = some k ∨ c.keptBy e = some k)
      c (c.call env e) := by
  have hR := passive_stays env (fun k => c.grantedBy e = some k)
    (fun k => c.boundBy e = some k ∨ c.keptBy e = some k)
  refine hR.call (fun m tx hm => ?_) fun he => ?_
  · refine hR.handleStunResponse (responseOf_pending hm) (.of_eq rfl)
      (fun _ _ _ _ => .of_eq rfl) ?_ ?_ ?_ ?_
    · intro peer hkind hcls d
      refine .updateBinding d fun b hb => ⟨rfl, .inr ⟨?_, rfl, rfl⟩, .inl ⟨rfl, rfl⟩⟩
      rw [samePeer_iff.mp (List.find?_some hb)]
      simp [grantedBy, hm, hkind, hcls]
    · intro peer hkind hcls d
      refine .updateBinding d fun b hb => ⟨rfl, .inl ⟨rfl, rfl⟩, .inr ⟨.inl ?_, rfl, rfl⟩⟩
      rw [samePeer_iff.mp (List.find?_some hb)]
      simp [boundBy, hm, hkind, hcls]
    · intro peer hkind hcls hcode d hready
      refine .updateBinding d fun b hb => ⟨rfl, .inl ⟨rfl, rfl⟩, .inr ⟨.inr ?_, ?_, rfl⟩⟩
      · rw [samePeer_iff.mp (List.find?_some hb)]
        simp [keptBy, hm, hkind, hcls, hcode]
      · rw [getBinding_found hb] at hready
        exact hready
    · intro peer hkind
      have htx := responseOf_pending hm
      simp only [Client.handleStunResponse, htx, hkind, handleConnectResponse]
      split
      · exact .of_eq rfl
      · split
        · exact .of_eq rfl
        · exact .of_eq rfl
  · refine hR.tick c (hR.tickPending (fun _ _ => .of_eq rfl) (fun _ _ _ _ => .of_eq rfl) c _)
      fun d b' hb' => ?_
    exact .inl ⟨b', (List.mem_filter.mp hb').1, .of_grants rfl⟩

/-! ## The refresh loop -/

/-- What is due is under way. -/
structure Chased (env : ClientEnv) (b : PeerBinding) : Prop where
  permission : b.permissionPermitted = true → b.permissionRefreshAt ≤ env.now →
    b.permissionTidFresh = true
  channel : b.channelReady = true → b.channelRefreshAt ≤ env.now → b.channelTidFresh = true

/-- Flags may be set, and nothing else that counts here changes. -/
structure Flagged (b b' : PeerBinding) : Prop where
  grants : grants b' = grants b
  permission : b.permissionTidFresh = true → b'.permissionTidFresh = true
  channel : b.channelTidFresh = true → b'.channelTidFresh = true

section
variable {env : ClientEnv} {c d : Client} {peer : AddrRecord} {b b' x y : PeerBinding}
  {keys : List Bytes}

theorem Flagged.trans (h : Flagged b b') (h' : Flagged b' x) : Flagged b x :=
  ⟨h'.grants.trans h.grants, fun hp => h'.permission (h.permission hp),
    fun hc => h'.channel (h.channel hc)⟩

theorem Flagged.chased (h : Flagged b b') (hb : Chased env b) : Chased env b' := by
  have hgrants := h.grants
  simp only [Client.grants, Prod.mk.injEq] at hgrants
  obtain ⟨-, hpermitted, hready, hpermission, hchannel⟩ := hgrants
  refine ⟨fun hp ht => h.permission (hb.permission ?_ ?_),
    fun hr ht => h.channel (hb.channel ?_ ?_)⟩
  · rw [← hpermitted]
    exact hp
  · rw [← hpermission]
    exact ht
  · rw [← hready]
    exact hr
  · rw [← hchannel]
    exact ht

theorem sendCreatePermission_bindings (h : c.bindings.find? (samePeer peer) = some b) :
    (c.sendCreatePermission env peer).bindings =
      modifyBinding peer (fun b => { b with permissionTidFresh := true }) c.bindings := by
  unfold Client.sendCreatePermission
  dsimp only
  rw [withBinding_found h, getBinding_found h]
  split
  · rename_i hfresh
    refine (congrArg Client.bindings (updateBinding_eq_self fun x hx => ?_)).symm
    cases h.symm.trans hx
    rw [← hfresh]
  · rw [startTx_bindings]
    rfl

theorem sendChannelBind_bindings (h : c.bindings.find? (samePeer peer) = some b) :
    ∃ ch, (c.sendChannelBind env peer).bindings =
      modifyBinding peer (fun b => { b with channel := ch, channelTidFresh := true })
        c.bindings := by
  unfold Client.sendChannelBind
  dsimp only
  rw [withBinding_found h, getBinding_found h]
  split
  · rename_i hfresh
    refine ⟨b.channel, ?_⟩
    refine (congrArg Client.bindings (updateBinding_eq_self fun x hx => ?_)).symm
    cases h.symm.trans hx
    rw [← hfresh]
  · rw [startTx_bindings]
    exact ⟨_, rfl⟩

theorem Flagged.peer_eq (h : Flagged b b') : b'.peer = b.peer := congrArg Prod.fst h.grants

/-- A function applied to the binding of a peer only sets flags, this one among them. -/
structure Sets (peer : AddrRecord) (flag : PeerBinding → Bool) (due : Prop)
    (c d : Client) (f : PeerBinding → PeerBinding) : Prop where
  bindings : d.bindings = modifyBinding peer f c.bindings
  flagged : ∀ y, Flagged y (f y)
  sets : due → ∀ y, flag (f y) = true

theorem Sets.refl {flag : PeerBinding → Bool} {due : Prop} (h : ¬ due) :
    Sets peer flag due c c id := by
  refine ⟨?_, fun y => ⟨rfl, id, id⟩, fun hdue => absurd hdue h⟩
  exact (congrArg Client.bindings (updateBinding_eq_self fun _ _ => rfl)).symm

theorem refresh_permission (h : c.bindings.find? (samePeer peer) = some x) (due : Prop)
    [Decidable due] : ∃ f, Sets peer (·.permissionTidFresh) due c
      (if due then c.sendCreatePermission env peer else c) f := by
  by_cases hdue : due
  · rw [if_pos hdue]
    exact ⟨_, sendCreatePermission_bindings h, fun y => ⟨rfl, fun _ => rfl, id⟩, fun _ _ => rfl⟩
  · rw [if_neg hdue]
    exact ⟨id, .refl hdue⟩

theorem refresh_channel (h : c.bindings.find? (samePeer peer) = some x) (due : Prop)
    [Decidable due] : ∃ f, Sets peer (·.channelTidFresh) due c
      (if due then c.sendChannelBind env peer else c) f := by
  by_cases hdue : due
  · rw [if_pos hdue]
    obtain ⟨ch, hch⟩ := @sendChannelBind_bindings env c peer x h
    exact ⟨_, hch, fun y => ⟨rfl, id, fun _ => rfl⟩, fun _ _ => rfl⟩
  · rw [if_neg hdue]
    exact ⟨id, .refl hdue⟩

/-- One round of the loop sets the flags of what is due in the binding of the peer. -/
theorem refreshBinding_bindings (h : c.bindings.find? (samePeer b.peer) = some x) :
    ∃ f, (refreshBinding env c b).bindings = modifyBinding b.peer f c.bindings ∧
      (∀ y, Flagged y (f y)) ∧ ∀ y, grants y = grants b → Chased env (f y) := by
  unfold Client.refreshBinding
  dsimp only
  obtain ⟨f, hf⟩ := @refresh_permission env c b.peer x h
    (b.permissionPermitted = true ∧ b.permissionRefreshAt ≤ env.now) _
  generalize (if b.permissionPermitted = true ∧ b.permissionRefreshAt ≤ env.now
    then c.sendCreatePermission env b.peer else c) = d at hf ⊢
  have hfind : d.bindings.find? (samePeer b.peer) = some (f x) := by
    rw [hf.bindings, find?_modifyBinding _ (fun y => (hf.flagged y).peer_eq), h]
    rfl
  obtain ⟨f', hf'⟩ := @refresh_channel env d b.peer (f x) hfind
    (b.channelReady = true ∧ b.channelRefreshAt ≤ env.now) _
  refine ⟨fun y => f' (f y), ?_, fun y => (hf.flagged y).trans (hf'.flagged _), fun y hy => ?_⟩
  · rw [hf'.bindings, hf.bindings, modifyBinding_modifyBinding fun y => (hf.flagged y).peer_eq]
  · have hgrants := ((hf.flagged y).trans (hf'.flagged _)).grants.trans hy
    simp only [grants, Prod.mk.injEq] at hgrants
    obtain ⟨-, hpermitted, hready, hpermission, hchannel⟩ := hgrants
    refine ⟨fun hp ht => (hf'.flagged _).permission (hf.sets ?_ y), fun hr ht => hf'.sets ?_ _⟩
    · exact ⟨hpermitted ▸ hp, hpermission ▸ ht⟩
    · exact ⟨hready ▸ hr, hchannel ▸ ht⟩

/-- After the loop what is due is under way in every binding it has come to, and in every
binding in which it was before. -/
theorem foldl_refreshBinding_chased {l : List PeerBinding} (hn : (peerKeys c.bindings).Nodup)
    (hl : ∀ b ∈ l, ∃ y ∈ c.bindings, grants y = grants b) :
    (l.foldl (refreshBinding env) c).bindings.map grants = c.bindings.map grants ∧
    ∀ y ∈ (l.foldl (refreshBinding env) c).bindings,
      (∃ b ∈ l, b.peer.key = y.peer.key) ∨
        (∃ b ∈ c.bindings, b.peer.key = y.peer.key ∧ Chased env b) → Chased env y := by
  induction l generalizing c with
  | nil =>
    refine ⟨rfl, fun y hy h => ?_⟩
    obtain ⟨b, hb, -⟩ | ⟨b, hb, hkey, hchased⟩ := h
    · cases hb
    · rw [List.inj_on_of_nodup_map hn hy hb hkey.symm]
      exact hchased
  | cons b l ih =>
    obtain ⟨y₀, hy₀, hgrants₀⟩ := hl b List.mem_cons_self
    have hkey₀ : y₀.peer.key = b.peer.key := by
      rw [show y₀.peer = b.peer from congrArg Prod.fst hgrants₀]
    have hfind : c.bindings.find? (samePeer b.peer) = some y₀ := by
      cases hfind : c.bindings.find? (samePeer b.peer) with
      | none => exact absurd (samePeer_iff.mpr hkey₀) (List.find?_eq_none.mp hfind y₀ hy₀)
      | some y => rw [eq_of_find? hn hfind hy₀ hkey₀]
    obtain ⟨f, hbindings, hflagged, hchased⟩ := @refreshBinding_bindings env c b y₀ hfind
    have hmap : (refreshBinding env c b).bindings.map grants = c.bindings.map grants := by
      rw [hbindings]
      exact map_modifyBinding fun y _ => (hflagged y).grants
    have hkeys : peerKeys (refreshBinding env c b).bindings = peerKeys c.bindings := by
      rw [hbindings]
      exact peerKeys_modifyBinding _ fun y => (hflagged y).peer_eq
    obtain ⟨hrest, hall⟩ := @ih (refreshBinding env c b) (hkeys ▸ hn) fun b' hb' => by
      obtain ⟨y, hy, hgrants⟩ := hl b' (List.mem_cons_of_mem b hb')
      have hmem : grants y ∈ (refreshBinding env c b).bindings.map grants :=
        hmap ▸ List.mem_map_of_mem hy
      obtain ⟨z, hz, heq⟩ := List.mem_map.mp hmem
      exact ⟨z, hz, heq.trans hgrants⟩
    refine ⟨hrest.trans hmap, fun y hy h => hall y hy ?_⟩
    have hnew : f y₀ ∈ (refreshBinding env c b).bindings := by
      have hfound := find?_modifyBinding b.peer (fun y => (hflagged y).peer_eq) c.bindings
      rw [← hbindings, hfind] at hfound
      exact List.mem_of_find?_eq_some hfound
    have hkeynew : (f y₀).peer.key = b.peer.key := by rw [(hflagged y₀).peer_eq, hkey₀]
    obtain ⟨b', hb', hkey⟩ | ⟨b', hb', hkey, hdone⟩ := h
    · obtain rfl | hb' := List.mem_cons.mp hb'
      · exact .inr ⟨f y₀, hnew, hkeynew.trans hkey, hchased y₀ hgrants₀⟩
      · exact .inl ⟨b', hb', hkey⟩
    · obtain hstays | ⟨hfound, -⟩ := @modifyBinding_mem b.peer _ f _ hb'
      · rw [← hbindings] at hstays
        exact .inr ⟨b', hstays, hkey, hdone⟩
      · cases hfind.symm.trans hfound
        exact .inr ⟨f y₀, hnew, hkeynew.trans (hkey₀.symm.trans hkey), (hflagged y₀).chased hdone⟩

/-! ## The timer -/

theorem tickPending_reported (h : (c.tickPending env keys).1 = true) :
    (c.tickPending env keys).2.failedEmitted = true := by
  induction keys generalizing c with
  | nil => cases h
  | cons key rest ih =>
    unfold Client.tickPending at h ⊢
    split at h
    · rename_i d hd
      obtain ⟨heq, -⟩ | ⟨tx, -, -, ⟨-, heq⟩ | ⟨-, heq⟩⟩ := tickTx_cases env c key
      · cases hd.symm.trans heq
      · have heq := hd.symm.trans heq
        have hreported : ∀ (c : Client) code reason,
            (c.failAllocation code reason).failedEmitted = true := fun c code reason => by
          unfold Client.failAllocation
          split
          · assumption
          · rfl
        cases hk : tx.kind <;> rw [hk] at heq <;> cases heq <;> exact hreported _ _ _
      · cases hd.symm.trans heq
    · exact ih h

theorem refreshed_chased (hn : (peerKeys c.bindings).Nodup) :
    ∀ b ∈ (c.refreshed env).bindings, Chased env b := by
  unfold Client.refreshed
  dsimp only
  have hbindings : (if c.state = .allocated ∧ c.refreshAt ≤ env.now
      then c.sendRefresh env c.lifetime else c).bindings = c.bindings := by
    split
    · obtain heq | heq := sendRefresh_cases env c c.lifetime <;> rw [heq]
      rw [startTx_bindings]
    · rfl
  generalize (if c.state = .allocated ∧ c.refreshAt ≤ env.now
    then c.sendRefresh env c.lifetime else c) = d at hbindings ⊢
  obtain ⟨hmap, hall⟩ := @foldl_refreshBinding_chased env d d.bindings (hbindings ▸ hn)
    fun b hb => ⟨b, hb, rfl⟩
  intro y hy
  have hmem : grants y ∈ d.bindings.map grants := hmap ▸ List.mem_map_of_mem hy
  obtain ⟨b, hb, heq⟩ := List.mem_map.mp hmem
  exact hall y hy (.inl ⟨b, hb, by rw [show b.peer = y.peer from congrArg Prod.fst heq]⟩)

theorem flushed_chased (h : ∀ b ∈ c.bindings, Chased env b)
    (hb : b ∈ (flushBindings env c c.bindings).2) : Chased env b := by
  let stand : PeerBinding → (AddrRecord × Bool × Bool × Int × Int) × Bool × Bool :=
    fun b => (grants b, b.permissionTidFresh, b.channelTidFresh)
  have hmap := @map_flushBindings env _ stand (fun _ _ => rfl) c.bindings c
  have hmem : stand b ∈ c.bindings.map stand := hmap ▸ List.mem_map_of_mem hb
  obtain ⟨y, hy, heq⟩ := List.mem_map.mp hmem
  obtain ⟨hgrants, hpermission, hchannel⟩ : grants y = grants b ∧
      y.permissionTidFresh = b.permissionTidFresh ∧ y.channelTidFresh = b.channelTidFresh := by
    simpa [stand] using heq
  have hflagged : Flagged y b :=
    ⟨hgrants.symm, fun hp => hpermission.symm.trans hp, fun hc => hchannel.symm.trans hc⟩
  exact hflagged.chased (h y hy)

/-- After the timer, as long as the allocation is not given up, what is due is under way and
no binding is stale. -/
theorem tick_chased (hw : Wired c) (hactive : (c.tick env).2.active = true) :
    ∀ b ∈ (c.tick env).2.bindings, Chased env b ∧ stale env b = false := by
  have hpending := Goes.tickPending env hw c.pending.keys
  have hwired := hpending.wired hw
  have hearly := @tickPending_reported env c c.pending.keys
  unfold Client.tick at hactive ⊢
  split at hactive
  · rename_i d hd
    rw [hd] at hearly hwired
    have hstate := hwired.failed (hearly rfl)
    rw [active, hstate] at hactive
    exact absurd hactive (by decide)
  · rename_i d hd
    rw [hd] at hwired
    intro b hb
    obtain ⟨hmem, hstale⟩ := List.mem_filter.mp hb
    exact ⟨flushed_chased (refreshed_chased hwired.peers) hmem, by simpa using hstale⟩

end

/-! ## Runs -/

/-- A client, with the time of its last call and a log of what has happened to its peers: the
success of a CreatePermission, the success of a ChannelBind, a ChannelBind answered with Bad
Request, and a new binding. -/
structure Aged where
  client : Client
  clock : Int
  granted : List (Bytes × Int)
  bound : List (Bytes × Int)
  kept : List (Bytes × Int)
  born : List (Bytes × Int)

namespace Aged

def step (s : Aged) (i : ClientEnv × Call) : Aged :=
  let d := s.client.step i
  let log (key : Option Bytes) := key.toList.map fun k => (k, i.1.now)
  { client := d
    clock := i.1.now
    granted := s.granted ++ log (s.client.grantedBy i.2)
    bound := s.bound ++ log (s.client.boundBy i.2)
    kept := s.kept ++ log (s.client.keptBy i.2)
    born := s.born ++ ((peerKeys d.bindings).filter fun k =>
      k ∉ peerKeys s.client.bindings).map fun k => (k, i.1.now) }

/-- The clock starts at its epoch. -/
def Fresh (s : Aged) : Prop :=
  Client.Fresh s.client ∧ s.clock = 0 ∧ s.granted = [] ∧ s.bound = [] ∧ s.kept = [] ∧ s.born = []

/-- The clock is steady, and the ids of a call are not in use. -/
def Ok (s : Aged) (i : ClientEnv × Call) : Prop :=
  s.clock ≤ i.1.now ∧ DistinctIds i.1 s.client i.2

instance (s : Aged) (i : ClientEnv × Call) : Decidable (s.Ok i) :=
  inferInstanceAs (Decidable (s.clock ≤ i.1.now ∧ DistinctIds i.1 s.client i.2))

/-- What a binding says is what the log says. -/
structure Logged (s : Aged) (b : PeerBinding) : Prop where
  permitted : b.permissionPermitted = true →
    ∃ t, (b.peer.key, t) ∈ s.granted ∧ b.permissionRefreshAt = t + 120000
  idle : b.permissionPermitted = false → b.permissionRefreshAt = 0
  ready : b.channelReady = true → ∃ t, ((b.peer.key, t) ∈ s.bound ∨ (b.peer.key, t) ∈ s.kept) ∧
    b.channelRefreshAt = t + 300000

structure Inv (s : Aged) : Prop where
  runs : DistinctRuns s.client
  clock : 0 ≤ s.clock
  logged : ∀ b ∈ s.client.bindings, s.Logged b
  born : ∀ k ∈ peerKeys s.client.bindings, ∃ t, 0 ≤ t ∧ (k, t) ∈ s.born

theorem Logged.new (s : Aged) (peer : AddrRecord) : s.Logged (.new peer) :=
  ⟨(fun h => nomatch h), fun _ => rfl, fun h => nomatch h⟩

theorem Logged.ages {s : Aged} {env : ClientEnv} {e : Call} {b b' : PeerBinding} (h : s.Logged b)
    (hages : Ages env (fun k => s.client.grantedBy e = some k)
      (fun k => s.client.boundBy e = some k ∨ s.client.keptBy e = some k) b b') :
    (s.step (env, e)).Logged b' := by
  have hkey : b'.peer.key = b.peer.key := by rw [hages.peer]
  refine ⟨fun hp => ?_, fun hp => ?_, fun hr => ?_⟩
  · rw [hkey]
    obtain ⟨hsame, ht⟩ | ⟨hg, -, ht⟩ := hages.permission
    · obtain ⟨t, hmem, hat⟩ := h.permitted (hsame ▸ hp)
      exact ⟨t, List.mem_append_left _ hmem, ht.trans hat⟩
    · exact ⟨env.now, List.mem_append_right _ (by simp [hg]), ht⟩
  · obtain ⟨hsame, ht⟩ | ⟨-, hp', -⟩ := hages.permission
    · exact ht.trans (h.idle (hsame ▸ hp))
    · cases hp.symm.trans hp'
  · rw [hkey]
    obtain ⟨hsame, ht⟩ | ⟨ha, -, ht⟩ := hages.channel
    · obtain ⟨t, hmem, hat⟩ := h.ready (hsame ▸ hr)
      refine ⟨t, hmem.imp (List.mem_append_left _) (List.mem_append_left _), ht.trans hat⟩
    · refine ⟨env.now, ha.imp (fun ha => ?_) (fun ha => ?_), ht⟩
      · exact List.mem_append_right _ (by simp [ha])
      · exact List.mem_append_right _ (by simp [ha])

theorem Inv.step {s : Aged} {i : ClientEnv × Call} (h : s.Inv) (hok : s.Ok i) : (s.step i).Inv := by
  obtain ⟨env, e⟩ := i
  have hnow : 0 ≤ env.now := Int.le_trans h.clock hok.1
  refine ⟨.next _ h.runs ⟨hok.2, rfl⟩, hnow, fun b' hb' => ?_, fun k hk => ?_⟩
  · obtain ⟨b, hb, hages⟩ | hages := Stays.call env s.client e b' hb'
    · exact (h.logged b hb).ages hages
    · exact (Logged.new s b'.peer).ages hages
  · by_cases hold : k ∈ peerKeys s.client.bindings
    · obtain ⟨t, ht, hmem⟩ := h.born k hold
      exact ⟨t, ht, List.mem_append_left _ hmem⟩
    · refine ⟨env.now, hnow, List.mem_append_right _ (List.mem_map.mpr ⟨k, ?_, rfl⟩)⟩
      exact List.mem_filter.mpr ⟨hk, by simpa using hold⟩

theorem Inv.of_reach {s : Aged} (h : Reach Fresh (Guarded Ok Aged.step) s) : s.Inv := by
  induction h with
  | start h =>
    obtain ⟨hfresh, hclock, -⟩ := h
    refine ⟨.start hfresh, Int.le_of_eq hclock.symm, ?_, ?_⟩
    all_goals
      obtain ⟨cfg, hasSend, hc⟩ := hfresh
      rw [hc]
      intro x hx
      cases hx
  | next i _ hstep ih =>
    obtain ⟨hok, rfl⟩ := hstep
    exact ih.step hok

end Aged

/-- After the timer, as long as the allocation is not given up: a binding that is kept has a
transaction under way, or is young by one of the responses that count, or is new; and a
permission that is believed was granted, and is young or asked for again. A tick that fails
the allocation returns before it comes to the bindings. -/
theorem permissions_fresh (s : Aged) (h : Reach Aged.Fresh (Guarded Aged.Ok Aged.step) s)
    (env : ClientEnv) (hok : s.Ok (env, .tick))
    (hactive : (s.step (env, .tick)).client.active = true) :
    (∀ b ∈ (s.step (env, .tick)).client.bindings,
      (s.step (env, .tick)).client.inFlight (.permission b.peer.key) = 1 ∨
      (s.step (env, .tick)).client.inFlight (.channel b.peer.key) = 1 ∨
      (∃ t, env.now - 420000 ≤ t ∧ ((b.peer.key, t) ∈ (s.step (env, .tick)).granted ∨
        (b.peer.key, t) ∈ (s.step (env, .tick)).bound)) ∨
      (∃ t, env.now - 300000 ≤ t ∧ (b.peer.key, t) ∈ (s.step (env, .tick)).kept) ∨
      ∃ t, env.now - 300000 ≤ t ∧ (b.peer.key, t) ∈ (s.step (env, .tick)).born) ∧
    ∀ peer, (s.step (env, .tick)).client.hasPermission peer = true →
      ∃ b ∈ (s.step (env, .tick)).client.bindings, b.peer.isEqual peer false = true ∧
        ∃ t, (b.peer.key, t) ∈ (s.step (env, .tick)).granted ∧
          (env.now - 120000 ≤ t ∨
            (s.step (env, .tick)).client.inFlight (.permission b.peer.key) = 1) := by
  have hinv := Aged.Inv.of_reach h
  have hchased := @tick_chased env s.client hinv.runs.invariant.1 hactive
  have hnext := hinv.step hok
  obtain ⟨hwired, -, hbacked⟩ := hnext.runs.invariant
  generalize hd : s.step (env, .tick) = d at *
  have hbindings : ∀ b ∈ d.client.bindings, Chased env b ∧ stale env b = false := by
    rw [← hd]
    exact hchased
  have hpermission : ∀ b ∈ d.client.bindings, b.permissionTidFresh = true →
      d.client.inFlight (.permission b.peer.key) = 1 := fun b hb hfresh => by
    rw [inFlight_eq hwired hbacked hactive, if_pos]
    exact (any_key_self hwired hb (·.permissionTidFresh)).trans hfresh
  have hchannel : ∀ b ∈ d.client.bindings, b.channelTidFresh = true →
      d.client.inFlight (.channel b.peer.key) = 1 := fun b hb hfresh => by
    rw [inFlight_eq hwired hbacked hactive, if_pos]
    exact (any_key_self hwired hb (·.channelTidFresh)).trans hfresh
  constructor
  · intro b hb
    obtain ⟨hchase, hstale⟩ := hbindings b hb
    have hlogged := hnext.logged b hb
    by_cases hp : b.permissionPermitted = true
    · obtain ⟨t, hmem, hat⟩ := hlogged.permitted hp
      by_cases hdue : b.permissionRefreshAt ≤ env.now
      · exact .inl (hpermission b hb (hchase.permission hp hdue))
      · exact .inr (.inr (.inl ⟨t, by omega, .inl hmem⟩))
    · by_cases hr : b.channelReady = true
      · obtain ⟨t, hmem, hat⟩ := hlogged.ready hr
        by_cases hdue : b.channelRefreshAt ≤ env.now
        · exact .inr (.inl (hchannel b hb (hchase.channel hr hdue)))
        · obtain hmem | hmem := hmem
          · exact .inr (.inr (.inl ⟨t, by omega, .inr hmem⟩))
          · exact .inr (.inr (.inr (.inl ⟨t, by omega, hmem⟩)))
      · by_cases hfresh : b.permissionTidFresh = true
        · exact .inl (hpermission b hb hfresh)
        · by_cases hfresh' : b.channelTidFresh = true
          · exact .inr (.inl (hchannel b hb hfresh'))
          · -- never permitted, so that its deadline is still the epoch
            rw [Bool.not_eq_true] at hp hr hfresh hfresh'
            have hidle := hlogged.idle hp
            obtain ⟨t, ht, hmem⟩ := hnext.born b.peer.key (List.mem_map_of_mem hb)
            simp only [stale, hp, hr, hfresh, hfresh', hidle, Bool.not_false, Bool.and_true,
              Bool.true_and, decide_eq_false_iff_not] at hstale
            exact .inr (.inr (.inr (.inr ⟨t, by omega, hmem⟩)))
  · intro peer hp
    obtain ⟨b, hb, hpeer⟩ := List.any_eq_true.mp hp
    obtain ⟨hsame, hpermitted⟩ := Bool.and_eq_true_iff.mp hpeer
    obtain ⟨t, hmem, hat⟩ := (hnext.logged b hb).permitted hpermitted
    refine ⟨b, hb, hsame, t, hmem, ?_⟩
    by_cases hdue : b.permissionRefreshAt ≤ env.now
    · exact .inr (hpermission b hb ((hbindings b hb).1.permission hpermitted hdue))
    · exact .inl (by omega)

/-- A permission is granted, and its refresh is refused two minutes later. -/
def refreshRefused : List (ClientEnv × Call) :=
  allocation ++
    [(clientEnv 0, .sendData peerA [1]),
      (clientEnv 0, .handleInbound (some (reply .createPermission .successResponse
        (numberedTid 1) []))),
      (clientEnv 120000, .tick),
      (clientEnv 120000, .handleInbound (some (reply .createPermission .errorResponse
        (numberedTid 4) (errorAttr 403))))]

theorem permissions_fresh_refused :
    ∃ s, checkedRun (fun s i => decide (Aged.Ok s i))
        Aged.step ⟨smallClient, 0, [], [], [], []⟩ refreshRefused = some s ∧
      (s.step (clientEnv 200000, .tick)).client.hasPermission peerA = true ∧
      ∃ b ∈ (s.step (clientEnv 200000, .tick)).client.bindings, b.peer.isEqual peerA false = true ∧
        ∃ t, (b.peer.key, t) ∈ (s.step (clientEnv 200000, .tick)).granted ∧
          (200000 - 120000 ≤ t ∨ (s.step (clientEnv 200000, .tick)).client.inFlight
            (.permission b.peer.key) = 1) := by
  have hrun : (checkedRun (fun s i => decide (Aged.Ok s i))
      Aged.step ⟨smallClient, 0, [], [], [], []⟩ refreshRefused).map (fun s =>
        ((s.step (clientEnv 200000, .tick)).client.hasPermission peerA,
          decide (Aged.Ok s (clientEnv 200000, .tick)),
          (s.step (clientEnv 200000, .tick)).client.active)) = some (true, true, true) := by
    decide +kernel
  obtain ⟨s, hs, hfacts⟩ := Option.map_eq_some_iff.mp hrun
  simp only [Prod.mk.injEq, decide_eq_true_eq] at hfacts
  obtain ⟨hperm, hok, hactive⟩ := hfacts
  have hreach := Reach.of_checkedRun Aged.Fresh (fun _ _ h => of_decide_eq_true h)
    (.start ⟨⟨_, _, rfl⟩, rfl, rfl, rfl, rfl, rfl⟩) hs
  exact ⟨s, hs, hperm, (permissions_fresh s hreach (clientEnv 200000) hok hactive).2 peerA hperm⟩

def peerA2 : AddrRecord := ⟨.v4 192 168 0 9, 6001, .dgram⟩

/-- Another port of the same host has the permission, gets a channel of its own, and keeps it
five minutes later. -/
def channelKept : List (ClientEnv × Call) :=
  allocation ++
    [(clientEnv 0, .sendData peerA [1]),
      (clientEnv 0, .handleInbound (some (reply .createPermission .successResponse
        (numberedTid 1) []))),
      (clientEnv 0, .sendData peerA2 [2]),
      (clientEnv 0, .handleInbound (some (reply .channelBind .successResponse (numberedTid 5) []))),
      (clientEnv 300000, .tick),
      (clientEnv 300000, .handleInbound (some (reply .channelBind .errorResponse
        (numberedTid 8) (errorAttr 400))))]

/-- Ten minutes after the only success the permission is still believed. -/
def believed : Aged :=
  (refreshRefused ++ [(clientEnv 600000, Call.tick)]).foldl Aged.step
    ⟨smallClient, 0, [], [], [], []⟩

/-- Eight minutes after its only success the channel is there with nothing under way. -/
def untouched : Aged :=
  (channelKept ++ [(clientEnv 500000, Call.tick)]).foldl Aged.step ⟨smallClient, 0, [], [], [], []⟩

theorem permission_believed :
    (believed.client.state = .allocated ∧ believed.client.hasPermission peerA = true ∧
      believed.granted = [(peerA.key, 0)]) ∧
    (untouched.client.state = .allocated ∧ peerA2.key ∈ peerKeys untouched.client.bindings ∧
      untouched.client.inFlight (.permission peerA2.key) = 0 ∧
      untouched.client.inFlight (.channel peerA2.key) = 0 ∧
      untouched.granted = [(peerA.key, 0)] ∧ untouched.bound = [(peerA2.key, 0)] ∧
      untouched.born = [(peerA.key, 0), (peerA2.key, 0)]) := by
  constructor
  · decide +kernel
  · decide +kernel

end Stice.Turn.Client
