import Stice.Turn.BindingSteps

/-! The channel numbers of a client. A number is chosen for a binding that has none, from
random numbers: eight attempts look for one that no other binding has, the ninth is taken as
it is. A call chooses at most one number and changes none, so that the numbers stay distinct
as long as one of the nine is free. -/
namespace Stice.Turn.Client
open Std Net Stun Lib

/-! ## The table of channel numbers -/

/-- The numbers of the bindings, with their peers. -/
def chans (bs : List PeerBinding) : List (Bytes × UInt16) := bs.map fun b => (b.peer.key, b.channel)

section
variable {env : ClientEnv} {c d e : Client} {peer : AddrRecord} {b : PeerBinding}
  {bs : List PeerBinding} {f g : PeerBinding → PeerBinding}

theorem chans_modifyBinding_congr
    (h : ∀ b, bs.find? (samePeer peer) = some b → chans [f b] = chans [g b]) :
    chans (modifyBinding peer f bs) = chans (modifyBinding peer g bs) := by
  induction bs with
  | nil => rfl
  | cons x xs ih =>
    by_cases hx : samePeer peer x = true
    · simp only [modifyBinding, hx, if_true]
      exact congrArg (· ++ chans xs) (h x (List.find?_cons_of_pos hx))
    · simp only [modifyBinding, hx, Bool.false_eq_true, if_false]
      refine congrArg (_ :: ·) (ih fun b hb => h b ?_)
      rw [List.find?_cons_of_neg hx]
      exact hb

theorem chans_modifyBinding
    (h : ∀ b, bs.find? (samePeer peer) = some b → (f b).peer = b.peer ∧ (f b).channel = b.channel) :
    chans (modifyBinding peer f bs) = chans bs :=
  map_modifyBinding fun b hb => by rw [(h b hb).1, (h b hb).2]

theorem peerKeys_chans (bs : List PeerBinding) : peerKeys bs = (chans bs).map Prod.fst := by
  rw [chans, List.map_map]
  rfl

/-! ## What a call does to the table -/

/-- Bindings without a number may be added, for new peers. -/
def Extends (c d : Client) : Prop :=
  ∃ keys : List Bytes, chans d.bindings = chans c.bindings ++ keys.map (fun k => (k, 0)) ∧
    ((peerKeys c.bindings).Nodup → (peerKeys d.bindings).Nodup)

theorem Extends.of_chans (h : chans d.bindings = chans c.bindings) : Extends c d := by
  refine ⟨[], by rw [h, List.map_nil, List.append_nil], fun hn => ?_⟩
  rw [peerKeys_chans, h, ← peerKeys_chans]
  exact hn

theorem Extends.of_eq (h : d.bindings = c.bindings) : Extends c d := .of_chans (by rw [h])

theorem Extends.refl (c : Client) : Extends c c := .of_eq rfl

theorem Extends.trans (h : Extends c d) (h' : Extends d e) : Extends c e := by
  obtain ⟨keys, heq, hn⟩ := h
  obtain ⟨keys', heq', hn'⟩ := h'
  exact ⟨keys ++ keys', by rw [heq', heq, List.map_append, List.append_assoc], fun h => hn' (hn h)⟩

theorem Extends.updateBinding (c : Client)
    (h : ∀ b, c.bindings.find? (samePeer peer) = some b →
      (f b).peer = b.peer ∧ (f b).channel = b.channel) : Extends c (c.updateBinding peer f) :=
  .of_chans (chans_modifyBinding h)

theorem Extends.updated (h : Extends c d)
    (hf : ∀ b, (f b).peer = b.peer ∧ (f b).channel = b.channel) :
    Extends c (d.updateBinding peer f) := h.trans (.updateBinding d fun b _ => hf b)

theorem Extends.withBinding (c : Client) (peer : AddrRecord) : Extends c (c.withBinding peer) := by
  unfold Client.withBinding
  split
  · exact .refl c
  · rename_i hnone
    refine ⟨[peer.key], by simp [chans, PeerBinding.new], fun hn => ?_⟩
    have hnew : peer.key ∉ peerKeys c.bindings := by
      intro hmem
      obtain ⟨b, hb, hkey⟩ := List.mem_map.mp hmem
      exact hnone (List.any_eq_true.mpr ⟨b, hb, samePeer_iff.mpr hkey⟩)
    simp only [peerKeys, List.map_append] at hn hnew ⊢
    exact List.nodup_append.mpr ⟨hn, List.nodup_singleton _, by
      rintro k hk _ hk' rfl
      rw [List.mem_singleton.mp hk'] at hk
      exact hnew hk⟩

theorem Extends.startTx (h : Extends c d) (kind : TxKind) (build : TransactionID → Message) :
    Extends c (startTx env d kind build) := by
  refine h.trans (.of_eq ?_)
  rw [startTx_bindings]

theorem Extends.sendCreatePermission (env : ClientEnv) (c : Client) (peer : AddrRecord) :
    Extends c (c.sendCreatePermission env peer) := by
  unfold Client.sendCreatePermission
  dsimp only
  split
  · exact .withBinding c peer
  · refine Extends.startTx (.trans (.withBinding c peer) ?_) _ _
    exact .updateBinding _ fun _ _ => ⟨rfl, rfl⟩

theorem Extends.sendRefresh (env : ClientEnv) (c : Client) (lt : UInt32) :
    Extends c (c.sendRefresh env lt) := by
  obtain heq | heq := sendRefresh_cases env c lt <;> rw [heq]
  · exact .refl c
  · exact .startTx (.of_eq rfl) _ _

theorem Extends.allocate (env : ClientEnv) (c : Client) : Extends c (c.allocate env) := by
  unfold Client.allocate
  split
  · exact .refl c
  · exact .startTx (.of_eq rfl) _ _

theorem Extends.failAllocation (c : Client) (code : Nat) (reason : Bytes) :
    Extends c (c.failAllocation code reason) := .of_eq (failAllocation_bindings c code reason)

/-- A channel is asked for again under the number it has. -/
theorem Extends.sendChannelBind (h : Bound c peer) : Extends c (c.sendChannelBind env peer) := by
  obtain ⟨b, hb, hchannel⟩ := h
  have hget := getBinding_found hb
  cases hfresh : (c.getBinding peer).channelTidFresh with
  | true =>
    unfold Client.sendChannelBind
    dsimp only
    rw [getBinding_withBinding, if_pos hfresh]
    exact .withBinding c peer
  | false =>
    rw [sendChannelBind_start hfresh, withBinding_found hb]
    refine Extends.startTx (.updateBinding c fun b' hb' => ?_) _ _
    cases hb.symm.trans hb'
    refine ⟨rfl, ?_⟩
    dsimp only
    rw [channelFor, hget, if_neg hchannel]

/-- At most one number is chosen, for a binding without one. -/
inductive Changes (env : ClientEnv) (c : Client) : Client → Prop
  | keep {d : Client} (h : Extends c d) : Changes env c d
  | pick {mid d : Client} {peer : AddrRecord} {b : PeerBinding} (h : Extends c mid)
      (hb : mid.bindings.find? (samePeer peer) = some b) (hzero : b.channel = 0)
      (hd : chans d.bindings = chans (modifyBinding peer
        (fun b => { b with channel := mid.pickChannel env peer }) mid.bindings)) : Changes env c d

theorem Changes.after (h : Extends c d) (h' : Changes env d e) : Changes env c e := by
  cases h' with
  | keep h' => exact .keep (h.trans h')
  | pick h' hb hzero hd => exact .pick (h.trans h') hb hzero hd

theorem Changes.refl (c : Client) : Changes env c c := .keep (.refl c)

theorem Changes.sendChannelBind (env : ClientEnv) (c : Client) (peer : AddrRecord) :
    Changes env c (c.sendChannelBind env peer) := by
  have hfind := find?_withBinding c peer
  by_cases hzero : (c.getBinding peer).channel = 0
  · cases hfresh : (c.getBinding peer).channelTidFresh with
    | true =>
      unfold Client.sendChannelBind
      dsimp only
      rw [getBinding_withBinding, if_pos hfresh]
      exact .keep (.withBinding c peer)
    | false =>
      refine .pick (.withBinding c peer) hfind hzero ?_
      rw [sendChannelBind_start hfresh, startTx_bindings, channelFor, if_pos hzero]
      exact chans_modifyBinding_congr fun _ _ => rfl
  · have hbound : Bound (c.withBinding peer) peer := ⟨_, hfind, hzero⟩
    have hsame : c.sendChannelBind env peer = (c.withBinding peer).sendChannelBind env peer := by
      unfold Client.sendChannelBind
      rw [withBinding_found hfind]
    rw [hsame]
    exact .keep ((Extends.withBinding c peer).trans (.sendChannelBind hbound))

/-! ### Responses -/

theorem Changes.permit (env : ClientEnv) (c : Client) (peer : AddrRecord) :
    Changes env c (c.permit env peer) := by
  unfold Client.permit
  dsimp only
  have hpermit : Extends c ({ c with nonceRetries := 0 }.updateBinding peer fun b =>
      { b with permissionPermitted := true, permissionRefreshAt := env.now + 120000 }) :=
    .updated (.of_eq rfl) fun _ => ⟨rfl, rfl⟩
  generalize { c with nonceRetries := 0 }.updateBinding peer (fun b =>
    { b with permissionPermitted := true, permissionRefreshAt := env.now + 120000 }) = d
    at hpermit ⊢
  refine .after hpermit ?_
  split
  · exact .refl d
  · obtain ⟨sent, n, left, heq, -⟩ := flushPendingData_eq env d (d.getBinding peer)
    rw [heq]
    dsimp only
    -- the binding is written back as it was, but for its buffer
    have hback : Extends d ({ d with out := d.out ++ sent, drawn := n }.updateBinding peer fun _ =>
        { d.getBinding peer with pendingData := left }) := by
      refine .trans (.of_eq rfl) (.updateBinding _ fun b hb => ?_)
      have hget : d.getBinding peer = b := getBinding_found hb
      rw [hget]
      exact ⟨rfl, rfl⟩
    split
    · exact .after hback (.sendChannelBind env _ peer)
    · exact .keep hback

theorem Changes.handleCreatePermissionResponse (env : ClientEnv) (c : Client) (m : Message)
    (isError : Bool) (peer : AddrRecord) :
    Changes env c (c.handleCreatePermissionResponse env m isError peer) := by
  refine .after (.withBinding c peer) ?_
  unfold Client.handleCreatePermissionResponse
  dsimp only
  split
  · exact .permit env _ peer
  · refine handleAuthError_cases (P := Changes env (c.withBinding peer))
      (f := fun c => (c.updateBinding peer .clearPermissionTid).sendCreatePermission env peer)
      (g := fun c => c.updateBinding peer fun b => { b with pendingData := [] }) ?_ ?_
    · intro creds n _
      refine .keep (.trans ?_ (.sendCreatePermission env _ peer))
      exact .updated (.of_eq rfl) fun _ => ⟨rfl, rfl⟩
    · intro creds n _
      exact .keep (.updated (.of_eq rfl) fun _ => ⟨rfl, rfl⟩)

theorem Changes.handleChannelBindResponse (env : ClientEnv) (c : Client) (m : Message)
    (isError : Bool) (peer : AddrRecord) :
    Changes env c (c.handleChannelBindResponse env m isError peer) := by
  refine .after (.withBinding c peer) ?_
  unfold Client.handleChannelBindResponse
  dsimp only
  split
  · exact .keep (.updated (.of_eq rfl) fun _ => ⟨rfl, rfl⟩)
  · refine handleAuthError_cases (P := Changes env (c.withBinding peer))
      (f := fun c => (c.updateBinding peer .clearChannelTid).sendChannelBind env peer) ?_ ?_
    · intro creds n _
      refine .after ?_ (.sendChannelBind env _ peer)
      exact .updated (.of_eq rfl) fun _ => ⟨rfl, rfl⟩
    · intro creds n _
      split
      · split
        · exact .keep (.updated (.of_eq rfl) fun _ => ⟨rfl, rfl⟩)
        · exact .keep (.of_eq rfl)
      · exact .keep (.of_eq rfl)

theorem Extends.handleAllocateResponse (env : ClientEnv) (c : Client) (m : Message)
    (isError : Bool) : Extends c (c.handleAllocateResponse env m isError) := by
  unfold Client.handleAllocateResponse
  dsimp only
  split
  · split
    · refine handleAuthError_cases (P := Extends c)
        (f := fun c => Client.allocate env { c with state := .idle }) ?_ ?_
      · intro creds n _
        exact .trans (.of_eq rfl) (.allocate env _)
      · intro creds n _
        exact .trans (.of_eq rfl) (.failAllocation _ _ _)
    · exact .failAllocation _ _ _
  · split
    · exact .trans (.of_eq rfl) (.failAllocation _ _ _)
    · exact .of_eq rfl

theorem Extends.handleRefreshResponse (env : ClientEnv) (c : Client) (m : Message)
    (isError : Bool) : Extends c (c.handleRefreshResponse env m isError) := by
  unfold Client.handleRefreshResponse
  dsimp only
  split
  · refine handleAuthError_cases (P := Extends c)
      (f := fun c => c.sendRefresh env c.lifetime) ?_ ?_
    · intro creds n _
      exact .trans (.of_eq rfl) (.sendRefresh env _ _)
    · intro creds n _
      exact .trans (.of_eq rfl) (.failAllocation _ _ _)
  · split
    · exact .of_eq rfl
    · exact .of_eq rfl

theorem Extends.handleConnectResponse (c : Client) (m : Message) (isError : Bool)
    (peer : AddrRecord) : Extends c (c.handleConnectResponse m isError peer) := by
  unfold Client.handleConnectResponse
  split
  · exact .of_eq rfl
  · split
    · exact .refl c
    · exact .of_eq rfl

theorem Changes.handleStunResponse (env : ClientEnv) (c : Client) (m : Message) :
    Changes env c (c.handleStunResponse env m) := by
  unfold Client.handleStunResponse
  split
  · exact .refl c
  · rename_i tx _
    dsimp only
    cases tx.kind with
    | allocate =>
      refine .keep (.trans ?_ (.handleAllocateResponse env _ m _))
      exact .of_eq rfl
    | refresh =>
      refine .keep (.trans ?_ (.handleRefreshResponse env _ m _))
      exact .of_eq rfl
    | createPermission peer =>
      refine .after ?_ (.handleCreatePermissionResponse env _ m _ peer)
      exact .updated (.of_eq rfl) fun _ => ⟨rfl, rfl⟩
    | channelBind peer =>
      refine .after ?_ (.handleChannelBindResponse env _ m _ peer)
      exact .updated (.of_eq rfl) fun _ => ⟨rfl, rfl⟩
    | connect peer =>
      refine .keep (.trans ?_ (.handleConnectResponse _ m _ peer))
      exact .of_eq rfl

/-! ### The timer -/

theorem Extends.tickPending (env : ClientEnv) (c : Client) (keys : List Bytes) :
    Extends c (c.tickPending env keys).2 := by
  refine tickPending_rule (R := Extends) .trans .refl (fun c key => ?_) c keys
  obtain ⟨heq, -⟩ | ⟨tx, -, -, ⟨-, heq⟩ | ⟨-, heq⟩⟩ := tickTx_cases env c key <;> rw [heq]
  · exact .refl c
  · refine .trans (.of_eq (d := { c with pending := c.pending.erase key }) rfl) ?_
    cases tx.kind with
    | allocate => exact .failAllocation _ _ _
    | refresh => exact .trans (.of_eq rfl) (.failAllocation _ _ _)
    | createPermission peer => exact .updateBinding _ fun _ _ => ⟨rfl, rfl⟩
    | channelBind peer => exact .updateBinding _ fun _ _ => ⟨rfl, rfl⟩
    | connect peer => exact .refl _
  · exact .of_eq rfl

theorem Extends.foldl_refreshBinding {l : List PeerBinding}
    (h : ∀ b ∈ l, b.channelReady = true → Bound c b.peer) :
    Extends c (l.foldl (Client.refreshBinding env) c) :=
  foldl_refreshBinding_rule .refl .trans (.sendCreatePermission env)
    (fun _ _ hbound => .sendChannelBind hbound) h

theorem Extends.refreshed (hw : Wired c) : Extends c (c.refreshed env) := by
  unfold Client.refreshed
  dsimp only
  split
  · rename_i hdue
    have hstep := Goes.sendRefresh env c c.lifetime (hw.not_failed (by rw [hdue.1]; decide))
    exact (Extends.sendRefresh env c _).trans
      (.foldl_refreshBinding fun b hb => (hstep.wired hw).ready hb)
  · exact .foldl_refreshBinding fun b hb => hw.ready hb

/-- The loops over the bindings choose no number, and may drop bindings at the end. -/
theorem tickBindings_table (hw : Wired c) :
    Extends c (c.refreshed env) ∧
      (chans (c.tickBindings env).bindings).Sublist (chans (c.refreshed env).bindings) := by
  refine ⟨.refreshed hw, ?_⟩
  have hflush : chans (flushBindings env (c.refreshed env) (c.refreshed env).bindings).2 =
      chans (c.refreshed env).bindings := map_flushBindings (fun _ _ => rfl) _ _
  rw [← hflush]
  exact List.Sublist.map _ List.filter_sublist

/-! ### Calls -/

theorem Changes.sendData (env : ClientEnv) (c : Client) (peer : AddrRecord) (data : Bytes) :
    Changes env c (c.sendData env peer data).2 := by
  unfold Client.sendData
  dsimp only
  split
  · exact .refl c
  · refine .after (.withBinding c peer) ?_
    generalize c.withBinding peer = d
    split
    · refine .keep (.updated ?_ fun _ => ⟨rfl, rfl⟩)
      split
      · exact .refl d
      · exact .sendCreatePermission env d peer
    · split
      · split
        · exact .refl d
        · split
          · exact .keep (.of_eq rfl)
          · exact .refl d
      · split
        · exact .refl d
        · have hsent : Extends d ({ d with drawn := d.drawn + 1 }.sendPrepared
              (sendIndication (env.tid d.drawn) peer data)) := by
            refine .of_eq ?_
            rw [sendPrepared_eq]
          dsimp only
          split
          · exact .after hsent (.sendChannelBind env _ peer)
          · exact .keep hsent

/-- A call chooses at most one number; bindings may be dropped when that is done. -/
theorem call_table (env : ClientEnv) (hw : Wired c) (e : Call) :
    ∃ mid, Changes env c mid ∧ (chans (c.call env e).bindings).Sublist (chans mid.bindings) := by
  cases e with
  | allocate => exact ⟨_, .keep (.allocate env c), .refl _⟩
  | deallocate =>
    refine ⟨_, .keep (d := c.deallocate env) ?_, .refl _⟩
    unfold Client.deallocate
    split
    · exact .refl c
    · refine .trans ?_ (.of_eq rfl)
      exact .trans (.of_eq rfl) (.sendRefresh env _ 0)
  | ensurePermission peer => exact ⟨_, .keep (.sendCreatePermission env c peer), .refl _⟩
  | sendData peer data => exact ⟨_, .sendData env c peer data, .refl _⟩
  | sendConnect peer =>
    refine ⟨_, .keep (d := c.sendConnect env peer) ?_, .refl _⟩
    unfold Client.sendConnect
    split
    · exact .refl c
    · exact .startTx (.refl c) _ _
  | buildConnectionBindRequest connectionId =>
    exact ⟨c, .refl c, .refl _⟩
  | handleInbound data =>
    refine ⟨_, ?_, .refl _⟩
    cases data with
    | none =>
      unfold Client.call Client.handleInbound
      dsimp only
      split
      · exact .keep (.failAllocation _ _ _)
      · exact .refl c
    | some data =>
      refine handleInbound_cases (P := Changes env c) env c data (.refl c) ?_ ?_
      · intro e _ _ _
        exact .keep (.of_eq rfl)
      · intro m _ _ _
        exact .handleStunResponse env c m
  | tick =>
    have hpending := Goes.tickPending env hw c.pending.keys
    have htable := Extends.tickPending env c c.pending.keys
    unfold Client.call Client.tick
    dsimp only
    split
    · rename_i d heq
      rw [heq] at htable
      exact ⟨d, .keep htable, .refl _⟩
    · rename_i d heq
      rw [heq] at hpending htable
      obtain ⟨hrefreshed, hdropped⟩ := @tickBindings_table env d (hpending.wired hw)
      exact ⟨_, .keep (htable.trans hrefreshed), hdropped⟩

/-! ## Distinct numbers -/

/-- No two entries have the same number, 0 apart. -/
def Distinct (l : List (Bytes × UInt16)) : Prop := l.Pairwise fun x y => x.2 = y.2 → x.2 = 0

/-- Of nine random numbers that may be drawn for a channel, one is free. -/
def Lucky (env : ClientEnv) (c : Client) : Prop :=
  ∀ n, ∃ k < 9, ∀ b ∈ c.bindings, b.channel ≠ randomChannelNumber (env.random n k)

theorem pickChannel_free (h : ∃ k < 9, ∀ b ∈ c.bindings,
      b.channel ≠ randomChannelNumber (env.random c.drawn k)) {b : PeerBinding}
    (hb : b ∈ c.bindings.eraseP (samePeer peer)) : b.channel ≠ c.pickChannel env peer := by
  unfold pickChannel
  dsimp only
  cases hfind : ((List.range 8).map fun attempt =>
      randomChannelNumber (env.random c.drawn attempt)).find? _ with
  | some ch =>
    have hfree := List.find?_some hfind
    simp only [Bool.not_eq_true', List.any_eq_false, decide_eq_true_eq] at hfree
    exact hfree b hb
  | none =>
    -- the eight attempts are taken, so the free number is the ninth
    obtain ⟨k, hk, hfree⟩ := h
    have hlast : k = 8 := by
      by_contra hne
      have hmem : randomChannelNumber (env.random c.drawn k) ∈ (List.range 8).map fun attempt =>
          randomChannelNumber (env.random c.drawn attempt) :=
        List.mem_map.mpr ⟨k, List.mem_range.mpr (by omega), rfl⟩
      have htaken := List.find?_eq_none.mp hfind _ hmem
      simp only [Bool.not_eq_true', Bool.not_eq_false, List.any_eq_true, decide_eq_true_eq]
        at htaken
      obtain ⟨ob, hob, hch⟩ := htaken
      exact hfree ob (List.mem_of_mem_eraseP hob) hch
    rw [hlast] at hfree
    exact hfree b (List.mem_of_mem_eraseP hb)

theorem mem_chans_iff {k : Bytes} {ch : UInt16} :
    (k, ch) ∈ chans bs ↔ ∃ b ∈ bs, b.peer.key = k ∧ b.channel = ch := by
  simp [chans]

theorem Distinct.pick (h : Distinct (chans bs)) {ch : UInt16}
    (hfree : ∀ b ∈ bs.eraseP (samePeer peer), b.channel ≠ ch) :
    Distinct (chans (modifyBinding peer (fun b => { b with channel := ch }) bs)) := by
  induction bs with
  | nil => exact h
  | cons x xs ih =>
    obtain ⟨hhead, htail⟩ := List.pairwise_cons.mp h
    unfold modifyBinding
    split
    · rename_i hx
      rw [List.eraseP_cons_of_pos hx] at hfree
      refine .cons ?_ htail
      rintro ⟨k, ch'⟩ hmem hsame
      obtain ⟨b, hb, -, hch⟩ := mem_chans_iff.mp hmem
      exact absurd (hch.trans hsame.symm) (hfree b hb)
    · rename_i hx
      rw [List.eraseP_cons_of_neg hx] at hfree
      refine .cons ?_ (ih htail fun b hb => hfree b (List.mem_cons_of_mem x hb))
      rintro ⟨k, ch'⟩ hmem hsame
      obtain ⟨b, hb, hkey, hch⟩ := mem_chans_iff.mp hmem
      obtain hold | ⟨b₀, -, rfl⟩ := mem_modifyBinding_find hb
      · exact hhead _ (mem_chans_iff.mpr ⟨b, hold, hkey, hch⟩) hsame
      · exact absurd (hsame.trans hch.symm) (hfree x List.mem_cons_self)

theorem Distinct.extends (h : Distinct (chans c.bindings)) (hd : Extends c d) :
    Distinct (chans d.bindings) := by
  obtain ⟨keys, heq, -⟩ := hd
  rw [heq]
  refine List.pairwise_append.mpr ⟨h, ?_, ?_⟩
  · rw [List.pairwise_map]
    exact List.pairwise_iff_getElem.mpr fun _ _ _ _ _ _ => rfl
  · intro x _ y hy hsame
    obtain ⟨k, -, rfl⟩ := List.mem_map.mp hy
    exact hsame

theorem Lucky.extends (h : Lucky env c) (hd : Extends c d) : Lucky env d := by
  obtain ⟨keys, heq, -⟩ := hd
  intro n
  obtain ⟨k, hk, hfree⟩ := h n
  refine ⟨k, hk, fun b hb => ?_⟩
  have hmem : (b.peer.key, b.channel) ∈ chans d.bindings := mem_chans_iff.mpr ⟨b, hb, rfl, rfl⟩
  rw [heq] at hmem
  obtain hold | hnew := List.mem_append.mp hmem
  · obtain ⟨b₀, hb₀, -, hch⟩ := mem_chans_iff.mp hold
    rw [← hch]
    exact hfree b₀ hb₀
  · obtain ⟨_, -, hzero⟩ := List.mem_map.mp hnew
    have hch : b.channel = 0 := (congrArg Prod.snd hzero).symm
    rw [hch]
    exact (randomChannelNumber_ne_zero _).symm

theorem Changes.distinct (h : Changes env c d) (hl : Lucky env c)
    (hc : Distinct (chans c.bindings)) : Distinct (chans d.bindings) := by
  cases h with
  | keep h => exact hc.extends h
  | pick h _ _ hd =>
    rw [hd]
    exact (hc.extends h).pick fun b hb => pickChannel_free (hl.extends h _) hb

/-- A call leaves every number that is there. -/
theorem Changes.same (h : Changes env c d) (hn : (peerKeys c.bindings).Nodup) {k : Bytes}
    {ch ch' : UInt16} (hch : (k, ch) ∈ chans c.bindings) (hne : ch ≠ 0)
    (hch' : (k, ch') ∈ chans d.bindings) : ch' = ch := by
  have hunique : ∀ {l : List PeerBinding}, (peerKeys l).Nodup → (k, ch) ∈ chans l →
      (k, ch') ∈ chans l → ch' = ch := by
    intro l hl hmem hmem'
    rw [peerKeys_chans] at hl
    exact congrArg Prod.snd (List.inj_on_of_nodup_map hl hmem' hmem rfl)
  cases h with
  | keep h =>
    obtain ⟨keys, heq, hnodup⟩ := h
    refine hunique (hnodup hn) ?_ hch'
    rw [heq]
    exact List.mem_append_left _ hch
  | @pick mid _ peer b h hb hzero hd =>
    obtain ⟨keys, heq, hnodup⟩ := h
    have hmid : (k, ch) ∈ chans mid.bindings := by
      rw [heq]
      exact List.mem_append_left _ hch
    rw [hd] at hch'
    have hkeys : (peerKeys (modifyBinding peer
        (fun b => { b with channel := mid.pickChannel env peer }) mid.bindings)).Nodup :=
      nodup_modifyBinding (hnodup hn) fun _ => rfl
    refine hunique hkeys ?_ hch'
    obtain ⟨b₀, hb₀, hkey, hnumber⟩ := mem_chans_iff.mp hmid
    obtain hstays | ⟨hfind, -⟩ := modifyBinding_mem
      (f := fun b => { b with channel := mid.pickChannel env peer }) hb₀
    · exact mem_chans_iff.mpr ⟨b₀, hstays, hkey, hnumber⟩
    · cases hb.symm.trans hfind
      exact absurd (hnumber.symm.trans hzero) hne

end

/-! ## Runs -/

theorem Runs.of_guarded {g : Client → ClientEnv × Call → Prop} {c : Client}
    (h : Reach Fresh (Guarded g step) c) : Runs (fun _ _ => True) c := by
  induction h with
  | start h => exact .start h
  | next i _ hs ih => exact .next i ih ⟨trivial, hs.2⟩

theorem runs_distinct {c : Client}
    (h : Reach Fresh (Guarded (fun c i => Lucky i.1 c) step) c) : Distinct (chans c.bindings) := by
  induction h with
  | start h =>
    obtain ⟨cfg, hasSend, rfl⟩ := h
    exact .nil
  | @next s t i hs hstep ih =>
    obtain ⟨hlucky, rfl⟩ := hstep
    obtain ⟨mid, hchanges, hsub⟩ := call_table i.1 (Runs.of_guarded hs).wired i.2
    exact (hchanges.distinct hlucky ih).sublist hsub

theorem channelValid_of_unwrap {data payload : Bytes} {ch : UInt16}
    (h : unwrapChannelData data = some (ch, payload)) : channelValid ch = true := by
  unfold unwrapChannelData at h
  dsimp only at h
  split at h
  · cases h
  · split at h
    · cases h
    · rename_i hok
      split at h
      · cases h
      · split at h
        · cases h
        · simp only [Option.some.injEq, Prod.mk.injEq] at h
          rw [← h.1]
          simpa using hok

/-- While one of the numbers drawn for a channel is free each time, channel numbers are
distinct and valid and never change, and ChannelData is from the peer that has its number. -/
theorem channel_numbers_unique (c : Client)
    (h : Reach Fresh (Guarded (fun c i => Lucky i.1 c) step) c) :
    (c.bindings.Pairwise fun b b' => b.channel = b'.channel → b.channel = 0) ∧
    (∀ b ∈ c.bindings, b.channel ≠ 0 → 0x4000 ≤ b.channel ∧ b.channel ≤ 0x7FFF) ∧
    (∀ i, ∀ b ∈ c.bindings, b.channel ≠ 0 →
      ∀ b' ∈ (c.step i).bindings, samePeer b.peer b' = true → b'.channel = b.channel) ∧
    (∀ env data payload, ∀ b ∈ c.bindings, isChannelData data = true →
      unwrapChannelData data = some (b.channel, payload) →
      c.handleInbound env (some data) = c.effect (.onData b.peer payload)) := by
  have hruns := Runs.of_guarded h
  have hdistinct := runs_distinct h
  simp only [Distinct, chans, List.pairwise_map] at hdistinct
  have hvalid : ∀ b ∈ c.bindings, b.channel ≠ 0 → 0x4000 ≤ b.channel ∧ b.channel ≤ 0x7FFF := by
    intro b hb hne
    have hvalid := (hruns.chartered b hb hne).2
    simp only [channelValid, Bool.and_eq_true, decide_eq_true_eq] at hvalid
    exact hvalid
  refine ⟨hdistinct, hvalid, ?_, ?_⟩
  · intro i b hb hne b' hb' hsame
    obtain ⟨mid, hchanges, hsub⟩ := call_table i.1 hruns.wired i.2
    have hmem : (b.peer.key, b'.channel) ∈ chans (c.step i).bindings :=
      mem_chans_iff.mpr ⟨b', hb', samePeer_iff.mp hsame, rfl⟩
    exact hchanges.same hruns.wired.peers (mem_chans_iff.mpr ⟨b, hb, rfl, rfl⟩) hne
      (hsub.subset hmem)
  · intro env data payload b hb hdata hunwrap
    have hchannel := channelValid_of_unwrap hunwrap
    have hne : b.channel ≠ 0 := by
      intro hzero
      rw [hzero] at hchannel
      exact absurd hchannel (by decide)
    -- the first binding with the number is the only one
    have hfind : c.bindings.find? (fun x => x.channel = b.channel) = some b := by
      cases hfirst : c.bindings.find? (fun x => x.channel = b.channel) with
      | none => exact absurd (decide_eq_true rfl) (List.find?_eq_none.mp hfirst b hb)
      | some x =>
        have hx : x.channel = b.channel := by simpa using List.find?_some hfirst
        by_contra hother
        have hxb : x ≠ b := fun heq => hother (by rw [heq])
        have hsymm : Std.Symm fun a b : PeerBinding => a.channel = b.channel → a.channel = 0 :=
          ⟨fun _ _ h heq => heq.trans (h heq.symm)⟩
        exact hne (hx ▸ hdistinct.forall (List.mem_of_find?_eq_some hfirst) hb hxb hx)
    simp only [handleInbound, hdata, if_true, handleChannelData, hunwrap, hfind]

/-- Every random number is `r`. -/
def drawEnv (r : UInt32) : ClientEnv := { clientEnv 0 with random := fun _ _ => r }

theorem reach_of_draws {c d : Client} {l : List (UInt32 × Call)}
    (h : Reach Fresh (Guarded (fun c i => Lucky i.1 c) step) c)
    (hl : checkedRun (fun c i => c.bindings.all fun b => b.channel ≠ randomChannelNumber i.1)
      (fun c i => c.step (drawEnv i.1, i.2)) c l = some d) :
    Reach Fresh (Guarded (fun c i => Lucky i.1 c) step) d := by
  induction l generalizing c with
  | nil =>
    cases hl
    exact h
  | cons i l ih =>
    simp only [checkedRun] at hl
    split at hl
    · rename_i hfree
      simp only [List.all_eq_true, decide_eq_true_eq] at hfree
      exact ih (.next (drawEnv i.1, i.2) h ⟨fun _ => ⟨0, by decide, hfree⟩, rfl⟩) hl
    · cases hl

def peerB : AddrRecord := ⟨.v4 192 168 0 10, 6000, .dgram⟩

/-- Two peers are permitted, where `r` and `r'` are drawn for their channels. -/
def twoChannels (r r' : UInt32) : List (UInt32 × Call) :=
  (allocation.map fun i => (r, i.2)) ++
    [(r, .sendData peerA [1]), (r, .sendData peerB [2]),
      (r, .handleInbound (some (reply .createPermission .successResponse (numberedTid 1) []))),
      (r', .handleInbound (some (reply .createPermission .successResponse (numberedTid 2) [])))]

theorem channel_numbers_unique_two :
    ∃ c, checkedRun (fun c i => c.bindings.all fun b => b.channel ≠ randomChannelNumber i.1)
        (fun c i => c.step (drawEnv i.1, i.2)) smallClient (twoChannels 5 7) = some c ∧
      c.bindings.map (·.channel) = [0x4005, 0x4007] ∧
      c.bindings.Pairwise fun b b' => b.channel = b'.channel → b.channel = 0 := by
  have hrun : (checkedRun (fun c i => c.bindings.all fun b => b.channel ≠ randomChannelNumber i.1)
      (fun c i => c.step (drawEnv i.1, i.2)) smallClient (twoChannels 5 7)).map
        (fun c => c.bindings.map (·.channel)) = some [0x4005, 0x4007] := by
    decide +kernel
  obtain ⟨c, hc, hchannels⟩ := Option.map_eq_some_iff.mp hrun
  exact ⟨c, hc, hchannels, (channel_numbers_unique c (reach_of_draws (.start ⟨_, _, rfl⟩) hc)).1⟩

/-- A source that gives one number again and again has two peers share a channel. -/
theorem channel_number_shared :
    let c := (twoChannels 5 5).foldl (fun c i => c.step (drawEnv i.1, i.2)) smallClient
    Runs (fun _ _ => True) c ∧
      c.bindings.map (fun b => (b.peer, b.channel)) = [(peerA, 0x4005), (peerB, 0x4005)] := by
  refine ⟨?_, by decide +kernel⟩
  have hruns : ∀ (l : List (UInt32 × Call)) (c : Client), Runs (fun _ _ => True) c →
      Runs (fun _ _ => True) (l.foldl (fun c i => c.step (drawEnv i.1, i.2)) c) := by
    intro l
    induction l with
    | nil => exact fun _ h => h
    | cons i l ih => exact fun c h => ih _ (.next (drawEnv i.1, i.2) h ⟨trivial, rfl⟩)
  exact hruns _ _ (.start ⟨_, _, rfl⟩)

end Stice.Turn.Client
