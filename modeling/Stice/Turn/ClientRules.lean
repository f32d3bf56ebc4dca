import Stice.Lib.Store
import Stice.Turn.Client

/-! What a call of the TURN client can do. Most of a call only works on the bindings
and on transactions for a peer: that is `Frame`. What is left is a short list of
steps of the allocation itself, and `call_rule` proves a relation between the client
before and after any call from those steps. -/
namespace Stice.Turn
open Std Net Stun Lib

def TxKind.method : TxKind → Method
  | .allocate => .allocate
  | .refresh => .refresh
  | .createPermission _ => .createPermission
  | .channelBind _ => .channelBind
  | .connect _ => .connect

theorem TxKind.method_eq_refresh {kind : TxKind} : kind.method = .refresh ↔ kind = .refresh := by
  cases kind <;> simp [TxKind.method] <;> decide

/-- A CreatePermission or ChannelBind transaction. -/
def PendingTx.ForPeer (tx : PendingTx) : Prop :=
  (∃ peer, tx.kind = .createPermission peer ∨ tx.kind = .channelBind peer) ∧
    tx.request.method = tx.kind.method

end Stice.Turn

namespace Stice.Turn.Client
open Std Net Stun Lib

variable {α : Type} (env : ClientEnv) (c : Client) {l : List PeerBinding} (msg : Message)
  (m : Message) (peer : AddrRecord) {f : PeerBinding → PeerBinding}
variable {b : PeerBinding} {tx : PendingTx} {bs : List PeerBinding} {e : Call}

/-! ## Sending a request -/

@[simp] theorem encodeRequest_method : (c.encodeRequest m).method = m.method := by
  unfold encodeRequest
  cases c.creds with
  | none => rfl
  | some k => dsimp only; split <;> rfl

@[simp] theorem encodeRequest_attributes : (c.encodeRequest m).attributes = m.attributes := by
  unfold encodeRequest
  cases c.creds with
  | none => rfl
  | some k => dsimp only; split <;> rfl

theorem sendPrepared_eq :
    c.sendPrepared m = { c with out := c.out ++ if c.hasSend then [.send m] else [] } := by
  unfold sendPrepared effect
  by_cases h : c.hasSend
  · rw [if_pos h, if_pos h]
  · rw [if_neg h, if_neg h, List.append_nil]

/-- The request that `startTx` registers. -/
def txRequest (env : ClientEnv) (c : Client) (build : TransactionID → Message) : Message :=
  c.applyCredentials.encodeRequest (build (env.tid c.drawn))

theorem startTx_eq (kind : TxKind) (build : TransactionID → Message) :
    startTx env c kind build =
      { c with
        drawn := c.drawn + 1
        creds := c.applyCredentials.creds
        pending := c.pending.insert (env.tid c.drawn).1
          ⟨kind, env.now + turnRtoMs, 0, txRequest env c build⟩
        out := c.out ++ if c.hasSend then [.send (txRequest env c build)] else [] } := by
  unfold startTx prepareRequest
  dsimp only
  rw [sendPrepared_eq]
  rfl

@[simp] theorem txRequest_method (build : TransactionID → Message) :
    (txRequest env c build).method = (build (env.tid c.drawn)).method := by
  simp [txRequest]

/-- The requests of the client before they are encoded. -/
inductive Built : Message → Prop
  | allocate (tid : TransactionID) (proto : UInt8) :
      Built (addRequestedTransport (request .allocate tid) proto)
  | refresh (tid : TransactionID) (lt : UInt32) : Built (addLifetime (request .refresh tid) lt)
  | createPermission (tid : TransactionID) (peer : AddrRecord) :
      Built (writeXorAddress (request .createPermission tid) .xorPeerAddress peer tid)
  | channelBind (tid : TransactionID) (peer : AddrRecord) (channel : UInt16) :
      Built (addChannelNumber
        (writeXorAddress (request .channelBind tid) .xorPeerAddress peer tid) channel)
  | connect (tid : TransactionID) (peer : AddrRecord) :
      Built (writeXorAddress (request .connect tid) .xorPeerAddress peer tid)
  | connectionBind (tid : TransactionID) (connectionId : UInt32) :
      Built (addConnectionId (request .connectionBind tid) connectionId)

/-- The configuration and the credentials without the derived key. -/
def login (c : Client) : TurnConfig × Option (Bytes × Bytes × Bytes) :=
  (c.cfg, c.creds.map fun k => (k.username, k.realm, k.nonce))

theorem applyCredentials_login : c.applyCredentials.login = c.login := by
  unfold login applyCredentials
  cases c.creds with
  | none => rfl
  | some k =>
    by_cases h : k.username.isEmpty = true
    · simp only [Option.map_some, h, if_true]
    · simp only [Option.map_some, h, Bool.false_eq_true, if_false]

/-! ## Bindings -/

theorem mem_modifyBinding_find {peer : AddrRecord} {f : PeerBinding → PeerBinding}
    (h : b ∈ modifyBinding peer f bs) :
    b ∈ bs ∨ ∃ b₀, bs.find? (samePeer peer) = some b₀ ∧ b = f b₀ := by
  induction bs with
  | nil => cases h
  | cons x xs ih =>
    by_cases hx : samePeer peer x = true
    · rw [modifyBinding, if_pos hx] at h
      obtain rfl | h := List.mem_cons.mp h
      · exact .inr ⟨x, List.find?_cons_of_pos hx, rfl⟩
      · exact .inl (List.mem_cons_of_mem x h)
    · rw [modifyBinding, if_neg hx] at h
      obtain rfl | h := List.mem_cons.mp h
      · exact .inl List.mem_cons_self
      · obtain h | ⟨b₀, h, hb⟩ := ih h
        · exact .inl (List.mem_cons_of_mem x h)
        · exact .inr ⟨b₀, by rw [List.find?_cons_of_neg hx]; exact h, hb⟩

theorem mem_modifyBinding {peer : AddrRecord} {f : PeerBinding → PeerBinding} {l : List PeerBinding}
    (h : b ∈ modifyBinding peer f l) : b ∈ l ∨ ∃ b₀ ∈ l, b = f b₀ :=
  (mem_modifyBinding_find h).imp_right fun ⟨b₀, h₀, hb⟩ => ⟨b₀, List.mem_of_find?_eq_some h₀, hb⟩

/-- What the change of a binding leaves as it was stays the same over the whole list. -/
theorem map_modifyBinding {g : PeerBinding → α} {peer : AddrRecord} {f : PeerBinding → PeerBinding}
    (h : ∀ b, bs.find? (samePeer peer) = some b → g (f b) = g b) :
    (modifyBinding peer f bs).map g = bs.map g := by
  induction bs with
  | nil => rfl
  | cons x xs ih =>
    unfold modifyBinding
    by_cases hx : samePeer peer x = true
    · rw [if_pos hx, List.map_cons, List.map_cons, h x (List.find?_cons_of_pos hx)]
    · rw [if_neg hx, List.map_cons, List.map_cons, ih fun b hb => h b ?_]
      rw [List.find?_cons_of_neg hx]
      exact hb

theorem find?_modifyBinding (hf : ∀ b, (f b).peer = b.peer) (l : List PeerBinding) :
    (modifyBinding peer f l).find? (samePeer peer) = (l.find? (samePeer peer)).map f := by
  induction l with
  | nil => rfl
  | cons b bs ih =>
    unfold modifyBinding
    by_cases h : samePeer peer b
    · have hb : samePeer peer (f b) = true := by rw [samePeer, hf]; exact h
      rw [if_pos h, List.find?_cons_of_pos hb, List.find?_cons_of_pos h]
      rfl
    · rw [if_neg h, List.find?_cons_of_neg h, List.find?_cons_of_neg h, ih]

/-- An update of the peer's binding is seen through `getBinding`. -/
theorem modifyBinding_congr {peer : AddrRecord} {f g : PeerBinding → PeerBinding}
    (h : ∀ b, bs.find? (samePeer peer) = some b → f b = g b) :
    modifyBinding peer f bs = modifyBinding peer g bs := by
  induction bs with
  | nil => rfl
  | cons b bs ih =>
    unfold modifyBinding
    split
    · rename_i hb
      rw [h b (List.find?_cons_of_pos hb)]
    · rename_i hb
      rw [ih fun b' hb' => h b' (by rw [List.find?_cons_of_neg hb]; exact hb')]

theorem modifyBinding_modifyBinding {peer : AddrRecord} {f g : PeerBinding → PeerBinding}
    (hf : ∀ b, (f b).peer = b.peer) (bs : List PeerBinding) :
    modifyBinding peer g (modifyBinding peer f bs) = modifyBinding peer (fun b => g (f b)) bs := by
  induction bs with
  | nil => rfl
  | cons b bs ih =>
    by_cases hb : samePeer peer b = true
    · have hfb : samePeer peer (f b) = true := by
        unfold samePeer at hb ⊢
        rw [hf b]
        exact hb
      simp [modifyBinding, hb, hfb]
    · simp [modifyBinding, hb, ih]

theorem withBinding_found {c : Client} {peer : AddrRecord}
    (hb : c.bindings.find? (samePeer peer) = some b) : c.withBinding peer = c := by
  unfold withBinding
  rw [if_pos (List.any_eq_true.mpr ⟨b, List.mem_of_find?_eq_some hb, List.find?_some hb⟩)]

theorem getBinding_updateBinding (g : PeerBinding → α) (c : Client) (peer : AddrRecord)
    {f : PeerBinding → PeerBinding} (hf : ∀ b, (f b).peer = b.peer) (hg : ∀ b, g (f b) = g b) :
    g ((c.updateBinding peer f).getBinding peer) = g (c.getBinding peer) := by
  unfold getBinding updateBinding
  rw [find?_modifyBinding peer hf]
  cases c.bindings.find? (samePeer peer) with
  | none => rfl
  | some b => exact hg b

theorem getBinding_withBinding : (c.withBinding peer).getBinding peer = c.getBinding peer := by
  unfold withBinding
  split
  · rfl
  · rename_i h
    have hnone : c.bindings.find? (samePeer peer) = none := by simpa using h
    unfold getBinding
    rw [hnone, List.find?_append, hnone]
    have hself : samePeer peer (.new peer) = true := (AddrRecord.isEqual_iff_key peer peer).mpr rfl
    simp [hself]

theorem getBinding_mem_or : c.getBinding peer ∈ c.bindings ∨ c.getBinding peer = .new peer := by
  unfold getBinding
  cases h : c.bindings.find? (samePeer peer) with
  | none => exact .inr rfl
  | some b => exact .inl (List.mem_of_find?_eq_some h)

theorem getBinding_found {c : Client} {peer : AddrRecord}
    (hb : c.bindings.find? (samePeer peer) = some b) : c.getBinding peer = b := by
  rw [getBinding, hb]
  rfl

/-- What a binding says of its permission and its channel. -/
def grants (b : PeerBinding) : AddrRecord × Bool × Bool × Int × Int :=
  (b.peer, b.permissionPermitted, b.channelReady, b.permissionRefreshAt, b.channelRefreshAt)

/-! ## Application data -/

/-- What carries application data. -/
inductive IsData : Effect → Prop
  | frame (frame : Bytes) : IsData (.sendFrame frame)
  | indication (tid : TransactionID) (peer : AddrRecord) (data : Bytes) :
      IsData (.send (sendIndication tid peer data))

theorem flushPackets_eq (b : PeerBinding) (c : Client) (l : List Bytes) :
    ∃ sent n left, flushPackets env b c l = ({ c with out := c.out ++ sent, drawn := n }, left) ∧
      (∀ e ∈ sent, IsData e) ∧ c.drawn ≤ n := by
  have hnone (left : List Bytes) : ∃ sent n left',
      (c, left) = ({ c with out := c.out ++ sent, drawn := n }, left') ∧
        (∀ e ∈ sent, IsData e) ∧ c.drawn ≤ n :=
    ⟨[], c.drawn, left, by rw [List.append_nil], fun _ h => absurd h List.not_mem_nil,
      Nat.le_refl _⟩
  induction l generalizing c with
  | nil => exact hnone []
  | cons pkt rest ih =>
    -- one packet more, after which the loop stops or goes on
    have hmore {e : Effect} {n : Nat} (he : IsData e) (hn : c.drawn ≤ n) (fails : Prop)
        [Decidable fails] : ∃ sent n' left,
          (if fails then ({ c with out := c.out ++ [e], drawn := n }, pkt :: rest)
            else flushPackets env b { c with out := c.out ++ [e], drawn := n } rest) =
            ({ c with out := c.out ++ sent, drawn := n' }, left) ∧
          (∀ e ∈ sent, IsData e) ∧ c.drawn ≤ n' := by
      split
      · exact ⟨[e], n, _, rfl, by simpa using he, hn⟩
      · obtain ⟨sent, n', left, h, hsent, hn'⟩ := ih { c with out := c.out ++ [e], drawn := n }
          fun left => ⟨[], n, left, by simp, fun _ h => absurd h List.not_mem_nil, Nat.le_refl _⟩
        refine ⟨e :: sent, n', left, by rw [h]; simp, ?_, Nat.le_trans hn hn'⟩
        exact List.forall_mem_cons.mpr ⟨he, hsent⟩
    unfold flushPackets
    split
    · split
      · exact hnone _
      · exact hmore (.frame _) (Nat.le_refl _) _
    · exact hmore (.indication _ _ _) (Nat.le_succ _) _

theorem flushPendingData_eq (b : PeerBinding) :
    ∃ sent n left, c.flushPendingData env b =
      ({ c with out := c.out ++ sent, drawn := n }, { b with pendingData := left }) ∧
      (∀ e ∈ sent, IsData e) ∧ c.drawn ≤ n := by
  unfold flushPendingData
  split
  · obtain ⟨sent, n, left, h, hrest⟩ := flushPackets_eq env b c b.pendingData
    rw [h]
    exact ⟨sent, n, left, rfl, hrest⟩
  · refine ⟨[], c.drawn, b.pendingData, by rw [List.append_nil], ?_, Nat.le_refl _⟩
    exact fun _ h => absurd h List.not_mem_nil

/-- Only the buffers of the bindings change when they are drained. -/
theorem map_flushBindings {env : ClientEnv} {α : Type} {g : PeerBinding → α}
    (hg : ∀ b data, g { b with pendingData := data } = g b) (l : List PeerBinding) (c : Client) :
    (flushBindings env c l).2.map g = l.map g := by
  induction l generalizing c with
  | nil => rfl
  | cons b bs ih =>
    obtain ⟨sent, n, left, heq, -⟩ := flushPendingData_eq env c b
    unfold Client.flushBindings
    by_cases hperm : b.permissionPermitted = true
    · rw [if_pos hperm, heq]
      dsimp only
      rw [List.map_cons, List.map_cons, hg, ih]
    · rw [if_neg hperm]
      dsimp only
      rw [List.map_cons, List.map_cons, ih]

/-! ## What is done for a peer -/

/-- A relation that allows what the client does for a peer without the server granting
anything: bindings are added, their flags and buffers change, requests for the peer are
started and data is handed over. -/
structure Peerwise (env : ClientEnv) (R : Client → Client → Prop) : Prop where
  refl : ∀ c, R c c
  trans : ∀ {a b c : Client}, R a b → R b c → R a c
  bind : ∀ (c : Client) peer, R c (c.withBinding peer)
  flags : ∀ (c : Client) bs, bs.map grants = c.bindings.map grants → R c { c with bindings := bs }
  permission : ∀ (c : Client) peer, R c (startTx env c (.createPermission peer) fun tid =>
    writeXorAddress (request .createPermission tid) .xorPeerAddress peer tid)
  channel : ∀ (c : Client) peer channel, R c (startTx env c (.channelBind peer) fun tid =>
    addChannelNumber (writeXorAddress (request .channelBind tid) .xorPeerAddress peer tid) channel)
  hand : ∀ (c : Client) sent n, (∀ e ∈ sent, IsData e) → c.drawn ≤ n →
    R c { c with out := c.out ++ sent, drawn := n }

/-- What the requests of `refreshBinding` keep, it keeps. -/
theorem refreshBinding_rule {env : ClientEnv} {c : Client} {P : Client → Prop} (h : P c)
    (hpermission : ∀ c, P c → P (c.sendCreatePermission env b.peer))
    (hchannel : b.channelReady = true → ∀ c, P c → P (c.sendChannelBind env b.peer)) :
    P (refreshBinding env c b) := by
  unfold refreshBinding
  dsimp only
  have hp : P (if b.permissionPermitted ∧ b.permissionRefreshAt ≤ env.now
      then c.sendCreatePermission env b.peer else c) := by
    split
    · exact hpermission c h
    · exact h
  split
  · rename_i hready
    exact hchannel hready.1 _ hp
  · exact hp

section
variable {env : ClientEnv} {R : Client → Client → Prop} (hR : Peerwise env R) {c d : Client}
include hR

theorem Peerwise.updateBinding (c : Client) {peer : AddrRecord} {f : PeerBinding → PeerBinding}
    (h : ∀ b, c.bindings.find? (samePeer peer) = some b → grants (f b) = grants b) :
    R c (c.updateBinding peer f) := hR.flags c _ (map_modifyBinding h)

theorem Peerwise.updated (h : R c d) {peer : AddrRecord} {f : PeerBinding → PeerBinding}
    (hf : ∀ b, grants (f b) = grants b) : R c (d.updateBinding peer f) :=
  hR.trans h (hR.updateBinding d fun b _ => hf b)

theorem Peerwise.sendCreatePermission (c : Client) (peer : AddrRecord) :
    R c (c.sendCreatePermission env peer) := by
  unfold Client.sendCreatePermission
  dsimp only
  split
  · exact hR.bind c peer
  · refine hR.trans ?_ (hR.permission _ peer)
    exact hR.updated (hR.bind c peer) fun _ => rfl

theorem Peerwise.sendChannelBind (c : Client) (peer : AddrRecord) :
    R c (c.sendChannelBind env peer) := by
  unfold Client.sendChannelBind
  dsimp only
  split
  · exact hR.bind c peer
  · refine hR.trans ?_ (hR.channel _ peer _)
    exact hR.updated (hR.bind c peer) fun _ => rfl

theorem Peerwise.flushPendingData (c : Client) (b : PeerBinding) :
    R c (c.flushPendingData env b).1 := by
  obtain ⟨sent, n, left, heq, hsent, hn⟩ := flushPendingData_eq env c b
  rw [heq]
  exact hR.hand c sent n hsent hn

/-- What is buffered for the peer is handed over, and its channel is asked for. -/
theorem Peerwise.flush (c : Client) (peer : AddrRecord) :
    R c (let r := c.flushPendingData env (c.getBinding peer)
      let d := r.1.updateBinding peer fun _ => r.2
      if r.2.channel = 0 then d.sendChannelBind env peer else d) := by
  obtain ⟨sent, n, left, heq, hsent, hn⟩ := flushPendingData_eq env c (c.getBinding peer)
  have hback : R c ({ c with out := c.out ++ sent, drawn := n }.updateBinding peer fun _ =>
      { c.getBinding peer with pendingData := left }) := by
    refine hR.trans (hR.hand c sent n hsent hn) (hR.updateBinding _ fun b hb => ?_)
    rw [getBinding_found (c := c) hb]
    rfl
  rw [heq]
  dsimp only
  split
  · exact hR.trans hback (hR.sendChannelBind _ peer)
  · exact hback

theorem Peerwise.sendData (c : Client) (peer : AddrRecord) (data : Bytes) :
    R c (c.sendData env peer data).2 := by
  unfold Client.sendData
  dsimp only
  split
  · exact hR.refl c
  · refine hR.trans (hR.bind c peer) ?_
    generalize c.withBinding peer = d
    split
    · refine hR.updated ?_ fun _ => rfl
      split
      · exact hR.refl d
      · exact hR.sendCreatePermission d peer
    · split
      · split
        · exact hR.refl d
        · rename_i frame _
          split
          · exact hR.hand d [.sendFrame frame] d.drawn (by simpa using .frame frame) (Nat.le_refl _)
          · exact hR.refl d
      · split
        · exact hR.refl d
        · have hsent : R d ({ d with drawn := d.drawn + 1 }.sendPrepared
              (sendIndication (env.tid d.drawn) peer data)) := by
            rw [sendPrepared_eq]
            refine hR.hand d _ _ (fun e he => ?_) (Nat.le_succ _)
            split at he
            · rw [List.mem_singleton.mp he]
              exact .indication _ _ _
            · cases he
          dsimp only
          split
          · exact hR.trans hsent (hR.sendChannelBind _ peer)
          · exact hsent

theorem Peerwise.refreshBinding (c : Client) (b : PeerBinding) : R c (refreshBinding env c b) :=
  refreshBinding_rule (hR.refl c) (fun _ h => hR.trans h (hR.sendCreatePermission _ _))
    fun _ _ h => hR.trans h (hR.sendChannelBind _ _)

theorem Peerwise.foldl_refreshBinding (l : List PeerBinding) (c : Client) :
    R c (l.foldl (Client.refreshBinding env) c) := by
  induction l generalizing c with
  | nil => exact hR.refl c
  | cons b l ih => exact hR.trans (hR.refreshBinding c b) (ih _)

theorem Peerwise.flushBindings (l : List PeerBinding) (c : Client) :
    R c (flushBindings env c l).1 ∧ (flushBindings env c l).1.bindings = c.bindings := by
  induction l generalizing c with
  | nil => exact ⟨hR.refl c, rfl⟩
  | cons b bs ih =>
    unfold Client.flushBindings
    dsimp only
    split
    · have hflush := hR.flushPendingData c b
      obtain ⟨sent, n, left, heq, -⟩ := flushPendingData_eq env c b
      rw [heq] at hflush ⊢
      obtain ⟨hrest, hbindings⟩ := ih { c with out := c.out ++ sent, drawn := n }
      exact ⟨hR.trans hflush hrest, hbindings⟩
    · exact ih c

theorem Peerwise.tickLoops (c : Client)
    (hcollect : ∀ d : Client, R d { d with bindings := d.bindings.filter fun b => !stale env b }) :
    R c (c.tickLoops env) := by
  unfold Client.tickLoops
  have hrefresh := hR.foldl_refreshBinding c.bindings c
  generalize c.bindings.foldl (Client.refreshBinding env) c = d at hrefresh ⊢
  obtain ⟨hflush, hbindings⟩ := hR.flushBindings d.bindings d
  refine hR.trans hrefresh (hR.trans hflush ?_)
  have hback := hR.flags (Client.flushBindings env d d.bindings).1
    (Client.flushBindings env d d.bindings).2
    (by rw [map_flushBindings fun _ _ => rfl, hbindings])
  exact hR.trans hback (hcollect _)

end

/-! ## Frames -/

/-- What a call hands to the sink besides its verdict on the allocation: nothing that
is not a request for a peer, application data or a transaction sent again. -/
def Minor (c : Client) : Effect → Prop
  | .send m => m.method = .createPermission ∨ m.method = .channelBind ∨ m.method = .send ∨
      ∃ (k : Bytes) (tx : PendingTx), c.pending[k]? = some tx ∧ tx.request = m
  | .onAllocated .. | .onFailed .. => False
  | _ => True

/-- From `c` to `c'` only bindings, credentials, timers and transactions for a peer
have changed, and transactions have ended. -/
structure Frame (c c' : Client) : Prop where
  state : c'.state = c.state
  failedEmitted : c'.failedEmitted = c.failedEmitted
  pending : ∀ (k : Bytes) (tx' : PendingTx), c'.pending[k]? = some tx' →
    (∃ tx : PendingTx, c.pending[k]? = some tx ∧ tx'.kind = tx.kind ∧ tx'.request = tx.request) ∨
      tx'.ForPeer
  out : ∃ later, c'.out = c.out ++ later ∧ ∀ e ∈ later, c.Minor e

theorem Frame.trans {a b c : Client} (hab : Frame a b) (hbc : Frame b c) : Frame a c := by
  refine ⟨hbc.state.trans hab.state, hbc.failedEmitted.trans hab.failedEmitted, ?_, ?_⟩
  · intro k tx h
    obtain ⟨tx₁, h₁, hk, hr⟩ | h₁ := hbc.pending k tx h
    · obtain ⟨tx₀, h₀, hk₀, hr₀⟩ | hp := hab.pending k tx₁ h₁
      · exact .inl ⟨tx₀, h₀, hk.trans hk₀, hr.trans hr₀⟩
      · exact .inr (by rw [PendingTx.ForPeer, hk, hr]; exact hp)
    · exact .inr h₁
  · obtain ⟨l₁, h₁, hm₁⟩ := hab.out
    obtain ⟨l₂, h₂, hm₂⟩ := hbc.out
    refine ⟨l₁ ++ l₂, by rw [h₂, h₁, List.append_assoc], fun e he => ?_⟩
    obtain he | he := List.mem_append.mp he
    · exact hm₁ e he
    · have hm := hm₂ e he
      cases e with
      | send m =>
        obtain h | h | h | ⟨k, tx, htx, hr⟩ := hm
        · exact .inl h
        · exact .inr (.inl h)
        · exact .inr (.inr (.inl h))
        · -- a request sent again was registered before, or is one for a peer
          obtain ⟨tx₀, h₀, -, hr₀⟩ | ⟨⟨peer, hk⟩, hmethod⟩ := hab.pending k tx htx
          · exact .inr (.inr (.inr ⟨k, tx₀, h₀, hr₀.symm.trans hr⟩))
          · rw [hr] at hmethod
            obtain hk | hk := hk <;> rw [hk] at hmethod
            · exact .inl hmethod
            · exact .inr (.inl hmethod)
      | _ => exact hm

/-- Fields that a frame says nothing about. -/
theorem Frame.of_eq {c c' : Client} (hstate : c'.state = c.state)
    (hfailed : c'.failedEmitted = c.failedEmitted)
    (hpending : ∀ (k : Bytes) (tx : PendingTx), c'.pending[k]? = some tx → c.pending[k]? = some tx)
    (hout : c'.out = c.out) : Frame c c' where
  state := hstate
  failedEmitted := hfailed
  pending k tx h := .inl ⟨tx, hpending k tx h, rfl, rfl⟩
  out := ⟨[], by rw [hout, List.append_nil], fun _ h => nomatch h⟩

theorem Frame.refl : Frame c c := .of_eq rfl rfl (fun _ _ h => h) rfl

theorem Frame.effect {e : Effect} (h : c.Minor e) : Frame c (c.effect e) where
  state := rfl
  failedEmitted := rfl
  pending _ tx h := .inl ⟨tx, h, rfl, rfl⟩
  out := ⟨[e], rfl, by simpa using h⟩

theorem Frame.startTx {kind : TxKind} {build : TransactionID → Message}
    (hkind : kind = .createPermission peer ∨ kind = .channelBind peer)
    (hmethod : ∀ tid, (build tid).method = kind.method) : Frame c (startTx env c kind build) := by
  rw [startTx_eq]
  refine ⟨rfl, rfl, fun k tx h => ?_, ?_⟩
  · obtain ⟨-, rfl⟩ | ⟨-, h⟩ := getElem?_insert_some h
    · exact .inr ⟨⟨peer, hkind⟩, by simp [hmethod]⟩
    · exact .inl ⟨tx, h, rfl, rfl⟩
  · refine ⟨_, rfl, fun e he => ?_⟩
    split at he
    · rw [List.mem_singleton.mp he]
      obtain rfl | rfl := hkind
      · exact .inl (by simp [hmethod, TxKind.method])
      · exact .inr (.inl (by simp [hmethod, TxKind.method]))
    · cases he

theorem peerwise_frame : Peerwise env Frame where
  refl := .refl
  trans := .trans
  bind c peer := by
    unfold Client.withBinding
    split
    · exact .refl c
    · exact .of_eq rfl rfl (fun _ _ h => h) rfl
  flags _ _ _ := .of_eq rfl rfl (fun _ _ h => h) rfl
  permission c peer := .startTx env c peer (.inl rfl) fun _ => rfl
  channel c peer _ := .startTx env c peer (.inr rfl) fun _ => rfl
  hand c sent n hsent _ := by
    refine ⟨rfl, rfl, fun _ tx h => .inl ⟨tx, h, rfl, rfl⟩, sent, rfl, fun e he => ?_⟩
    cases hsent e he with
    | frame => trivial
    | indication => exact .inr (.inr (.inl rfl))

/-! ## Before the allocation -/

/-- Nothing but the Allocate request and permissions is under way. -/
structure Early (c : Client) : Prop where
  pending : ∀ (k : Bytes) (tx : PendingTx), c.pending[k]? = some tx →
    tx.kind = .allocate ∨ ∃ peer, tx.kind = .createPermission peer
  bindings : ∀ b ∈ c.bindings, b.channelReady = false ∧ b.pendingData = []

/-- A frame that keeps a client without allocation so. -/
structure Calm (c c' : Client) : Prop extends Frame c c' where
  early : c.state = .idle ∨ c.state = .allocating → c.Early → c'.Early

theorem Calm.trans {a b c : Client} (hab : Calm a b) (hbc : Calm b c) : Calm a c :=
  ⟨hab.toFrame.trans hbc.toFrame, fun hs h =>
    hbc.early (by rw [hab.state]; exact hs) (hab.early hs h)⟩

theorem Calm.refl : Calm c c := ⟨.refl c, fun _ h => h⟩

/-- Fields that neither a frame nor `Early` reads. -/
theorem Calm.of_eq {c c' : Client} (hstate : c'.state = c.state)
    (hfailed : c'.failedEmitted = c.failedEmitted)
    (hpending : ∀ (k : Bytes) (tx : PendingTx), c'.pending[k]? = some tx → c.pending[k]? = some tx)
    (hbindings : c'.bindings = c.bindings) (hout : c'.out = c.out) : Calm c c' :=
  ⟨.of_eq hstate hfailed hpending hout, fun _ h =>
    ⟨fun k tx hk => h.pending k tx (hpending k tx hk), by rw [hbindings]; exact h.bindings⟩⟩

theorem Calm.erase (key : Bytes) : Calm c { c with pending := c.pending.erase key } :=
  .of_eq rfl rfl (fun _ _ h => (getElem?_erase_some h).2) rfl rfl

theorem Calm.effect {e : Effect} (h : c.Minor e) : Calm c (c.effect e) :=
  ⟨.effect c h, fun _ h => ⟨h.pending, h.bindings⟩⟩

/-- A client that has an allocation has nothing to keep. -/
theorem Calm.of_frame {c c' : Client} (h : Frame c c')
    (hc : ¬ ((c.state = .idle ∨ c.state = .allocating) ∧ c.Early)) : Calm c c' :=
  ⟨h, fun hs he => absurd ⟨hs, he⟩ hc⟩

theorem Frame.updateBinding (f : PeerBinding → PeerBinding) : Frame c (c.updateBinding peer f) :=
  .of_eq rfl rfl (fun _ _ h => h) rfl

theorem Calm.updateBinding (hf : ∀ b, b.channelReady = false ∧ b.pendingData = [] →
      (f b).channelReady = false ∧ (f b).pendingData = []) : Calm c (c.updateBinding peer f) := by
  refine ⟨.updateBinding c peer f, fun _ h => ⟨h.pending, fun b hb => ?_⟩⟩
  obtain hb | ⟨b₀, hb₀, rfl⟩ := mem_modifyBinding hb
  · exact h.bindings b hb
  · exact hf b₀ (h.bindings b₀ hb₀)

theorem Calm.withBinding : Calm c (c.withBinding peer) := by
  unfold Client.withBinding
  split
  · exact .refl c
  · refine ⟨.of_eq rfl rfl (fun _ _ h => h) rfl, fun _ h => ⟨h.pending, fun b hb => ?_⟩⟩
    obtain hb | hb := List.mem_append.mp hb
    · exact h.bindings b hb
    · rw [List.mem_singleton.mp hb]
      exact ⟨rfl, rfl⟩

theorem Calm.startTx
    {build : TransactionID → Message} (hmethod : ∀ tid, (build tid).method = .createPermission) :
    Calm c (startTx env c (.createPermission peer) build) := by
  refine ⟨.startTx env c peer (.inl rfl) hmethod, fun _ h => ?_⟩
  rw [startTx_eq]
  refine ⟨fun k tx hk => ?_, h.bindings⟩
  obtain ⟨-, rfl⟩ | ⟨-, hk⟩ := getElem?_insert_some hk
  · exact .inr ⟨peer, rfl⟩
  · exact h.pending k tx hk

theorem Calm.sendCreatePermission : Calm c (c.sendCreatePermission env peer) := by
  unfold Client.sendCreatePermission
  dsimp only
  split
  · exact .withBinding c peer
  · refine ((Calm.withBinding c peer).trans (.updateBinding _ _ ?_)).trans
      (.startTx env _ peer ?_)
    · exact fun _ h => h
    · exact fun _ => rfl

theorem Early.getBinding {c : Client} (h : c.Early) (peer : AddrRecord) :
    (c.getBinding peer).channelReady = false ∧ (c.getBinding peer).pendingData = [] := by
  obtain hb | hb := getBinding_mem_or c peer
  · exact h.bindings _ hb
  · rw [hb]
    exact ⟨rfl, rfl⟩

/-- The fields `handleAuthError` changes. -/
def withAuth (c : Client) (creds : Option Credentials) (nonceRetries : Nat) : Client :=
  { c with creds := creds, nonceRetries := nonceRetries }

theorem Calm.withAuth (creds : Option Credentials) (n : Nat) : Calm c (c.withAuth creds n) :=
  .of_eq rfl rfl (fun _ _ h => h) rfl rfl

theorem Calm.permit : Calm c (c.permit env peer) := by
  have h₀ : Calm c { c with nonceRetries := 0 } := .withAuth c c.creds 0
  have h : Calm c ({ c with nonceRetries := 0 }.updateBinding peer fun b =>
      { b with permissionPermitted := true, permissionRefreshAt := env.now + 120000 }) :=
    h₀.trans (.updateBinding _ peer fun _ h => h)
  refine h.trans ?_
  unfold Client.permit
  generalize Client.updateBinding _ peer _ = d
  dsimp only
  split
  · exact .refl d
  · rename_i hdata
    -- with data buffered for the peer the client is past its allocation
    refine .of_frame ((peerwise_frame env).flush d peer) fun h => hdata ?_
    rw [(h.2.getBinding peer).2]
    rfl

theorem handleAuthError_eq (code : Nat) (retryAuthed : Bool) :
    ∃ creds n, (c.handleAuthError msg code retryAuthed).2 = c.withAuth creds n ∧
      (creds = c.creds ∨ code = 401 ∨ code = 438) := by
  unfold handleAuthError
  dsimp only
  split
  · rename_i hcode
    split
    · exact ⟨c.creds, c.nonceRetries, rfl, .inl rfl⟩
    · split <;> exact ⟨_, _, rfl, .inr (.inl hcode)⟩
  · split
    · rename_i hcode
      split <;> exact ⟨_, _, rfl, .inr (.inr hcode)⟩
    · exact ⟨c.creds, c.nonceRetries, rfl, .inl rfl⟩

/-- A retry after 401 or 438, or what the caller does instead. -/
theorem handleAuthError_cases {P : Client → Prop} {c : Client} {msg : Message} {code : Nat}
    {retryAuthed : Bool} {f g : Client → Client}
    (hretry : ∀ creds n, (code = 401 ∨ code = 438) → P (f (c.withAuth creds n)))
    (hgive : ∀ creds n, (creds = c.creds ∨ code = 401 ∨ code = 438) → P (g (c.withAuth creds n))) :
    P (match c.handleAuthError msg code retryAuthed with
      | (true, c) => f c
      | (false, c) => g c) := by
  obtain ⟨creds, n, hd, hcreds⟩ := handleAuthError_eq c msg code retryAuthed
  split
  · rename_i d heq
    rw [heq] at hd
    subst hd
    refine hretry creds n ?_
    unfold handleAuthError at heq
    by_cases h₁ : code = 401
    · exact .inl h₁
    · by_cases h₂ : code = 438
      · exact .inr h₂
      · simp [h₁, h₂] at heq
  · rename_i d heq
    rw [heq] at hd
    subst hd
    exact hgive creds n hcreds

theorem Calm.handleCreatePermissionResponse (isError : Bool) (peer : AddrRecord) :
    Calm c (c.handleCreatePermissionResponse env msg isError peer) := by
  refine (Calm.withBinding c peer).trans ?_
  unfold Client.handleCreatePermissionResponse
  dsimp only
  split
  · exact .permit env _ peer
  · refine handleAuthError_cases (fun creds n _ => ?_) (fun creds n _ => ?_)
    · refine ((Calm.withAuth _ creds n).trans (.updateBinding _ peer ?_)).trans
        (.sendCreatePermission env _ peer)
      exact fun _ h => h
    · exact (Calm.withAuth _ creds n).trans (.updateBinding _ peer fun _ h => ⟨h.1, rfl⟩)

theorem Calm.handleConnectResponse (isError : Bool)
    (peer : AddrRecord) : Calm c (c.handleConnectResponse msg isError peer) := by
  unfold Client.handleConnectResponse
  split
  · exact .effect c trivial
  · split
    · exact .refl c
    · exact .effect c trivial

/-! ## The timer -/

theorem rtxInterval_pos (retries : Nat) : 0 < rtxInterval retries := by
  have hpow : 0 < (2 : Int) ^ retries := Int.pow_pos (by decide)
  simp only [rtxInterval, turnRtoMs, turnMaxRtxIntervalMs]
  omega

/-- The transaction after it was sent again. -/
def advance (env : ClientEnv) (tx : PendingTx) : PendingTx :=
  { tx with
    retries := tx.retries + 1
    nextRetransmitAt := env.now + rtxInterval (tx.retries + 1) }

/-- What sending it again hands to the sink. -/
def resent (c : Client) (tx : PendingTx) : List Effect :=
  if c.hasSend = true ∧ c.cfg.transport = .udp ∧ tx.request.raw ≠ [] then [.send tx.request] else []

/-- The transaction is not due, or it has used up its retransmissions, or it is sent
again. -/
theorem tickTx_cases (key : Bytes) :
    (c.tickTx env key = (false, c) ∧
      ∀ tx : PendingTx, c.pending[key]? = some tx → env.now < tx.nextRetransmitAt) ∨
    ∃ tx : PendingTx, c.pending[key]? = some tx ∧ tx.nextRetransmitAt ≤ env.now ∧
      (turnMaxRtxCount ≤ tx.retries ∧
          c.tickTx env key = { c with pending := c.pending.erase key }.timeoutTx tx.kind ∨
        tx.retries < turnMaxRtxCount ∧
          c.tickTx env key = (false, { c with
            pending := c.pending.insert key (advance env tx)
            out := c.out ++ c.resent tx })) := by
  unfold tickTx
  cases hp : c.pending[key]? with
  | none => exact .inl ⟨rfl, fun _ h => nomatch h⟩
  | some tx =>
    by_cases hnow : env.now < tx.nextRetransmitAt
    · refine .inl ⟨if_pos hnow, fun tx' h => ?_⟩
      cases h
      exact hnow
    · refine .inr ⟨tx, rfl, Int.not_lt.mp hnow, ?_⟩
      dsimp only
      rw [if_neg hnow]
      by_cases hretries : turnMaxRtxCount ≤ tx.retries
      · exact .inl ⟨hretries, if_pos hretries⟩
      · refine .inr ⟨Nat.lt_of_not_le hretries, ?_⟩
        rw [if_neg hretries]
        by_cases hudp : c.cfg.transport = .udp ∧ tx.request.raw ≠ []
        · rw [if_pos (by simpa using hudp), sendPrepared_eq]
          simp [resent, hudp, advance]
        · rw [if_neg (by simpa using hudp)]
          simp [resent, advance, hudp]

section
variable {env : ClientEnv} {R : Client → Client → Prop}
  (htrans : ∀ {a b c : Client}, R a b → R b c → R a c)
include htrans

theorem tickPending_rule (hrefl : ∀ c, R c c) (htx : ∀ c key, R c (c.tickTx env key).2) (c : Client)
    (keys : List Bytes) : R c (c.tickPending env keys).2 := by
  induction keys generalizing c with
  | nil => exact hrefl c
  | cons key rest ih =>
    have h := htx c key
    unfold Client.tickPending
    split
    · rename_i d hd
      rw [hd] at h
      exact h
    · rename_i d hd
      rw [hd] at h
      exact htrans h (ih d)

theorem tick_rule {c : Client} (hpending : R c (c.tickPending env c.pending.keys).2)
    (hbindings : ∀ d : Client, R d (d.tickBindings env)) : R c (c.tick env).2 := by
  unfold Client.tick
  split
  · rename_i d hd
    rw [hd] at hpending
    exact hpending
  · rename_i d hd
    rw [hd] at hpending
    exact htrans hpending (hbindings d)

end

theorem Calm.timeoutTx {kind : TxKind} (hkind : (c.timeoutTx kind).1 = false) :
    Calm c (c.timeoutTx kind).2 := by
  cases kind with
  | allocate => cases hkind
  | refresh => cases hkind
  | createPermission peer => exact .updateBinding c peer fun _ h => ⟨h.1, rfl⟩
  | channelBind peer =>
    refine .updateBinding c peer fun b h => ⟨h.1, ?_⟩
    dsimp only
    rw [h.2, ite_self]
  | connect peer => exact .refl c

/-- A transaction sent again keeps its place in the map. -/
theorem Calm.insert {c : Client} {key : Bytes} {tx tx' : PendingTx} (h : c.pending[key]? = some tx)
    (hkind : tx'.kind = tx.kind) (hrequest : tx'.request = tx.request) :
    Calm c { c with pending := c.pending.insert key tx' } := by
  refine ⟨⟨rfl, rfl, fun k t ht => .inl ?_, [], (List.append_nil _).symm, fun _ h => nomatch h⟩,
    fun _ he => ⟨fun k t ht => ?_, he.bindings⟩⟩
  · obtain ⟨rfl, rfl⟩ | ⟨-, ht⟩ := getElem?_insert_some ht
    · exact ⟨tx, h, hkind, hrequest⟩
    · exact ⟨t, ht, rfl, rfl⟩
  · obtain ⟨rfl, rfl⟩ | ⟨-, ht⟩ := getElem?_insert_some ht
    · rw [hkind]
      exact he.pending k tx h
    · exact he.pending k t ht

/-- Without a channel the loop only refreshes permissions. -/
theorem Calm.foldl_refreshBinding (hl : ∀ b ∈ l, b.channelReady = false) (c : Client) :
    Calm c (l.foldl (refreshBinding env) c) := by
  induction l generalizing c with
  | nil => exact .refl c
  | cons b bs ih =>
    have h : Calm c (refreshBinding env c b) := by
      unfold refreshBinding
      simp only [hl b List.mem_cons_self, Bool.false_eq_true, false_and, if_false]
      split
      · exact .sendCreatePermission env c b.peer
      · exact .refl c
    exact h.trans (ih (fun b hb => hl b (List.mem_cons_of_mem _ hb)) _)

theorem flushPendingData_nil (h : b.pendingData = []) : c.flushPendingData env b = (c, b) := by
  obtain ⟨_, _, _, _, _, _, _, _, data⟩ := b
  cases h
  unfold Client.flushPendingData
  split <;> rfl

theorem flushBindings_nil (h : ∀ b ∈ l, b.permissionPermitted = true → b.pendingData = []) :
    flushBindings env c l = (c, l) := by
  induction l with
  | nil => rfl
  | cons b bs ih =>
    have hb : (if b.permissionPermitted = true then c.flushPendingData env b else (c, b)) =
      (c, b) := by
      split
      · rename_i hp
        exact flushPendingData_nil env c (h b List.mem_cons_self hp)
      · rfl
    unfold Client.flushBindings
    rw [hb]
    dsimp only
    rw [ih fun b hb => h b (List.mem_cons_of_mem _ hb)]

theorem Calm.tickLoops : Calm c (c.tickLoops env) := by
  refine ⟨(peerwise_frame env).tickLoops c fun d => .of_eq rfl rfl (fun _ _ h => h) rfl,
    fun hs h => ?_⟩
  have he := (Calm.foldl_refreshBinding env (fun b hb => (h.bindings b hb).1) c).early hs h
  unfold Client.tickLoops
  dsimp only
  rw [flushBindings_nil env _ fun b hb _ => (he.bindings b hb).2]
  exact ⟨he.pending, fun b hb => he.bindings b (List.mem_filter.mp hb).1⟩

/-! ## The rule -/

/-- The steps of the allocation that a relation between the client before and after
has to allow, whatever the server answers. -/
structure Steps (R : Client → Client → Prop) : Prop where
  trans : ∀ {a b c : Client}, R a b → R b c → R a c
  calm : ∀ {a b : Client}, Calm a b → R a b
  fail : ∀ (c : Client) code reason, R c (c.failAllocation code reason)
  allocate : ∀ env (c : Client), c.state = .idle → R c (c.allocate env)
  refresh : ∀ env (c : Client) lt, c.state = .allocated → R c (c.sendRefresh env lt)
  deallocate : ∀ env (c : Client), c.state = .allocated → R c (c.deallocate env)
  connect : ∀ env (c : Client) peer, c.state = .allocated → R c (c.sendConnect env peer)

/-- The response a call brings in, with the transaction it answers. -/
def responseOf (c : Client) : Call → Option (Message × PendingTx)
  | .handleInbound (some data) =>
      if isChannelData data then none
      else (decode data).bind fun m =>
        if m.cls = .successResponse ∨ m.cls = .errorResponse
        then c.pending[m.transactionID.1]?.map fun tx => (m, tx) else none
  | _ => none

theorem responseOf_eq {c : Client} {data : Bytes} {m : Message} (hdata : isChannelData data = false)
    (hm : decode data = some m) (hcls : m.cls = .successResponse ∨ m.cls = .errorResponse)
    (htx : c.pending[m.transactionID.1]? = some tx) :
    c.responseOf (.handleInbound (some data)) = some (m, tx) := by
  simp [responseOf, hdata, hm, hcls, htx]

theorem responseOf_some {c : Client} {m : Message} (h : c.responseOf e = some (m, tx)) :
    ∃ data, e = .handleInbound (some data) ∧ isChannelData data = false ∧ decode data = some m ∧
      (m.cls = .successResponse ∨ m.cls = .errorResponse) ∧
      c.pending[m.transactionID.1]? = some tx := by
  unfold responseOf at h
  split at h
  · rename_i data
    split at h
    · cases h
    · rename_i hdata
      obtain ⟨m', hm, h⟩ := Option.bind_eq_some_iff.mp h
      split at h
      · rename_i hcls
        obtain ⟨tx', htx, h⟩ := Option.map_eq_some_iff.mp h
        cases h
        exact ⟨data, rfl, by simpa using hdata, hm, hcls, htx⟩
      · cases h
  · cases h

theorem responseOf_pending {c : Client} {m : Message} (h : c.responseOf e = some (m, tx)) :
    c.pending[m.transactionID.1]? = some tx := by
  obtain ⟨-, -, -, -, -, htx⟩ := responseOf_some h
  exact htx

theorem call_of_responseOf {c : Client} {m : Message} (h : c.responseOf e = some (m, tx)) :
    c.call env e = c.handleStunResponse env m := by
  obtain ⟨data, rfl, hdata, hm, hcls, -⟩ := responseOf_some h
  show c.handleInbound env (some data) = _
  unfold handleInbound
  simp only [hdata, Bool.false_eq_true, if_false, hm]
  obtain hcls | hcls := hcls <;> simp [hcls]

/-- Something handed to `sendRaw`. -/
def isSent : Effect → Bool
  | .send _ | .sendFrame _ => true
  | _ => false

/-- A callback about what a peer has sent or asks for. -/
def isIncoming : Effect → Bool
  | .onData .. | .onConnectionAttempt .. => true
  | _ => false

/-- Inbound data is a response, or at most a callback is made of it. -/
theorem handleInbound_cases {P : Client → Prop} (env : ClientEnv) (c : Client) (data : Bytes)
    (hsame : P c)
    (heffect : ∀ e, isSent e = false → c.Minor e → isIncoming e = true → P (c.effect e))
    (hresponse : ∀ m, isChannelData data = false → decode data = some m →
      m.cls = .successResponse ∨ m.cls = .errorResponse → P (c.handleStunResponse env m)) :
    P (c.handleInbound env (some data)) := by
  unfold handleInbound
  by_cases hdata : isChannelData data = true
  · simp only [hdata, if_true]
    unfold handleChannelData
    split
    · exact hsame
    · split
      · exact heffect _ rfl trivial rfl
      · split
        · exact heffect _ rfl trivial rfl
        · exact hsame
  · rw [Bool.not_eq_true] at hdata
    simp only [hdata, Bool.false_eq_true, if_false]
    split
    · exact hsame
    · rename_i m hm
      split
      · rename_i hcls
        exact hresponse m hdata hm (.inl hcls)
      · rename_i hcls
        exact hresponse m hdata hm (.inr hcls)
      · unfold handleDataIndication handleConnectionAttempt
        split
        · split
          · exact heffect _ rfl trivial rfl
          · exact hsame
        · split
          · split
            · exact heffect _ rfl trivial rfl
            · exact hsame
          · exact hsame
      · exact hsame

section
variable {R : Client → Client → Prop} (hR : Steps R)
include hR

theorem Steps.tickTx (env : ClientEnv) (c : Client) (key : Bytes) : R c (c.tickTx env key).2 := by
  obtain ⟨heq, -⟩ | ⟨tx, htx, -, ⟨-, heq⟩ | ⟨-, heq⟩⟩ := tickTx_cases env c key
  · rw [heq]
    exact hR.calm (.refl c)
  · rw [heq]
    refine hR.trans (hR.calm (.erase c key)) ?_
    generalize { c with pending := c.pending.erase key } = d
    cases hb : (d.timeoutTx tx.kind).1 with
    | false => exact hR.calm (.timeoutTx d hb)
    | true =>
      cases hk : tx.kind with
      | allocate => exact hR.fail d 0 _
      | refresh =>
        refine hR.trans (hR.calm ?_) (hR.fail { d with refreshTidFresh := false } 0 _)
        exact .of_eq rfl rfl (fun _ _ h => h) rfl rfl
      | _ =>
        rw [hk] at hb
        cases hb
  · rw [heq]
    have hout : Calm c { c with out := c.out ++ c.resent tx } := by
      unfold resent
      split
      · exact .effect c (.inr (.inr (.inr ⟨key, tx, htx, rfl⟩)))
      · rw [List.append_nil]
        exact .refl c
    exact hR.calm (hout.trans (.insert htx rfl rfl))

theorem Steps.tick (env : ClientEnv) (c : Client) : R c (c.tick env).2 := by
  have hrefl (c : Client) : R c c := hR.calm (.refl c)
  refine tick_rule (R := R) hR.trans
    (tickPending_rule (R := R) hR.trans hrefl (hR.tickTx env) c _) fun d => ?_
  unfold tickBindings
  dsimp only
  split
  · rename_i hdue
    exact hR.trans (hR.refresh env d _ hdue.1) (hR.calm (.tickLoops env _))
  · exact hR.calm (.tickLoops env d)

theorem Steps.handleAllocateResponse (env : ClientEnv) (c : Client) (m : Message) (isError : Bool)
    (key : Bytes) (hretry : R c { c with pending := c.pending.erase key, state := .idle })
    (hallocated : ∀ relayed lt, R c
      ({ c with pending := c.pending.erase key, state := .allocated }.effect
        (.onAllocated relayed lt))) :
    R c ({ c with pending := c.pending.erase key }.handleAllocateResponse env m isError) := by
  have herase := Calm.erase c key
  unfold Client.handleAllocateResponse
  split
  · dsimp only
    split
    · refine handleAuthError_cases (fun creds n _ => ?_) (fun creds n _ => ?_)
      · exact hR.trans (hR.trans hretry (hR.calm (.withAuth _ creds n)))
          (hR.allocate env _ rfl)
      · exact hR.trans (hR.calm (herase.trans (.withAuth _ creds n))) (hR.fail _ _ _)
    · exact hR.trans (hR.calm herase) (hR.fail _ _ _)
  · dsimp only
    split
    · exact hR.trans (hR.calm (herase.trans (.withAuth _ c.creds 0))) (hR.fail _ _ _)
    · rename_i relayed _
      refine hR.trans (hallocated relayed ((readLifetime m).getD c.cfg.requestedLifetime))
        (hR.calm ?_)
      exact .of_eq rfl rfl (fun _ _ h => h) rfl rfl

theorem Steps.handleRefreshResponse (env : ClientEnv) (c : Client) (m : Message) (isError : Bool)
    (key : Bytes) (hretry : isError = true → (errorOf m).1 = 401 ∨ (errorOf m).1 = 438 →
      ∀ c' lt, Calm c c' → R c (c'.sendRefresh env lt)) :
    R c ({ c with pending := c.pending.erase key, refreshTidFresh := false
      }.handleRefreshResponse env m isError) := by
  have herase : Calm c { c with pending := c.pending.erase key, refreshTidFresh := false } :=
    .of_eq rfl rfl (fun _ _ h => (getElem?_erase_some h).2) rfl rfl
  unfold Client.handleRefreshResponse
  split
  · rename_i herror
    dsimp only
    refine handleAuthError_cases (fun creds n hcode => ?_) (fun creds n _ => ?_)
    · exact hretry herror hcode _ _ (herase.trans (.withAuth _ creds n))
    · exact hR.trans (hR.calm (herase.trans (.withAuth _ creds n))) (hR.fail _ _ _)
  · dsimp only
    split
    · exact hR.calm (herase.trans (.withAuth _ c.creds 0))
    · exact hR.calm (herase.trans (.of_eq rfl rfl (fun _ _ h => h) rfl rfl))

theorem Steps.handleChannelBindResponse (env : ClientEnv) (c : Client) (m : Message)
    (isError : Bool) (peer : AddrRecord) (key : Bytes) (hlate : ¬ c.Early)
    (hbad : isError = true → (errorOf m).1 = 400 → (c.getBinding peer).channelReady = false →
      ∀ c' reason, Calm c c' → R c ({ c' with state := .failed }.effect (.onFailed 400 reason))) :
    R c (({ c with pending := c.pending.erase key }.updateBinding peer
      .clearChannelTid).handleChannelBindResponse env m isError peer) := by
  have hready : ((({ c with pending := c.pending.erase key }.updateBinding peer
      .clearChannelTid).withBinding peer).getBinding peer).channelReady =
        (c.getBinding peer).channelReady := by
    refine (congrArg PeerBinding.channelReady (getBinding_withBinding _ peer)).trans ?_
    exact getBinding_updateBinding PeerBinding.channelReady
      { c with pending := c.pending.erase key }
      peer (fun _ => rfl) (fun _ => rfl)
  have hc : Calm c (({ c with pending := c.pending.erase key }.updateBinding peer
      .clearChannelTid).withBinding peer) := by
    refine ((Calm.erase c key).trans (.updateBinding _ peer ?_)).trans (.withBinding _ peer)
    exact fun _ h => h
  unfold Client.handleChannelBindResponse
  generalize Client.withBinding _ peer = d at hready hc ⊢
  have hframe : ∀ d', Frame d d' → R c d' := fun d' h =>
    hR.calm (.of_frame (hc.toFrame.trans h) fun h => hlate h.2)
  dsimp only
  split
  · exact hframe _ ((Calm.withAuth d d.creds 0).toFrame.trans (.updateBinding _ peer _))
  · rename_i herror
    refine handleAuthError_cases (fun creds n _ => ?_) (fun creds n _ => ?_)
    · exact hframe _ (((Calm.withAuth d creds n).toFrame.trans (.updateBinding _ peer _)).trans
        ((peerwise_frame env).sendChannelBind _ peer))
    · have ha := Calm.withAuth d creds n
      split
      · rename_i hcode
        split
        · exact hframe _ (ha.toFrame.trans (.updateBinding _ peer _))
        · rename_i hnot
          rw [Bool.not_eq_true] at hnot
          rw [hcode]
          exact hbad (by simpa using herror) hcode (hready.symm.trans hnot) _ _ (hc.trans ha)
      · exact hframe _ ha.toFrame

theorem Steps.handleStunResponse (env : ClientEnv) (c : Client) (m : Message)
    (hretry : ∀ tx, c.pending[m.transactionID.1]? = some tx → tx.kind = .allocate →
      R c { c with pending := c.pending.erase m.transactionID.1, state := .idle })
    (hallocated : ∀ tx, c.pending[m.transactionID.1]? = some tx → tx.kind = .allocate →
      ∀ relayed lt, R c ({ c with pending := c.pending.erase m.transactionID.1, state := .allocated
        }.effect (.onAllocated relayed lt)))
    (hrefresh : ∀ tx, c.pending[m.transactionID.1]? = some tx → tx.kind = .refresh →
      m.cls = .errorResponse → (errorOf m).1 = 401 ∨ (errorOf m).1 = 438 →
      ∀ c' lt, Calm c c' → R c (c'.sendRefresh env lt))
    (hbad : ∀ tx peer, c.pending[m.transactionID.1]? = some tx → tx.kind = .channelBind peer →
      m.cls = .errorResponse → (errorOf m).1 = 400 → (c.getBinding peer).channelReady = false →
      ∀ c' reason, Calm c c' → R c ({ c' with state := .failed }.effect (.onFailed 400 reason))) :
    R c (c.handleStunResponse env m) := by
  have herase := Calm.erase c m.transactionID.1
  unfold Client.handleStunResponse
  split
  · exact hR.calm (.refl c)
  · rename_i tx htx
    dsimp only
    split
    · rename_i hk
      exact hR.handleAllocateResponse env c m _ _ (hretry tx htx hk) (hallocated tx htx hk)
    · rename_i hk
      exact hR.handleRefreshResponse env c m _ _ fun he hcode =>
        hrefresh tx htx hk (of_decide_eq_true he) hcode
    · refine hR.calm ((herase.trans (.updateBinding _ _ ?_)).trans
        (.handleCreatePermissionResponse env _ m _ _))
      exact fun _ h => h
    · rename_i peer hk
      refine hR.handleChannelBindResponse env c m _ peer _ (fun h => ?_) fun he hcode hready =>
        hbad tx peer htx hk (of_decide_eq_true he) hcode hready
      obtain h | ⟨_, h⟩ := h.pending _ _ htx <;> rw [hk] at h <;> cases h
    · exact hR.calm (herase.trans (.handleConnectResponse _ m _ _))

/-- Every call, from the steps of the allocation and from what the response a call
may bring in does. -/
theorem Steps.call (env : ClientEnv) (c : Client) (e : Call)
    (hretry : ∀ m tx, c.responseOf e = some (m, tx) → tx.kind = .allocate →
      R c { c with pending := c.pending.erase m.transactionID.1, state := .idle })
    (hallocated : ∀ m tx, c.responseOf e = some (m, tx) → tx.kind = .allocate →
      ∀ relayed lt, R c ({ c with pending := c.pending.erase m.transactionID.1, state := .allocated
        }.effect (.onAllocated relayed lt)))
    (hrefresh : ∀ m tx, c.responseOf e = some (m, tx) → tx.kind = .refresh →
      m.cls = .errorResponse → (errorOf m).1 = 401 ∨ (errorOf m).1 = 438 →
      ∀ c' lt, Calm c c' → R c (c'.sendRefresh env lt))
    (hbad : ∀ m tx peer, c.responseOf e = some (m, tx) → tx.kind = .channelBind peer →
      m.cls = .errorResponse → (errorOf m).1 = 400 → (c.getBinding peer).channelReady = false →
      ∀ c' reason, Calm c c' → R c ({ c' with state := .failed }.effect (.onFailed 400 reason))) :
    R c (c.call env e) := by
  have hrefl := hR.calm (.refl c)
  cases e with
  | allocate =>
    by_cases h : c.state = .idle
    · exact hR.allocate env c h
    · simpa [Client.call, Client.allocate, h] using hrefl
  | deallocate =>
    by_cases h : c.state = .allocated
    · exact hR.deallocate env c h
    · simpa [Client.call, Client.deallocate, h] using hrefl
  | ensurePermission peer => exact hR.calm (.sendCreatePermission env c peer)
  | sendData peer data =>
    by_cases h : c.state = .allocated
    · exact hR.calm (.of_frame ((peerwise_frame env).sendData c peer data) (by simp [h]))
    · simpa [Client.call, Client.sendData, h] using hrefl
  | sendConnect peer =>
    by_cases h : c.state = .allocated
    · exact hR.connect env c peer h
    · simpa [Client.call, Client.sendConnect, h] using hrefl
  | buildConnectionBindRequest id => exact hR.calm (.of_eq rfl rfl (fun _ _ h => h) rfl rfl)
  | tick => exact hR.tick env c
  | handleInbound data =>
    cases data with
    | none =>
      change R c (if c.state ≠ .failed then _ else _)
      split
      · exact hR.fail c 0 _
      · exact hrefl
    | some data =>
      refine handleInbound_cases env c data hrefl (fun e _ he _ => hR.calm (.effect c he))
        fun m hdata hm hcls => ?_
      have hresp : ∀ tx : PendingTx, c.pending[m.transactionID.1]? = some tx → _ :=
        fun tx htx => responseOf_eq hdata hm hcls htx
      exact hR.handleStunResponse env c m (fun tx h => hretry m tx (hresp tx h))
        (fun tx h => hallocated m tx (hresp tx h)) (fun tx h => hrefresh m tx (hresp tx h))
        (fun tx peer h => hbad m tx peer (hresp tx h))

end

end Stice.Turn.Client
