import Stice.Turn.Moves

/-! Every call of the TURN client is a path of steps, with the traffic that `trafficBy`
computes. -/
namespace Stice.Turn.Client
open Std Net Stun Lib

variable {ok : Client → Call → Prop} {c : Client}

section
variable {env : ClientEnv} {c d : Client} {peer : AddrRecord} {b : PeerBinding}
variable {f : PeerBinding → PeerBinding} {q : AddrRecord}

/-! ## Requests -/

theorem find?_withBinding (c : Client) (peer : AddrRecord) :
    (c.withBinding peer).bindings.find? (samePeer peer) = some (c.getBinding peer) := by
  cases hb : c.bindings.find? (samePeer peer) with
  | some b => rw [withBinding_found hb, getBinding, hb]; rfl
  | none =>
    have hany : ¬ c.bindings.any (samePeer peer) = true := by simpa using hb
    have hself : samePeer peer (.new peer) = true := samePeer_iff.mpr rfl
    rw [withBinding, if_neg hany, getBinding, hb]
    simp [List.find?_append, hb, hself]

theorem Goes.withBinding (env : ClientEnv) (c : Client) (peer : AddrRecord) :
    Goes env c [] (c.withBinding peer) := by
  unfold Client.withBinding
  split
  · exact .refl c
  · rename_i h
    exact .move (.bind (by simpa using h)) rfl

theorem hasPermission_withBinding (c : Client) (peer q : AddrRecord) :
    (c.withBinding peer).hasPermission q = c.hasPermission q := by
  unfold Client.withBinding
  split
  · rfl
  · simp [hasPermission, PeerBinding.new]

theorem Goes.allocate (env : ClientEnv) (c : Client) : Goes env c [] (c.allocate env) := by
  by_cases h : c.state = .idle
  · rw [allocate_start h]
    exact .move (.start .allocate h fun tid => .allocate tid _) rfl
  · unfold Client.allocate
    rw [if_pos h]
    exact .refl c

theorem Goes.sendRefresh (env : ClientEnv) (c : Client) (lt : UInt32)
    (hfailed : c.failedEmitted = false) :
    Goes env c [] (c.sendRefresh env lt) := by
  cases h : c.refreshTidFresh with
  | false =>
    rw [sendRefresh_start h]
    exact .move (.start .refresh ⟨h, hfailed⟩ fun tid => .refresh tid lt) rfl
  | true =>
    unfold Client.sendRefresh
    rw [if_pos h]
    exact .refl c

theorem Wired.not_failed (hw : Wired c) (h : c.state ≠ .failed) : c.failedEmitted = false := by
  cases hf : c.failedEmitted with
  | false => rfl
  | true => exact absurd (hw.failed hf) h

theorem Goes.deallocate (env : ClientEnv) (hw : Wired c) : Goes env c [] (c.deallocate env) := by
  unfold Client.deallocate
  split
  · exact .refl c
  · rename_i h
    have hstate : c.state = .allocated := by simpa using h
    refine (Goes.move (.giveUp hstate) rfl).then ?_
    have hfailed : c.failedEmitted = false := hw.not_failed (by rw [hstate]; decide)
    have hstart : Goes env { c with state := .deallocated, refreshTidFresh := false } [] _ :=
      .sendRefresh env _ 0 hfailed
    rw [sendRefresh_start rfl, startTx_eq] at hstart ⊢
    exact hstart

theorem Goes.sendCreatePermission (env : ClientEnv) (c : Client) (peer : AddrRecord) :
    Goes env c [] (c.sendCreatePermission env peer) := by
  refine (Goes.withBinding env c peer).then ?_
  cases h : (c.getBinding peer).permissionTidFresh with
  | false =>
    rw [sendCreatePermission_start h]
    exact .move (.start (.createPermission peer) ⟨_, find?_withBinding c peer, h⟩
      fun tid => .createPermission tid peer) rfl
  | true =>
    unfold Client.sendCreatePermission
    dsimp only
    rw [getBinding_withBinding, if_pos h]
    exact .refl _

theorem channelFor_withBinding (c : Client) (peer : AddrRecord) :
    (c.withBinding peer).channelFor env peer = c.channelFor env peer := by
  rw [channelFor, channelFor, getBinding_withBinding,
    withBinding_found (find?_withBinding c peer)]

/-- A channel is asked for only with a permission, or again. -/
theorem Goes.sendChannelBind (h : (c.getBinding peer).channel ≠ 0 ∨ c.hasPermission peer = true) :
    Goes env c [] (c.sendChannelBind env peer) := by
  refine (Goes.withBinding env c peer).then ?_
  cases hfresh : (c.getBinding peer).channelTidFresh with
  | false =>
    have hunarmed : (c.withBinding peer).Unarmed (.channelBind peer) := by
      refine ⟨_, find?_withBinding c peer, hfresh, h.imp_right fun hp => ?_⟩
      rw [hasPermission_withBinding]
      exact hp
    rw [sendChannelBind_start hfresh, ← channelFor_withBinding]
    exact .move (.start (.channelBind peer) hunarmed
      fun tid => .channelBind tid peer _) rfl
  | true =>
    unfold Client.sendChannelBind
    dsimp only
    rw [getBinding_withBinding, if_pos hfresh]
    exact .refl _

theorem Goes.failAllocation (env : ClientEnv) (c : Client) (code : Nat) (reason : Bytes) :
    Goes env c [] (c.failAllocation code reason) := by
  cases h : c.failedEmitted with
  | false => exact .move (.abort h) rfl
  | true =>
    unfold Client.failAllocation
    rw [if_pos h]
    exact .refl c

/-! ## Application data -/

/-- What the loop of `flushPendingData` hands over. -/
def flushRelays (env : ClientEnv) (b : PeerBinding) (c : Client) : List Bytes → List Relay
  | [] => []
  | pkt :: rest =>
      match hand env c b b.peer pkt with
      | none => []
      | some (d, r) => r :: if r.result < 0 then [] else flushRelays env b d rest

def flushed (env : ClientEnv) (c : Client) (b : PeerBinding) : List Relay :=
  if c.hasSend then flushRelays env b c b.pendingData else []

/-- What the retry of `tick` hands over. -/
def flushedAll (env : ClientEnv) (c : Client) : List PeerBinding → List Relay
  | [] => []
  | b :: bs =>
      if b.permissionPermitted then
        c.flushed env b ++ flushedAll env (c.flushPendingData env b).1 bs
      else flushedAll env c bs

theorem hand_bindings (env : ClientEnv) (c : Client) (b : PeerBinding) (peer : AddrRecord)
    (pkt : Bytes)
    (bs : List PeerBinding) (l : List Bytes) :
    hand env { c with bindings := bs } { b with pendingData := l } peer pkt =
      (hand env c b peer pkt).map fun x => ({ x.1 with bindings := bs }, x.2) := by
  unfold hand
  dsimp only
  split
  · rw [Option.map_map]
    rfl
  · rfl

/-- The binding at one place is drained packet by packet. -/
theorem Goes.flushPackets (hsend : c.hasSend = true) (hperm : b.permissionPermitted = true)
    (pre post : List PeerBinding) (l : List Bytes) :
    Goes env { c with bindings := pre ++ { b with pendingData := l } :: post }
      ((flushRelays env b c l).map .flush)
      { (flushPackets env b c l).1 with
        bindings := pre ++ { b with pendingData := (flushPackets env b c l).2 } :: post } := by
  induction l generalizing c with
  | nil => exact .refl _
  | cons pkt rest ih =>
    rw [flushPackets_cons, flushRelays]
    let bs := pre ++ { b with pendingData := pkt :: rest } :: post
    have hmove := hand_bindings env c b b.peer pkt bs (pkt :: rest)
    cases hr : hand env c b b.peer pkt with
    | none => exact .refl _
    | some x =>
      obtain ⟨d, r⟩ := x
      rw [hr] at hmove
      have hb : bs[pre.length]? = some { b with pendingData := pkt :: rest } := by simp [bs]
      have hflush : Move env { c with bindings := bs } (.data (.flush r)) _ :=
        .flush hsend hb hperm rfl hmove
      dsimp only at hflush ⊢
      split
      · rw [if_pos ‹_›] at hflush
        exact .data hflush
      · rw [if_neg ‹_›, List.set_append_right _ _ (Nat.le_refl _), Nat.sub_self] at hflush
        have hsend' : d.hasSend = true := by
          obtain ⟨n, -, rfl, -⟩ := hand_eq hr
          exact hsend
        exact (Goes.data hflush).trans (ih hsend')

theorem Goes.flushPendingData (env : ClientEnv) (hperm : b.permissionPermitted = true)
    (pre post : List PeerBinding) :
    Goes env { c with bindings := pre ++ b :: post } ((c.flushed env b).map .flush)
      { (c.flushPendingData env b).1 with
        bindings := pre ++ (c.flushPendingData env b).2 :: post } := by
  unfold Client.flushPendingData Client.flushed
  split
  · exact .flushPackets ‹_› hperm pre post b.pendingData
  · exact .refl _

theorem Goes.flushBindings (env : ClientEnv) (c : Client) (pre bs : List PeerBinding) :
    Goes env { c with bindings := pre ++ bs } ((flushedAll env c bs).map .flush)
      { (flushBindings env c bs).1 with bindings := pre ++ (flushBindings env c bs).2 } := by
  induction bs generalizing c pre with
  | nil => exact .refl _
  | cons b bs ih =>
    unfold flushedAll Client.flushBindings
    cases hperm : b.permissionPermitted with
    | false =>
      have h := ih (c := c) (pre ++ [b])
      simpa using h
    | true =>
      have h := ih (c := (c.flushPendingData env b).1) (pre ++ [(c.flushPendingData env b).2])
      simp only [List.append_assoc, List.singleton_append] at h
      simp only [if_true, List.map_append]
      exact (Goes.flushPendingData env hperm pre bs).trans h

theorem modifyBinding_append {pre post : List PeerBinding}
    (hpre : ∀ a ∈ pre, samePeer peer a = false) (hb : samePeer peer b = true) :
    modifyBinding peer f (pre ++ b :: post) = pre ++ f b :: post := by
  induction pre with
  | nil => simp [modifyBinding, hb]
  | cons a pre ih =>
    have ha := hpre a List.mem_cons_self
    simp [modifyBinding, ha, ih fun x hx => hpre x (List.mem_cons_of_mem a hx)]

/-- The binding of a peer has a permission for itself. -/
theorem hasPermission_of_find? (hb : c.bindings.find? (samePeer peer) = some b)
    (hperm : b.permissionPermitted = true) : c.hasPermission peer = true := by
  have hpeer := List.find?_some hb
  refine List.any_eq_true.mpr ⟨b, List.mem_of_find?_eq_some hb, ?_⟩
  simp only [samePeer, AddrRecord.isEqual, addrEqual, Bool.not_true, Bool.false_or,
    Bool.and_eq_true, decide_eq_true_eq] at hpeer
  simp [AddrRecord.isEqual, addrEqual, hpeer, hperm]

/-- The client when a CreatePermission request succeeds, before its buffer is flushed. -/
def permitted (env : ClientEnv) (c : Client) (peer : AddrRecord) : Client :=
  { c with nonceRetries := 0 }.updateBinding peer fun b =>
    { b with permissionPermitted := true, permissionRefreshAt := env.now + 120000 }

def permitRelays (env : ClientEnv) (c : Client) (peer : AddrRecord) : List Relay :=
  (c.permitted env peer).flushed env ((c.permitted env peer).getBinding peer)

theorem Goes.permitted (env : ClientEnv) (c : Client) (peer : AddrRecord) :
    Goes env c [] (c.permitted env peer) :=
  (Goes.move (.auth c.creds 0) rfl).then (.move (.permit peer _) rfl)

theorem flushed_nil (h : b.pendingData = []) : c.flushed env b = [] := by
  unfold flushed
  rw [h]
  split <;> rfl

/-- The buffer of a peer with a permission is flushed, and a channel asked for. -/
theorem Goes.flushPeer (hb : c.bindings.find? (samePeer peer) = some b)
    (hperm : b.permissionPermitted = true) :
    Goes env c ((c.flushed env b).map .flush)
      (if b.pendingData.isEmpty then c
      else
        let r := c.flushPendingData env b
        let c := r.1.updateBinding peer fun _ => r.2
        if r.2.channel = 0 then c.sendChannelBind env peer else c) := by
  obtain ⟨hpeer, pre, post, hbs, hpre⟩ := List.find?_eq_some_iff_append.mp hb
  split
  · rename_i hempty
    rw [flushed_nil (by simpa using hempty)]
    exact .refl c
  · have hpath := Goes.flushPendingData env (c := c) hperm pre post
    obtain ⟨sent, n, left, hflush, -⟩ := flushPendingData_eq env c b
    rw [hflush] at hpath ⊢
    dsimp only at hpath ⊢
    have hc : { c with bindings := pre ++ b :: post } = c := by rw [← hbs]
    have hupdate : Client.updateBinding { c with out := c.out ++ sent, drawn := n } peer
        (fun _ => { b with pendingData := left }) =
          { c with
            out := c.out ++ sent, drawn := n
            bindings := pre ++ { b with pendingData := left } :: post } := by
      unfold updateBinding
      dsimp only
      rw [hbs, modifyBinding_append (by simpa using hpre) hpeer]
    rw [hc] at hpath
    rw [hupdate]
    split
    · rw [← List.append_nil (List.map _ _)]
      refine hpath.trans (.sendChannelBind (.inr ?_))
      refine hasPermission_of_find? (b := { b with pendingData := left }) ?_ hperm
      exact List.find?_eq_some_iff_append.mpr ⟨hpeer, pre, post, rfl, hpre⟩
    · exact hpath

theorem Goes.permit (hb : c.bindings.find? (samePeer peer) = some b) :
    Goes env c ((c.permitRelays env peer).map .flush) (c.permit env peer) := by
  have hfind : (c.permitted env peer).bindings.find? (samePeer peer) =
      some { b with permissionPermitted := true, permissionRefreshAt := env.now + 120000 } := by
    refine (find?_modifyBinding (f := fun b => { b with
      permissionPermitted := true, permissionRefreshAt := env.now + 120000 }) peer
        (fun _ => rfl) c.bindings).trans ?_
    rw [hb]
    rfl
  have hpath : Goes env (c.permitted env peer) _ _ := .flushPeer hfind rfl
  rw [← getBinding_found hfind] at hpath
  exact (Goes.permitted env c peer).then hpath

/-! ## Responses -/

/-- Where the report is still to be made, the state before it does not matter. -/
theorem failAllocation_setState (h : c.failedEmitted = false) (state : AllocState) (code : Nat)
    (reason : Bytes) :
    { c with state := state }.failAllocation code reason = c.failAllocation code reason := by
  unfold failAllocation
  simp only [h, Bool.false_eq_true, if_false]

theorem updateBinding_eq_self (h : ∀ b, c.bindings.find? (samePeer peer) = some b → f b = b) :
    c.updateBinding peer f = c := by
  have hsame := map_modifyBinding (g := id) h
  rw [List.map_id, List.map_id] at hsame
  unfold updateBinding
  rw [hsame]

section
variable {key : Bytes} {tx : PendingTx} {m : Message}

theorem Goes.finish (htx : c.pending[key]? = some tx) : Goes env c [] (c.finish key tx.kind) :=
  .move (.finish htx) rfl

theorem Goes.finish_of {kind : TxKind} (htx : c.pending[key]? = some tx) (hkind : tx.kind = kind) :
    Goes env c [] (c.finish key kind) := hkind ▸ .finish htx

theorem Goes.granted {e : Effect} (hstate : c.state = .idle) (he : isSent e = false) (lt : UInt32)
    (time : Int) :
    Goes env c [] (Client.effect { c with
      nonceRetries := 0, lifetime := lt, refreshAt := time, state := .allocated } e) := by
  refine (Goes.move (.auth c.creds 0) rfl).then ?_
  refine (Goes.move (.schedule lt time) rfl).then ?_
  have hallocated : Goes env { c with nonceRetries := 0, lifetime := lt, refreshAt := time } [] _ :=
    .move (.allocated hstate) rfl
  exact hallocated.then (.move (.note he) rfl)

theorem Goes.handleAllocateResponse (hw : Wired c) (htx : c.pending[key]? = some tx)
    (hkind : tx.kind = .allocate) (isError : Bool) :
    Goes env c []
      ({ c with pending := c.pending.erase key }.handleAllocateResponse env m isError) := by
  have hstate := hw.allocating htx hkind
  have hemitted : c.failedEmitted = false := hw.not_failed (by rw [hstate]; decide)
  refine (Goes.finish_of htx hkind).then ?_
  have hfail (creds : Option Credentials) (n code : Nat) (reason : Bytes) :
      Goes env (c.finish key .allocate) []
        (({ c with pending := c.pending.erase key }.withAuth creds n).failAllocation code
          reason) := by
    have hd : (Client.withAuth { c with pending := c.pending.erase key } creds n).failedEmitted =
        false := hemitted
    rw [← failAllocation_setState hd .idle]
    exact (Goes.move (.auth creds n) rfl).then (.failAllocation env _ code reason)
  unfold Client.handleAllocateResponse
  cases isError with
  | true =>
    rw [if_pos rfl]
    dsimp only
    split
    · refine handleAuthError_cases ?_ ?_
      · intro creds n _
        exact (Goes.move (.auth creds n) rfl).then (.allocate env _)
      · intro creds n _
        exact hfail creds n _ _
    · exact hfail c.creds c.nonceRetries _ _
  | false =>
    rw [if_neg Bool.false_ne_true]
    dsimp only
    split
    · exact hfail c.creds 0 _ _
    · exact Goes.granted (c := c.finish key .allocate) rfl rfl _ _

theorem Goes.handleRefreshResponse (c : Client) (m : Message) (isError : Bool)
    (hfailed : c.failedEmitted = false) :
    Goes env c [] (c.handleRefreshResponse env m isError) := by
  unfold Client.handleRefreshResponse
  cases isError with
  | true =>
    rw [if_pos rfl]
    refine handleAuthError_cases ?_ ?_
    · intro creds n _
      exact (Goes.move (.auth creds n) rfl).then (.sendRefresh env _ _ hfailed)
    · intro creds n _
      exact (Goes.move (.auth creds n) rfl).then (.failAllocation env _ _ _)
  | false =>
    refine (Goes.move (.auth c.creds 0) rfl).then ?_
    rw [if_neg Bool.false_ne_true]
    dsimp only
    split
    · exact .refl _
    · exact .move (.schedule _ _) rfl

theorem updateBinding_withAuth (c : Client) (creds : Option Credentials) (n : Nat)
    (peer : AddrRecord) (f : PeerBinding → PeerBinding) :
    (c.withAuth creds n).updateBinding peer f = (c.updateBinding peer f).withAuth creds n := rfl

theorem clear_again (c : Client) (peer : AddrRecord) {f : PeerBinding → PeerBinding}
    (hf : ∀ b, (f b).peer = b.peer) (hff : ∀ b, f (f b) = f b) (hnew : f (.new peer) = .new peer) :
    ((c.updateBinding peer f).withBinding peer).updateBinding peer f =
      (c.updateBinding peer f).withBinding peer := by
  refine updateBinding_eq_self fun b hb => ?_
  rw [find?_withBinding] at hb
  cases hb
  unfold getBinding updateBinding
  dsimp only
  rw [find?_modifyBinding peer hf]
  cases c.bindings.find? (samePeer peer) with
  | none => exact hnew
  | some b => exact hff b

theorem Goes.handleCreatePermissionResponse (env : ClientEnv) (c : Client) (m : Message)
    (isError : Bool)
    (peer : AddrRecord) :
    Goes env (c.updateBinding peer .clearPermissionTid)
      (if isError then [] else
        (((c.updateBinding peer .clearPermissionTid).withBinding peer).permitRelays env peer).map
          .flush)
      ((c.updateBinding peer .clearPermissionTid).handleCreatePermissionResponse env m isError
        peer) := by
  refine (Goes.withBinding env _ peer).then ?_
  unfold Client.handleCreatePermissionResponse
  cases isError with
  | false => exact .permit (find?_withBinding _ peer)
  | true =>
    simp only [Bool.not_true, Bool.false_eq_true, if_false]
    refine handleAuthError_cases ?_ ?_
    · intro creds n _
      have hclear := clear_again c peer (f := .clearPermissionTid)
        (fun _ => rfl) (fun _ => rfl) rfl
      rw [updateBinding_withAuth, hclear]
      exact (Goes.move (.auth creds n) rfl).then (.sendCreatePermission env _ peer)
    · intro creds n _
      exact (Goes.move (.auth creds n) rfl).then (.move (.drop peer) rfl)

/-- A ChannelBind transaction has a binding with a channel. -/
theorem Wired.bound (hw : Wired c) (htx : c.pending[key]? = some tx)
    (hkind : tx.kind = .channelBind peer) :
    ∃ b, c.bindings.find? (samePeer peer) = some b ∧ b.channel ≠ 0 := by
  have hocc : c.occupies key = some (.channel peer.key) :=
    occupies_eq_some.mpr ⟨tx, htx, by rw [hkind]; rfl, nofun⟩
  obtain ⟨b, hb, hflag⟩ := List.any_eq_true.mp (hw.slots.armed key _ hocc)
  rw [Bool.and_eq_true, decide_eq_true_eq] at hflag
  cases hfind : c.bindings.find? (samePeer peer) with
  | none => exact absurd (samePeer_iff.mpr hflag.1) (List.find?_eq_none.mp hfind b hb)
  | some b' =>
    rw [← eq_of_find? hw.peers hfind hb hflag.1]
    exact ⟨b, rfl, hw.channel b hb (.inr hflag.2)⟩

theorem Goes.handleChannelBindResponse (hw : Wired c) (hp : Phase c)
    (htx : c.pending[key]? = some tx) (hkind : tx.kind = .channelBind peer) (isError : Bool) :
    Goes env (c.finish key (.channelBind peer)) []
      ((c.finish key (.channelBind peer)).handleChannelBindResponse env m isError peer) := by
  obtain ⟨b, hb, hchannel⟩ := hw.bound htx hkind
  have hlate := hp.late htx (by simp [hkind]) (by simp [hkind])
  have hfind : (c.finish key (.channelBind peer)).bindings.find? (samePeer peer) =
      some b.clearChannelTid := by
    refine (find?_modifyBinding (f := .clearChannelTid) peer (fun _ => rfl) _).trans ?_
    rw [hb]
    rfl
  have hstate : (c.finish key (.channelBind peer)).state = c.state := rfl
  rw [← hstate] at hlate
  have hch : b.clearChannelTid.channel ≠ 0 := hchannel
  have hcleared : b.clearChannelTid.clearChannelTid = b.clearChannelTid := rfl
  generalize c.finish key (.channelBind peer) = d at hfind hlate ⊢
  generalize b.clearChannelTid = b' at hfind hch hcleared
  unfold Client.handleChannelBindResponse
  rw [withBinding_found hfind]
  cases isError with
  | false =>
    refine (Goes.move (.auth d.creds 0) rfl).then (.move (.ready _ fun x hx => ?_) rfl)
    cases hfind.symm.trans hx
    exact hch
  | true =>
    simp only [Bool.not_true, Bool.false_eq_true, if_false]
    refine handleAuthError_cases ?_ ?_
    · intro creds n _
      have hclear : d.updateBinding peer .clearChannelTid = d := by
        refine updateBinding_eq_self fun x hx => ?_
        cases hfind.symm.trans hx
        exact hcleared
      rw [updateBinding_withAuth, hclear]
      refine (Goes.move (.auth creds n) rfl).then (.sendChannelBind (.inl ?_))
      rw [getBinding_found (c := d.withAuth creds n) hfind]
      exact hch
    · intro creds n _
      refine (Goes.move (.auth creds n) rfl).then ?_
      split
      · split
        · exact .move (.keep peer _) rfl
        · exact .move (.reject hlate) rfl
      · exact .refl _

theorem Goes.handleConnectResponse (c : Client) (m : Message) (isError : Bool)
    (peer : AddrRecord) : Goes env c [] (c.handleConnectResponse m isError peer) := by
  unfold Client.handleConnectResponse
  split
  · exact .move (.note rfl) rfl
  · split
    · exact .refl c
    · exact .move (.note rfl) rfl

/-- What a response hands over: only a new permission does. -/
def responseRelays (env : ClientEnv) (c : Client) (m : Message) (kind : TxKind) : List Relay :=
  match kind with
  | .createPermission peer =>
      if m.cls = .errorResponse then []
      else ((c.finish m.transactionID.1 kind).withBinding peer).permitRelays env peer
  | _ => []

theorem Goes.handleStunResponse (hw : Wired c) (hp : Phase c)
    (htx : c.pending[m.transactionID.1]? = some tx) :
    Goes env c ((c.responseRelays env m tx.kind).map .flush) (c.handleStunResponse env m) := by
  unfold Client.handleStunResponse
  rw [htx]
  dsimp only
  cases hkind : tx.kind with
  | allocate => exact .handleAllocateResponse hw htx hkind _
  | refresh =>
    have hfailed : c.failedEmitted = false := by
      cases hf : c.failedEmitted with
      | false => rfl
      | true => exact absurd hkind (hw.ended hf _ tx htx)
    exact (Goes.finish_of htx hkind).then (.handleRefreshResponse _ m _ hfailed)
  | createPermission peer =>
    refine (Goes.finish_of htx hkind).then ?_
    have hpath := Goes.handleCreatePermissionResponse env
      { c with pending := c.pending.erase m.transactionID.1 } m (m.cls = .errorResponse) peer
    unfold responseRelays
    dsimp only
    by_cases herror : m.cls = .errorResponse
    · rw [if_pos (decide_eq_true herror)] at hpath
      rw [if_pos herror]
      exact hpath
    · rw [if_neg (by simpa using herror)] at hpath
      rw [if_neg herror]
      exact hpath
  | channelBind peer =>
    exact (Goes.finish_of htx hkind).then (.handleChannelBindResponse hw hp htx hkind _)
  | connect peer => exact (Goes.finish_of htx hkind).then (.handleConnectResponse _ m _ peer)

/-! ## The timer -/

theorem Goes.timeoutTx (hw : Wired c) (htx : c.pending[key]? = some tx) :
    Goes env c [] ({ c with pending := c.pending.erase key }.timeoutTx tx.kind).2 := by
  cases hkind : tx.kind with
  | allocate =>
    have hstate := hw.allocating htx hkind
    have hemitted : c.failedEmitted = false := hw.not_failed (by rw [hstate]; decide)
    have hd : Client.failedEmitted { c with pending := c.pending.erase key } = false := hemitted
    refine (Goes.finish_of htx hkind).then ?_
    unfold Client.timeoutTx
    dsimp only
    rw [← failAllocation_setState hd .idle]
    exact .failAllocation env _ _ _
  | refresh => exact (Goes.finish_of htx hkind).then (.failAllocation env _ _ _)
  | createPermission peer =>
    refine (Goes.finish_of htx hkind).then ?_
    have hdrop : Goes env (c.finish key (.createPermission peer)) [] _ := .move (.drop peer) rfl
    rw [Client.finish, disarm, updateBinding, updateBinding,
      modifyBinding_modifyBinding (f := .clearPermissionTid) fun _ => rfl] at hdrop
    exact hdrop
  | channelBind peer =>
    refine (Goes.finish_of htx hkind).then ?_
    obtain ⟨b, hb, -⟩ := hw.bound htx hkind
    unfold Client.timeoutTx
    dsimp only [updateBinding]
    cases hperm : Client.hasPermission { c with pending := c.pending.erase key } b.peer with
    | true =>
      rw [modifyBinding_congr (g := .clearChannelTid)]
      · exact .refl _
      · intro x hx
        cases hb.symm.trans hx
        simp [hperm, PeerBinding.clearChannelTid]
    | false =>
      have hdrop : Goes env (c.finish key (.channelBind peer)) [] _ := .move (.drop peer) rfl
      rw [modifyBinding_congr (g := fun b => { b.clearChannelTid with pendingData := [] })]
      · rw [Client.finish, disarm, updateBinding, updateBinding,
          modifyBinding_modifyBinding (f := .clearChannelTid) fun _ => rfl] at hdrop
        exact hdrop
      · intro x hx
        cases hb.symm.trans hx
        simp [hperm, PeerBinding.clearChannelTid]
  | connect peer => exact .finish_of htx hkind

/-- The transaction is sent again when the timer comes to it. -/
def resends (env : ClientEnv) (c : Client) (key : Bytes) : Bool :=
  match c.pending[key]? with
  | none => false
  | some tx => tx.nextRetransmitAt ≤ env.now && tx.retries < turnMaxRtxCount

/-- The transactions that the timer sends again. -/
def tickResends (env : ClientEnv) (c : Client) : List Bytes → List Bytes
  | [] => []
  | key :: rest =>
      match c.tickTx env key with
      | (true, _) => []
      | (false, d) => (if c.resends env key then [key] else []) ++ tickResends env d rest

theorem Goes.tickTx (env : ClientEnv) (hw : Wired c) (key : Bytes) :
    Goes env c ((if c.resends env key then [key] else []).map .resend) (c.tickTx env key).2 := by
  obtain ⟨heq, hlater⟩ | ⟨tx, htx, hdue, ⟨hretries, heq⟩ | ⟨hretries, heq⟩⟩ :=
    tickTx_cases env c key
  · have hno : c.resends env key = false := by
      unfold resends
      split
      · rfl
      · rename_i tx htx
        have := hlater tx htx
        simp
        omega
    rw [heq, hno]
    exact .refl c
  · have hno : c.resends env key = false := by simp [resends, htx, Nat.not_lt.mpr hretries]
    rw [heq, hno]
    exact .timeoutTx hw htx
  · have hyes : c.resends env key = true := by simp [resends, htx, hdue, hretries]
    rw [heq, hyes]
    exact .resend (.resend htx hdue hretries)

theorem tickTx_true_resends {key : Bytes} (h : c.tickTx env key = (true, d)) :
    c.resends env key = false := by
  obtain ⟨heq, -⟩ | ⟨tx, htx, -, ⟨hretries, -⟩ | ⟨-, heq⟩⟩ := tickTx_cases env c key
  · exact nomatch h.symm.trans heq
  · simp [resends, htx, Nat.not_lt.mpr hretries]
  · exact nomatch h.symm.trans heq

theorem Goes.tickPending (env : ClientEnv) (hw : Wired c) (keys : List Bytes) :
    Goes env c ((c.tickResends env keys).map .resend) (c.tickPending env keys).2 := by
  induction keys generalizing c with
  | nil => exact .refl c
  | cons key rest ih =>
    have htick := Goes.tickTx env hw key
    unfold Client.tickPending tickResends
    cases heq : c.tickTx env key with
    | mk early d =>
      rw [heq] at htick
      cases early with
      | true =>
        rw [tickTx_true_resends heq] at htick
        exact htick
      | false =>
        dsimp only
        rw [List.map_append]
        exact htick.trans (ih (htick.wired hw))

end

/-! ## The loops over the bindings -/

theorem find?_modifyBinding_of_some (peer : AddrRecord) (hf : ∀ b, (f b).peer = b.peer)
    {bs : List PeerBinding} (h : bs.find? (samePeer q) = some b) :
    ∃ b', (modifyBinding peer f bs).find? (samePeer q) = some b' ∧ (b' = b ∨ b' = f b) := by
  induction bs with
  | nil => cases h
  | cons x xs ih =>
    have hfx : samePeer q (f x) = samePeer q x := by rw [samePeer, samePeer, hf]
    by_cases hx : samePeer q x = true
    · rw [List.find?_cons_of_pos hx] at h
      cases h
      unfold modifyBinding
      split
      · exact ⟨f b, List.find?_cons_of_pos (hfx.trans hx), .inr rfl⟩
      · exact ⟨b, List.find?_cons_of_pos hx, .inl rfl⟩
    · rw [List.find?_cons_of_neg hx] at h
      unfold modifyBinding
      split
      · exact ⟨b, by rw [List.find?_cons_of_neg (by rw [hfx]; exact hx)]; exact h, .inl rfl⟩
      · rw [List.find?_cons_of_neg hx]
        exact ih h

/-- The binding of a peer has a channel. -/
def Bound (c : Client) (q : AddrRecord) : Prop :=
  ∃ b, c.bindings.find? (samePeer q) = some b ∧ b.channel ≠ 0

theorem Bound.withBinding (h : Bound c q) (peer : AddrRecord) : Bound (c.withBinding peer) q := by
  obtain ⟨b, hb, hch⟩ := h
  unfold Client.withBinding
  split
  · exact ⟨b, hb, hch⟩
  · exact ⟨b, by simp [List.find?_append, hb], hch⟩

theorem Bound.updateBinding (h : Bound c q) (hf : ∀ b, (f b).peer = b.peer)
    (hch : ∀ b, b.channel ≠ 0 → (f b).channel ≠ 0) : Bound (c.updateBinding peer f) q := by
  obtain ⟨b, hb, hchannel⟩ := h
  obtain ⟨b', hb', rfl | rfl⟩ := find?_modifyBinding_of_some peer hf hb
  · exact ⟨b', hb', hchannel⟩
  · exact ⟨f b, hb', hch b hchannel⟩

theorem Bound.sendCreatePermission (h : Bound c q) (peer : AddrRecord) :
    Bound (c.sendCreatePermission env peer) q := by
  unfold Client.sendCreatePermission
  dsimp only
  split
  · exact h.withBinding peer
  · rw [startTx_eq]
    exact ((h.withBinding peer).updateBinding (f := fun b => { b with permissionTidFresh := true })
      (fun _ => rfl) fun _ hb => hb :)

theorem Bound.sendChannelBind (h : Bound c q) (peer : AddrRecord) :
    Bound (c.sendChannelBind env peer) q := by
  cases hfresh : (c.getBinding peer).channelTidFresh with
  | true =>
    unfold Client.sendChannelBind
    dsimp only
    rw [getBinding_withBinding, if_pos hfresh]
    exact h.withBinding peer
  | false =>
    rw [sendChannelBind_start hfresh, startTx_eq]
    exact ((h.withBinding peer).updateBinding
      (f := fun b => { b with channel := c.channelFor env peer, channelTidFresh := true })
      (fun _ => rfl) fun _ _ => channelFor_ne_zero env c peer :)

theorem Bound.refreshBinding (h : Bound c q) (b : PeerBinding) :
    Bound (refreshBinding env c b) q :=
  refreshBinding_rule (P := (Bound · q)) h (fun _ h => h.sendCreatePermission b.peer)
    fun _ _ h => h.sendChannelBind b.peer

/-- The requests for the bindings of `l`, of which those with a ready channel are bound. -/
theorem foldl_refreshBinding_rule {R : Client → Client → Prop} (hrefl : ∀ c, R c c)
    (htrans : ∀ {c d e}, R c d → R d e → R c e)
    (hpermission : ∀ c peer, R c (c.sendCreatePermission env peer))
    (hchannel : ∀ c peer, Bound c peer → R c (c.sendChannelBind env peer)) {l : List PeerBinding}
    (h : ∀ b ∈ l, b.channelReady = true → Bound c b.peer) :
    R c (l.foldl (refreshBinding env) c) := by
  induction l generalizing c with
  | nil => exact hrefl c
  | cons b l ih =>
    have hb := refreshBinding_rule
      (P := fun d => R c d ∧ (b.channelReady = true → Bound d b.peer))
      ⟨hrefl c, h b List.mem_cons_self⟩
      (fun d hd => ⟨htrans hd.1 (hpermission d _), fun hr => (hd.2 hr).sendCreatePermission _⟩)
      fun hr d hd => ⟨htrans hd.1 (hchannel d _ (hd.2 hr)), fun hr => (hd.2 hr).sendChannelBind _⟩
    exact htrans hb.1 (ih fun b' hb' hready =>
      (h b' (List.mem_cons_of_mem b hb') hready).refreshBinding b)

theorem Goes.foldl_refreshBinding {l : List PeerBinding}
    (h : ∀ b ∈ l, b.channelReady = true → Bound c b.peer) :
    Goes env c [] (l.foldl (Client.refreshBinding env) c) := by
  refine foldl_refreshBinding_rule (R := fun c d => Goes env c [] d) .refl .then
    (.sendCreatePermission env) (fun c peer hbound => ?_) h
  obtain ⟨b, hb, hch⟩ := hbound
  exact .sendChannelBind (.inl (by rw [getBinding_found hb]; exact hch))

theorem Wired.ready (hw : Wired c) (hb : b ∈ c.bindings) (hready : b.channelReady = true) :
    Bound c b.peer := by
  cases hfind : c.bindings.find? (samePeer b.peer) with
  | none => exact absurd (samePeer_iff.mpr rfl) (List.find?_eq_none.mp hfind b hb)
  | some b' =>
    obtain rfl := eq_of_find? hw.peers hfind hb rfl
    exact ⟨b, hfind, hw.channel b hb (.inl hready)⟩

/-- The client when `tick` has refreshed what is due. -/
def refreshed (env : ClientEnv) (c : Client) : Client :=
  let c := if c.state = .allocated ∧ c.refreshAt ≤ env.now then c.sendRefresh env c.lifetime else c
  c.bindings.foldl (refreshBinding env) c

theorem Goes.refreshed (hw : Wired c) : Goes env c [] (c.refreshed env) := by
  unfold Client.refreshed
  dsimp only
  have hrefresh : Goes env c [] (if c.state = .allocated ∧ c.refreshAt ≤ env.now
      then c.sendRefresh env c.lifetime else c) := by
    split
    · rename_i hdue
      exact .sendRefresh env c _ (hw.not_failed (by rw [hdue.1]; decide))
    · exact .refl c
  exact hrefresh.then (.foldl_refreshBinding fun b hb => (hrefresh.wired hw).ready hb)

theorem Goes.tickBindings (env : ClientEnv) (hw : Wired c) :
    Goes env c ((flushedAll env (c.refreshed env) (c.refreshed env).bindings).map .flush)
      (c.tickBindings env) := by
  refine (Goes.refreshed hw).then ?_
  have hflush := Goes.flushBindings env (c.refreshed env) [] (c.refreshed env).bindings
  rw [← List.append_nil (List.map _ _)]
  exact hflush.trans (.move .collect rfl)

/-! ## Calls -/

def sendTraffic (env : ClientEnv) (c : Client) (peer : AddrRecord) (data : Bytes) :
    List Traffic :=
  if c.state ≠ .allocated then []
  else if !c.hasPermission peer then [.accept (c.getBinding peer).peer data]
  else if !c.hasSend ∨ !(c.getBinding peer).channelReady ∧ 0xFFFF - 40 < data.length then []
  else
    match hand env (c.withBinding peer) (c.getBinding peer) peer data with
    | none => []
    | some (_, r) => [.direct r]

/-- What `tick` hands over from the buffers. -/
def tickRelays (env : ClientEnv) (c : Client) : List Relay :=
  match c.tickPending env c.pending.keys with
  | (true, _) => []
  | (false, c) => flushedAll env (c.refreshed env) (c.refreshed env).bindings

/-- The traffic of a call. -/
def trafficBy (env : ClientEnv) (c : Client) : Call → List Traffic
  | .sendData peer data => c.sendTraffic env peer data
  | .handleInbound data =>
      match c.responseOf (.handleInbound data) with
      | some (m, tx) => (c.responseRelays env m tx.kind).map .flush
      | none => []
  | .tick => (c.tickResends env c.pending.keys).map .resend ++ (c.tickRelays env).map .flush
  | _ => []

/-- A packet without a permission is buffered, after the permission was asked for. -/
theorem Goes.accept (hstate : c.state = .allocated) (hperm : c.hasPermission peer = false)
    (hb : c.bindings.find? (samePeer peer) = some b) (data : Bytes) :
    Goes env c [.accept b.peer data]
      ((if b.permissionTidFresh then c else c.sendCreatePermission env peer).updateBinding peer
        (.buffer data)) := by
  cases hfresh : b.permissionTidFresh with
  | true => exact .data (.accept hstate hb hperm)
  | false =>
    refine (Goes.sendCreatePermission env c peer).then (.data ?_)
    rw [sendCreatePermission_start (by rw [getBinding_found hb]; exact hfresh),
      withBinding_found hb, startTx_eq]
    let f (b : PeerBinding) : PeerBinding := { b with permissionTidFresh := true }
    refine .accept hstate (b := f b) ?_ ?_
    · refine (find?_modifyBinding (f := f) peer (fun _ => rfl) c.bindings).trans ?_
      rw [hb]
      rfl
    · exact (any_modifyBinding (f := f) (fun _ _ => rfl) c.bindings).trans hperm

/-- A packet with a permission is handed over, in a frame or an indication. -/
theorem Goes.direct (env : ClientEnv) (hstate : c.state = .allocated)
    (hperm : c.hasPermission peer = true)
    (hb : c.bindings.find? (samePeer peer) = some b) (data : Bytes) :
    Goes env c
      (if !c.hasSend ∨ !b.channelReady ∧ 0xFFFF - 40 < data.length then []
      else
        match hand env c b peer data with
        | none => []
        | some (_, r) => [.direct r])
      (if b.channelReady then
        match wrapChannelData b.channel data with
        | none => c
        | some frame => if c.hasSend then c.effect (.sendFrame frame) else c
      else if 0xFFFF - 40 < data.length then c
      else
        let d := { c with drawn := c.drawn + 1 }.sendPrepared
          (sendIndication (env.tid c.drawn) peer data)
        if b.channel = 0 then d.sendChannelBind env peer else d) := by
  have hmove (d : Client) (r : Relay) (hsend : c.hasSend = true)
      (hsize : b.channelReady = false → data.length ≤ 0xFFFF - 40)
      (hr : hand env c b peer data = some (d, r)) : Goes env c [.direct r] d :=
    .data (.direct hstate hsend hb hperm hsize hr)
  cases hready : b.channelReady with
  | true =>
    cases hwrap : wrapChannelData b.channel data with
    | none =>
      have hnone : hand env c b peer data = none := by simp [hand, hready, hwrap]
      simp only [hnone, if_true, ite_self]
      exact .refl c
    | some frame =>
      cases hsend : c.hasSend with
      | false => exact .refl c
      | true =>
        have hr : hand env c b peer data = some (c.effect (.sendFrame frame),
            ⟨peer, data, .sendFrame frame, env.sendRaw c.out.length⟩) := by
          simp [hand, hready, hwrap]
        rw [hr]
        exact hmove _ _ hsend (by simp [hready]) hr
  | false =>
    by_cases hsize : 0xFFFF - 40 < data.length
    · simp only [hsize, Bool.not_false, and_self, or_true, Bool.false_eq_true, if_false, if_true]
      exact .refl c
    · have hbind (d : Client) (hd : d.bindings = c.bindings) :
          Goes env d [] (if b.channel = 0 then d.sendChannelBind env peer else d) := by
        have hp : d.hasPermission peer = true := by
          rw [hasPermission, hd]
          exact hperm
        split
        · exact .sendChannelBind (.inr hp)
        · exact .refl d
      simp only [hsize, and_false, or_false, Bool.false_eq_true, if_false]
      obtain hsend | hsend := Bool.eq_false_or_eq_true c.hasSend
      case inr =>
        have hd : Client.sendPrepared { c with drawn := c.drawn + 1 }
            (sendIndication (env.tid c.drawn) peer data) = { c with drawn := c.drawn + 1 } := by
          rw [sendPrepared, if_neg (by simpa using hsend)]
        rw [hd, if_pos (by simp [hsend])]
        exact (Goes.move (.draw (Nat.le_succ _)) rfl).then (hbind _ rfl)
      case inl =>
        have hd : Client.sendPrepared { c with drawn := c.drawn + 1 }
            (sendIndication (env.tid c.drawn) peer data) =
              Client.effect { c with drawn := c.drawn + 1 }
              (.send (sendIndication (env.tid c.drawn) peer data)) := by
          rw [sendPrepared, if_pos hsend]
        have hr : hand env c b peer data = some (Client.effect { c with drawn := c.drawn + 1 }
              (.send (sendIndication (env.tid c.drawn) peer data)),
            ⟨peer, data, .send (sendIndication (env.tid c.drawn) peer data),
              env.sendRaw c.out.length⟩) := by
          simp [hand, hready]
        rw [hd, hr, if_neg (by simp [hsend])]
        exact (hmove _ _ hsend (fun _ => Nat.le_of_not_lt hsize) hr).trans (hbind _ rfl)

theorem Goes.sendData (env : ClientEnv) (c : Client) (peer : AddrRecord) (data : Bytes) :
    Goes env c (c.sendTraffic env peer data) (c.sendData env peer data).2 := by
  by_cases hstate : c.state = .allocated
  case neg =>
    rw [sendTraffic, Client.sendData, if_pos hstate, if_pos hstate]
    exact .refl c
  have hb := find?_withBinding c peer
  have hget := getBinding_withBinding c peer
  have hpermission := hasPermission_withBinding c peer peer
  have hsend : (c.withBinding peer).hasSend = c.hasSend := by rw [withBinding_eq]
  have hallocated : (c.withBinding peer).state = .allocated := by rw [withBinding_eq]; exact hstate
  rw [sendTraffic, Client.sendData, if_neg (not_not_intro hstate), if_neg (not_not_intro hstate),
    ← hpermission, ← hsend]
  dsimp only
  rw [hget]
  refine (Goes.withBinding env c peer).then ?_
  generalize c.withBinding peer = d at hb hallocated ⊢
  generalize c.getBinding peer = b at hb ⊢
  cases hperm : d.hasPermission peer with
  | false => exact .accept hallocated hperm hb data
  | true =>
    simp only [Bool.not_true, if_neg Bool.false_ne_true]
    refine cast (congrArg (Goes env d _) ?_) (Goes.direct env hallocated hperm hb data)
    rw [apply_ite Prod.snd, apply_ite Prod.snd]
    cases wrapChannelData b.channel data with
    | none => rfl
    | some frame =>
      dsimp only
      rw [apply_ite Prod.snd]

theorem Goes.call (env : ClientEnv) (hw : Wired c) (hp : Phase c) (e : Call) :
    Goes env c (c.trafficBy env e) (c.call env e) := by
  cases e with
  | allocate => exact .allocate env c
  | deallocate => exact .deallocate env hw
  | ensurePermission peer => exact .sendCreatePermission env c peer
  | sendData peer data => exact .sendData env c peer data
  | sendConnect peer =>
    unfold Client.call Client.sendConnect
    dsimp only
    split
    · exact .refl c
    · rename_i hstate
      have hallocated : c.state = .allocated := by simpa using hstate
      exact .move (.start (.connect peer) hallocated fun tid => .connect tid peer) rfl
  | buildConnectionBindRequest connectionId =>
    exact (Goes.move (.draw (Nat.le_succ _)) rfl).then (.move (.auth _ c.nonceRetries) rfl)
  | handleInbound data =>
    cases data with
    | none =>
      unfold Client.call Client.handleInbound
      dsimp only
      split
      · exact .failAllocation env c _ _
      · exact .refl c
    | some data =>
      change Goes env c (c.trafficBy env (.handleInbound (some data)))
        (c.handleInbound env (some data))
      cases hr : c.responseOf (.handleInbound (some data)) with
      | some x =>
        obtain ⟨m, tx⟩ := x
        have hcall := call_of_responseOf env hr
        have htx := responseOf_pending hr
        simp only [trafficBy, hr]
        exact cast (congrArg (Goes env c _) hcall.symm) (.handleStunResponse hw hp htx)
      | none =>
        simp only [trafficBy, hr]
        refine handleInbound_cases (P := Goes env c []) env c data (.refl c)
          (fun _ he _ _ => .move (.note he) rfl) fun m hdata hm hcls => ?_
        cases htx : c.pending[m.transactionID.1]? with
        | none =>
          have hsame : c.handleStunResponse env m = c := by simp [Client.handleStunResponse, htx]
          rw [hsame]
          exact .refl c
        | some tx => cases hr.symm.trans (responseOf_eq hdata hm hcls htx)
  | tick =>
    unfold Client.call Client.tick trafficBy Client.tickRelays
    have hpending := Goes.tickPending env hw c.pending.keys
    dsimp only
    split
    · rename_i d heq
      simp only [heq] at hpending ⊢
      rw [List.map_nil, List.append_nil]
      exact hpending
    · rename_i d heq
      simp only [heq] at hpending ⊢
      exact hpending.trans (.tickBindings env (hpending.wired hw))

theorem Wired.call (env : ClientEnv) (hw : Wired c) (hp : Phase c) (e : Call) :
    Wired (c.call env e) := (Goes.call env hw hp e).wired hw

end

theorem Runs.wired_phase (h : Runs ok c) : Wired c ∧ Phase c := by
  refine Reach.invariant (P := fun c => Wired c ∧ Phase c) ?_ ?_ h
  · rintro _ ⟨cfg, hasSend, rfl⟩
    exact ⟨.init cfg hasSend, Fresh.phase ⟨cfg, hasSend, rfl⟩⟩
  · rintro s i t ⟨hw, hp⟩ ⟨-, rfl⟩
    exact ⟨hw.call i.1 hp i.2, phase_call i.1 s i.2 hp⟩

theorem Runs.wired (h : Runs ok c) : Wired c :=
  h.wired_phase.1

/-- What every step keeps holds in every run. -/
theorem Runs.of_moves {P : Client → Prop} (hinit : ∀ cfg hasSend, P (init cfg hasSend))
    (hmove : ∀ {env c a d}, P c → Move env c a d → P d) (h : Runs ok c) : P c := by
  induction h with
  | start h =>
    obtain ⟨cfg, hasSend, rfl⟩ := h
    exact hinit cfg hasSend
  | @next s t i hs hstep ih =>
    obtain ⟨-, rfl⟩ := hstep
    obtain ⟨hw, hp⟩ := Runs.wired_phase hs
    obtain ⟨as, has, -⟩ := Goes.call i.1 hw hp i.2
    exact has.invariant (fun _ _ _ hc hm => hmove hc hm) ih

end Stice.Turn.Client
