import Stice.Turn.ClientRules

/-! A rule for the calls of the TURN client. Most of what a call does is of a few kinds: it
starts transactions, adds bindings, sets flags and buffers of bindings, and changes fields
that only the allocation reads. A relation that allows these holds from before a call to
after it, where it also allows what is particular to the call: the transaction that a
response ends, the permission or the channel that it grants, and the timer. -/
namespace Stice.Turn.Client
open Std Net Stun Lib

/-- The peer whose Connect request a callback reports on. -/
def outcomeOf : Effect → Option AddrRecord
  | .onConnectSuccess _ peer | .onConnectFailed _ _ peer => some peer
  | _ => none

def outcomes (out : List Effect) : List AddrRecord := out.filterMap outcomeOf

theorem outcomes_snoc {x : Effect} (out : List Effect) (h : outcomeOf x = none) :
    outcomes (out ++ [x]) = outcomes out := by
  simp [outcomes, h]

structure Passive (env : ClientEnv) (R : Client → Client → Prop) : Prop where
  trans : ∀ {a b c : Client}, R a b → R b c → R a c
  same : ∀ {c d : Client}, d.pending = c.pending → d.bindings = c.bindings → d.login = c.login →
    d.nonceRetries = c.nonceRetries → outcomes d.out = outcomes c.out →
    d.failedEmitted = c.failedEmitted → c.drawn ≤ d.drawn → R c d
  fail : ∀ (c : Client) code reason, R c (c.failAllocation code reason)
  bind : ∀ (c : Client) peer, R c (c.withBinding peer)
  flags : ∀ (c : Client) bs, bs.map grants = c.bindings.map grants → R c { c with bindings := bs }
  start : ∀ (c : Client) kind build, (∀ tid, Built (build tid)) → R c (startTx env c kind build)

section
variable {env : ClientEnv} {R : Client → Client → Prop} (hR : Passive env R) {c d : Client}
include hR

/-- Fields that only the allocation reads. -/
theorem Passive.own (hpending : d.pending = c.pending) (hbindings : d.bindings = c.bindings)
    (hlogin : d.login = c.login) (hretries : d.nonceRetries = c.nonceRetries)
    (hout : d.out = c.out) (hfailed : d.failedEmitted = c.failedEmitted)
    (hdrawn : d.drawn = c.drawn) : R c d :=
  hR.same hpending hbindings hlogin hretries (by rw [hout]) hfailed (Nat.le_of_eq hdrawn.symm)

theorem Passive.refl (c : Client) : R c c := hR.own rfl rfl rfl rfl rfl rfl rfl

theorem Passive.effect (c : Client) {x : Effect} (h : outcomeOf x = none) : R c (c.effect x) :=
  hR.same rfl rfl rfl rfl (outcomes_snoc c.out h) rfl (Nat.le_refl _)

theorem Passive.peerwise : Peerwise env R where
  refl := hR.refl
  trans := hR.trans
  bind := hR.bind
  flags := hR.flags
  permission c peer := hR.start c _ _ fun tid => .createPermission tid peer
  channel c peer channel := hR.start c _ _ fun tid => .channelBind tid peer channel
  hand c sent n hsent hn := by
    refine hR.same rfl rfl rfl rfl ?_ rfl hn
    have hnone : outcomes sent = [] := List.filterMap_eq_nil_iff.mpr fun e he => by
      cases hsent e he <;> rfl
    rw [outcomes, List.filterMap_append]
    exact (congrArg (outcomes c.out ++ ·) hnone).trans (List.append_nil _)

theorem Passive.started (h : R c d) (kind : TxKind) {build : TransactionID → Message}
    (hbuild : ∀ tid, Built (build tid)) : R c (startTx env d kind build) :=
  hR.trans h (hR.start d kind build hbuild)

theorem Passive.sendRefresh (c : Client) (lt : UInt32) : R c (c.sendRefresh env lt) := by
  unfold Client.sendRefresh
  split
  · exact hR.refl c
  · refine hR.started ?_ _ fun tid => .refresh tid lt
    exact hR.own rfl rfl rfl rfl rfl rfl rfl

theorem Passive.allocate (c : Client) : R c (c.allocate env) := by
  unfold Client.allocate
  split
  · exact hR.refl c
  · refine hR.started ?_ _ fun tid => .allocate tid _
    exact hR.own rfl rfl rfl rfl rfl rfl rfl

/-! ## Responses -/

section
variable {m : Message} {isError : Bool}
  (hauth : ∀ (d : Client) creds n,
    (creds = d.creds ∨ isError = true ∧ ((errorOf m).1 = 401 ∨ (errorOf m).1 = 438)) →
      R d (d.withAuth creds n))
include hauth

omit hR in
/-- What an error says about the credentials. -/
theorem auth_of_error {d : Client} (herror : isError = true) (creds : Option Credentials) (n : Nat)
    (h : creds = d.creds ∨ (errorOf m).1 = 401 ∨ (errorOf m).1 = 438) :
    R d (d.withAuth creds n) := hauth d creds n (h.imp_right fun hcode => ⟨herror, hcode⟩)

theorem Passive.permit (c : Client) (peer : AddrRecord)
    (hpermit : ∀ d : Client, R d (d.updateBinding peer fun b =>
      { b with permissionPermitted := true, permissionRefreshAt := env.now + 120000 })) :
    R c (c.permit env peer) := by
  have hgranted := hR.trans (hauth c c.creds 0 (.inl rfl)) (hpermit (c.withAuth c.creds 0))
  unfold Client.permit
  refine hR.trans hgranted ?_
  unfold Client.withAuth
  generalize Client.updateBinding _ peer _ = d
  dsimp only
  split
  · exact hR.refl d
  · exact hR.peerwise.flush d peer

theorem Passive.handleCreatePermissionResponse (c : Client) (peer : AddrRecord)
    (hpermit : isError = false → ∀ d : Client, R d (d.updateBinding peer fun b =>
      { b with permissionPermitted := true, permissionRefreshAt := env.now + 120000 })) :
    R c (c.handleCreatePermissionResponse env m isError peer) := by
  refine hR.trans (hR.bind c peer) ?_
  unfold Client.handleCreatePermissionResponse
  dsimp only
  split
  · rename_i hok
    exact hR.permit hauth _ peer (hpermit (by simpa using hok))
  · rename_i herror
    have herror : isError = true := by simpa using herror
    refine handleAuthError_cases (P := R (c.withBinding peer))
      (f := fun c => (c.updateBinding peer .clearPermissionTid).sendCreatePermission env peer)
      (g := fun c => c.updateBinding peer fun b => { b with pendingData := [] }) ?_ ?_
    · intro creds n hcode
      refine hR.trans ?_ (hR.peerwise.sendCreatePermission _ peer)
      exact hR.peerwise.updated (auth_of_error hauth herror creds n (.inr hcode)) fun _ => rfl
    · intro creds n hcode
      exact hR.peerwise.updated (auth_of_error hauth herror creds n hcode) fun _ => rfl

theorem Passive.handleChannelBindResponse (c : Client) (peer : AddrRecord)
    (hready : isError = false → ∀ d : Client, R d (d.updateBinding peer fun b =>
      { b with channelReady := true, channelRefreshAt := env.now + 300000 }))
    (hkeep : isError = true → (errorOf m).1 = 400 → ∀ d : Client,
      (d.getBinding peer).channelReady = true →
      R d (d.updateBinding peer fun b => { b with channelRefreshAt := env.now + 300000 })) :
    R c (c.handleChannelBindResponse env m isError peer) := by
  refine hR.trans (hR.bind c peer) ?_
  unfold Client.handleChannelBindResponse
  dsimp only
  split
  · rename_i hok
    exact hR.trans (hauth _ (c.withBinding peer).creds 0 (.inl rfl)) (hready (by simpa using hok) _)
  · rename_i herror
    have herror : isError = true := by simpa using herror
    refine handleAuthError_cases (P := R (c.withBinding peer))
      (f := fun c => (c.updateBinding peer .clearChannelTid).sendChannelBind env peer) ?_ ?_
    · intro creds n hcode
      refine hR.trans ?_ (hR.peerwise.sendChannelBind _ peer)
      exact hR.peerwise.updated (auth_of_error hauth herror creds n (.inr hcode)) fun _ => rfl
    · intro creds n hcode
      refine hR.trans (auth_of_error hauth herror creds n hcode) ?_
      split
      · rename_i hbad
        split
        · rename_i hch
          exact hkeep herror hbad _ hch
        · exact hR.same rfl rfl rfl rfl (outcomes_snoc _ rfl) rfl (Nat.le_refl _)
      · exact hR.refl _

theorem Passive.handleAllocateResponse (c : Client) :
    R c (c.handleAllocateResponse env m isError) := by
  unfold Client.handleAllocateResponse
  dsimp only
  split
  · rename_i herror
    split
    · refine handleAuthError_cases (P := R c)
        (f := fun c => Client.allocate env { c with state := .idle }) ?_ ?_
      · intro creds n hcode
        refine hR.trans (auth_of_error hauth herror creds n (.inr hcode))
          (hR.trans ?_ (hR.allocate _))
        exact hR.own rfl rfl rfl rfl rfl rfl rfl
      · intro creds n hcode
        exact hR.trans (auth_of_error hauth herror creds n hcode) (hR.fail _ _ _)
    · exact hR.fail _ _ _
  · refine hR.trans (hauth c c.creds 0 (.inl rfl)) ?_
    split
    · exact hR.fail _ _ _
    · exact hR.same rfl rfl rfl rfl (outcomes_snoc _ rfl) rfl (Nat.le_refl _)

theorem Passive.handleRefreshResponse (c : Client) :
    R c (c.handleRefreshResponse env m isError) := by
  unfold Client.handleRefreshResponse
  dsimp only
  split
  · rename_i herror
    refine handleAuthError_cases (P := R c) (f := fun c => c.sendRefresh env c.lifetime) ?_ ?_
    · intro creds n hcode
      exact hR.trans (auth_of_error hauth herror creds n (.inr hcode)) (hR.sendRefresh _ _)
    · intro creds n hcode
      exact hR.trans (auth_of_error hauth herror creds n hcode) (hR.fail _ _ _)
  · refine hR.trans (hauth c c.creds 0 (.inl rfl)) ?_
    split
    · exact hR.own rfl rfl rfl rfl rfl rfl rfl
    · exact hR.own rfl rfl rfl rfl rfl rfl rfl

end

/-- The response ends its transaction, and is handled with it gone. -/
theorem Passive.handleStunResponse {m : Message} {tx : PendingTx}
    (htx : c.pending[m.transactionID.1]? = some tx)
    (herase : R c { c with pending := c.pending.erase m.transactionID.1 })
    (hauth : ∀ (d : Client) creds n, (creds = d.creds ∨ m.cls = .errorResponse ∧
      ((errorOf m).1 = 401 ∨ (errorOf m).1 = 438)) → R d (d.withAuth creds n))
    (hpermit : ∀ peer, tx.kind = .createPermission peer → m.cls ≠ .errorResponse →
      ∀ d : Client, R d (d.updateBinding peer fun b =>
        { b with permissionPermitted := true, permissionRefreshAt := env.now + 120000 }))
    (hready : ∀ peer, tx.kind = .channelBind peer → m.cls ≠ .errorResponse →
      ∀ d : Client, R d (d.updateBinding peer fun b =>
        { b with channelReady := true, channelRefreshAt := env.now + 300000 }))
    (hkeep : ∀ peer, tx.kind = .channelBind peer → m.cls = .errorResponse → (errorOf m).1 = 400 →
      ∀ d : Client, (d.getBinding peer).channelReady = true →
        R d (d.updateBinding peer fun b => { b with channelRefreshAt := env.now + 300000 }))
    (hconnect : ∀ peer, tx.kind = .connect peer → R c (c.handleStunResponse env m)) :
    R c (c.handleStunResponse env m) := by
  have hauth : ∀ (d : Client) creds n, (creds = d.creds ∨ decide (m.cls = .errorResponse) = true ∧
      ((errorOf m).1 = 401 ∨ (errorOf m).1 = 438)) → R d (d.withAuth creds n) := fun d creds n h =>
    hauth d creds n (h.imp_right fun h => ⟨of_decide_eq_true h.1, h.2⟩)
  cases hkind : tx.kind with
  | allocate =>
    simp only [Client.handleStunResponse, htx, hkind]
    exact hR.trans herase (hR.handleAllocateResponse hauth _)
  | refresh =>
    simp only [Client.handleStunResponse, htx, hkind]
    refine hR.trans (hR.trans herase ?_) (hR.handleRefreshResponse hauth _)
    exact hR.own rfl rfl rfl rfl rfl rfl rfl
  | createPermission peer =>
    simp only [Client.handleStunResponse, htx, hkind]
    refine hR.trans ?_ (hR.handleCreatePermissionResponse hauth _ peer fun hok =>
      hpermit peer hkind (of_decide_eq_false hok))
    exact hR.peerwise.updated herase fun _ => rfl
  | channelBind peer =>
    simp only [Client.handleStunResponse, htx, hkind]
    refine hR.trans ?_ (hR.handleChannelBindResponse hauth _ peer
      (fun hok => hready peer hkind (of_decide_eq_false hok)) fun herror =>
        hkeep peer hkind (of_decide_eq_true herror))
    exact hR.peerwise.updated herase fun _ => rfl
  | connect peer => exact hconnect peer hkind

/-! ## The timer -/

theorem Passive.timeoutTx (c : Client) (kind : TxKind) : R c (c.timeoutTx kind).2 := by
  cases kind with
  | allocate => exact hR.fail _ _ _
  | refresh =>
    refine hR.trans ?_ (hR.fail _ _ _)
    exact hR.own rfl rfl rfl rfl rfl rfl rfl
  | createPermission peer => exact hR.peerwise.updateBinding c fun _ _ => rfl
  | channelBind peer => exact hR.peerwise.updateBinding c fun _ _ => rfl
  | connect peer => exact hR.refl c

/-- The transaction timer, where transactions may end and be sent again. -/
theorem Passive.tickPending
    (herase : ∀ (c : Client) key, R c { c with pending := c.pending.erase key })
    (hresend : ∀ (c : Client) (key : Bytes) (tx : PendingTx), c.pending[key]? = some tx →
      R c { c with pending := c.pending.insert key (advance env tx), out := c.out ++ c.resent tx })
    (c : Client) (keys : List Bytes) : R c (c.tickPending env keys).2 := by
  refine tickPending_rule (R := R) hR.trans hR.refl (fun c key => ?_) c keys
  obtain ⟨heq, -⟩ | ⟨tx, htx, -, ⟨-, heq⟩ | ⟨-, heq⟩⟩ := tickTx_cases env c key
  · rw [heq]
    exact hR.refl c
  · rw [heq]
    exact hR.trans (herase c key) (hR.timeoutTx _ tx.kind)
  · rw [heq]
    exact hresend c key tx htx

theorem Passive.tick (c : Client) (hpending : R c (c.tickPending env c.pending.keys).2)
    (hcollect : ∀ d : Client, R d { d with bindings := d.bindings.filter fun b => !stale env b }) :
    R c (c.tick env).2 := by
  refine tick_rule (R := R) hR.trans hpending fun d => ?_
  unfold Client.tickBindings
  dsimp only
  split
  · exact hR.trans (hR.sendRefresh d _) (hR.peerwise.tickLoops _ hcollect)
  · exact hR.peerwise.tickLoops d hcollect

/-! ## Calls -/

/-- Every call, from what its response or the timer does. -/
theorem Passive.call {e : Call}
    (hresponse : ∀ m tx, c.responseOf e = some (m, tx) → R c (c.handleStunResponse env m))
    (htick : e = .tick → R c (c.tick env).2) : R c (c.call env e) := by
  cases e with
  | allocate => exact hR.allocate c
  | deallocate =>
    unfold Client.call Client.deallocate
    dsimp only
    split
    · exact hR.refl c
    · have hrefresh : R c ({ c with refreshTidFresh := false }.sendRefresh env 0) := by
        refine hR.trans ?_ (hR.sendRefresh _ 0)
        exact hR.own rfl rfl rfl rfl rfl rfl rfl
      exact hR.trans hrefresh (hR.own rfl rfl rfl rfl rfl rfl rfl)
  | ensurePermission peer => exact hR.peerwise.sendCreatePermission c peer
  | sendData peer data => exact hR.peerwise.sendData c peer data
  | sendConnect peer =>
    unfold Client.call Client.sendConnect
    dsimp only
    split
    · exact hR.refl c
    · exact hR.start c _ _ fun tid => .connect tid peer
  | buildConnectionBindRequest connectionId =>
    have hlogin := applyCredentials_login { c with drawn := c.drawn + 1 }
    exact hR.same rfl rfl hlogin rfl rfl rfl (Nat.le_succ _)
  | handleInbound data =>
    cases data with
    | none =>
      unfold Client.call Client.handleInbound
      dsimp only
      split
      · exact hR.fail _ _ _
      · exact hR.refl c
    | some data =>
      refine handleInbound_cases (P := R c) env c data (hR.refl c) ?_ ?_
      · intro x _ _ hx
        refine hR.effect c ?_
        cases x <;> first | rfl | cases hx
      · intro m hdata hm hcls
        cases htx : c.pending[m.transactionID.1]? with
        | none => simpa [Client.handleStunResponse, htx] using hR.refl c
        | some tx => exact hresponse m tx (responseOf_eq hdata hm hcls htx)
  | tick => exact htick rfl

end
end Stice.Turn.Client
