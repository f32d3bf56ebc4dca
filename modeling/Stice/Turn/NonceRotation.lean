import Stice.Turn.Credentials
import Stice.Turn.Lifecycle

/-! The server rotates its nonce while requests of an allocation are under way. Each of
them is answered by 438 and sent again with the new nonce. The budget of retries is one
counter for all transactions, so the allocation survives as long as it lasts from one
success to the next. -/
namespace Stice.Turn
open Std Net Stun Lib

/-- Transactions that keep an allocation up. -/
def TxKind.maintains : TxKind → Bool
  | .refresh | .createPermission _ | .channelBind _ => true
  | .allocate | .connect _ => false

namespace Client

variable {nonce : Bytes} {env : ClientEnv} {stale : List Bytes} {c : Client} {m : Message}
  {tx : PendingTx}

/-! ## What a success leaves -/

/-- A success of CreatePermission starts at most a ChannelBind, for a binding that has
waited for it. -/
theorem permit_cases (env : ClientEnv) (c : Client) (peer : AddrRecord) :
    ∃ d : Client, d.pending = c.pending ∧ d.login = c.login ∧
      c.drawn ≤ d.drawn ∧ d.state = c.state ∧ d.nonceRetries = 0 ∧
      owed d.bindings ≤ owed c.bindings ∧
      (c.permit env peer = d ∨ ∃ build,
        c.permit env peer = startTx env d (.channelBind peer) build ∧
        (∀ tid, Built (build tid)) ∧ owed d.bindings < owed c.bindings) := by
  let f (b : PeerBinding) : PeerBinding :=
    { b with permissionPermitted := true, permissionRefreshAt := env.now + 120000 }
  have howes (b : PeerBinding) (h : owes (f b) = true) : owes b = true := h
  let c₁ := { c with nonceRetries := 0 }.updateBinding peer f
  have hfind : c₁.bindings.find? (samePeer peer) = (c.bindings.find? (samePeer peer)).map f :=
    find?_modifyBinding (f := f) peer (fun _ => rfl) c.bindings
  have hpermit : c.permit env peer =
      if (c₁.getBinding peer).pendingData.isEmpty then c₁
      else
        let r := c₁.flushPendingData env (c₁.getBinding peer)
        let c := r.1.updateBinding peer fun _ => r.2
        if r.2.channel = 0 then c.sendChannelBind env peer else c := rfl
  rw [hpermit]
  split
  · exact ⟨c₁, rfl, rfl, Nat.le_refl _, rfl, rfl, owed_modifyBinding fun b _ => howes b, .inl rfl⟩
  · rename_i hdata
    -- only a binding that is there has data
    cases hb : c.bindings.find? (samePeer peer) with
    | none =>
      rw [hb, Option.map_none] at hfind
      simp [getBinding, hfind, PeerBinding.new] at hdata
    | some b =>
      rw [hb, Option.map_some] at hfind
      have hget : c₁.getBinding peer = f b := by rw [getBinding, hfind]; rfl
      rw [hget] at hdata ⊢
      obtain ⟨out, n, left, hflush, -, hn⟩ := flushPendingData_eq env c₁ (f b)
      rw [hflush]
      dsimp only
      have hleft : modifyBinding peer (fun _ => { f b with pendingData := left }) c₁.bindings =
          modifyBinding peer (fun b => { f b with pendingData := left }) c.bindings := by
        have h : modifyBinding peer (fun _ => { f b with pendingData := left }) c₁.bindings =
            modifyBinding peer (fun b => { b with pendingData := left }) c₁.bindings := by
          refine modifyBinding_congr fun b' hb' => ?_
          rw [hfind] at hb'
          cases hb'
          rfl
        rw [h]
        exact modifyBinding_modifyBinding (f := f) (fun _ => rfl) c.bindings
      generalize hc₃ : Client.updateBinding { c₁ with out := c₁.out ++ out, drawn := n } peer _ = c₃
      have hbs : c₃.bindings = modifyBinding peer (fun b => { f b with pendingData := left })
          c.bindings := by rw [← hc₃]; exact hleft
      have hsame : c₃.pending = c.pending ∧ c₃.login = c.login ∧
          c.drawn ≤ c₃.drawn ∧ c₃.state = c.state ∧ c₃.nonceRetries = 0 := by
        rw [← hc₃]
        exact ⟨rfl, rfl, hn, rfl, rfl⟩
      obtain ⟨h₁, h₂, h₃, h₄, h₅⟩ := hsame
      have howed : owed c₃.bindings ≤ owed c.bindings := by
        rw [hbs]
        refine owed_modifyBinding fun b' hb' h => ?_
        rw [hb] at hb'
        cases hb'
        simp only [owes, Bool.and_eq_true, Bool.not_eq_true', decide_eq_true_eq] at h ⊢
        exact ⟨h.1, by simpa using hdata⟩
      split
      · rename_i hch
        have hfound : c₃.bindings.find? (samePeer peer) =
          some { f b with pendingData := left } := by
          rw [hbs, find?_modifyBinding (f := fun b => { f b with pendingData := left }) peer
            fun _ => rfl, hb]
          rfl
        have hwith := withBinding_found hfound
        cases hfresh : (c₃.getBinding peer).channelTidFresh with
        | true =>
          refine ⟨c₃, h₁, h₂, h₃, h₄, h₅, howed, .inl ?_⟩
          unfold sendChannelBind
          dsimp only
          rw [hwith, if_pos hfresh]
        | false =>
          rw [sendChannelBind_start hfresh, hwith]
          have hlt : owed (modifyBinding peer (fun b => { b with
              channel := c₃.channelFor env peer, channelTidFresh := true }) c₃.bindings) <
                owed c.bindings := by
            rw [hbs, modifyBinding_modifyBinding (f := fun b => { f b with pendingData := left })
              fun _ => rfl]
            refine owed_modifyBinding_lt hb ?_ (owes_channel (channelFor_ne_zero env _ peer))
            simp only [owes, Bool.and_eq_true, Bool.not_eq_true', decide_eq_true_eq]
            exact ⟨hch, by simpa using hdata⟩
          exact ⟨c₃.updateBinding peer _, h₁, h₂, h₃, h₄, h₅, Nat.le_of_lt hlt, .inr ⟨_, rfl,
            fun tid => .channelBind tid peer _, hlt⟩⟩
      · exact ⟨c₃, h₁, h₂, h₃, h₄, h₅, howed, .inl rfl⟩

/-- The client after the transaction `key` has ended, before another one starts. -/
structure Settles (c : Client) (key : Bytes) (d : Client) : Prop where
  pending : d.pending = c.pending.erase key
  state : d.state = c.state
  drawn : c.drawn ≤ d.drawn
  owed : owed d.bindings ≤ owed c.bindings

theorem success_settles
    (htx : c.pending[m.transactionID.1]? = some tx) (hkind : tx.kind.maintains = true)
    (hcls : m.cls = .successResponse) (hstate : c.state = .allocated) :
    ∃ d, Settles c m.transactionID.1 d ∧ d.login = c.login ∧ d.nonceRetries = 0 ∧
      (c.handleStunResponse env m = d ∨
        ∃ peer build, c.handleStunResponse env m = startTx env d (.channelBind peer) build ∧
          (∀ tid, Built (build tid)) ∧ owed d.bindings < owed c.bindings) := by
  have hno : decide (m.cls = .errorResponse) = false := by rw [hcls]; rfl
  unfold handleStunResponse
  simp only [htx, hno]
  cases hk : tx.kind with
  | allocate | connect => rw [hk] at hkind; cases hkind
  | refresh =>
    unfold handleRefreshResponse
    simp only [Bool.false_eq_true, if_false, hstate, reduceCtorEq]
    refine ⟨_, ?_, ?_, ?_, .inl rfl⟩
    · exact ⟨rfl, hstate.symm, Nat.le_refl _, Nat.le_refl _⟩
    · rfl
    · rfl
  | createPermission peer =>
    unfold handleCreatePermissionResponse
    simp only [Bool.not_false, if_true]
    obtain ⟨bs, hbs, howed⟩ := updated_withBinding
      { c with pending := c.pending.erase m.transactionID.1 } peer
      (f := .clearPermissionTid) fun _ h => h
    rw [hbs]
    obtain ⟨d, h₁, h₂, h₃, h₄, h₅, h₆, h⟩ := permit_cases env
      { c with pending := c.pending.erase m.transactionID.1, bindings := bs } peer
    refine ⟨d, ⟨h₁, h₄, h₃, Nat.le_trans h₆ howed⟩, h₂, h₅, h.imp id ?_⟩
    rintro ⟨build, heq, hbuilt, hlt⟩
    exact ⟨peer, build, heq, hbuilt, Nat.lt_of_lt_of_le hlt howed⟩
  | channelBind peer =>
    unfold handleChannelBindResponse
    simp only [Bool.not_false, if_true]
    obtain ⟨bs, hbs, howed⟩ := updated_withBinding
      { c with pending := c.pending.erase m.transactionID.1 } peer
      (f := .clearChannelTid) fun _ h => h
    rw [hbs]
    refine ⟨_, ?_, ?_, ?_, .inl rfl⟩
    · refine ⟨rfl, rfl, Nat.le_refl _, Nat.le_trans (owed_modifyBinding ?_) howed⟩
      exact fun _ _ h => h
    · rfl
    · rfl

theorem success_frame
    (htx : c.pending[m.transactionID.1]? = some tx) (hkind : tx.kind.maintains = true)
    (hcls : m.cls = .successResponse) : Frame c (c.handleStunResponse env m) := by
  have hno : decide (m.cls = .errorResponse) = false := by rw [hcls]; rfl
  have herase := (Calm.erase c m.transactionID.1).toFrame
  unfold handleStunResponse
  simp only [htx, hno]
  cases hk : tx.kind with
  | allocate | connect => rw [hk] at hkind; cases hkind
  | refresh =>
    refine herase.trans ?_
    unfold handleRefreshResponse
    simp only [Bool.false_eq_true, if_false]
    split <;> exact .of_eq rfl rfl (fun _ _ h => h) rfl
  | createPermission peer =>
    exact herase.trans ((Frame.updateBinding _ peer _).trans
      (Calm.handleCreatePermissionResponse env _ m false peer).toFrame)
  | channelBind peer =>
    refine herase.trans ((Frame.updateBinding _ peer .clearChannelTid).trans ?_)
    unfold handleChannelBindResponse
    simp only [Bool.not_false, if_true]
    exact (Calm.withBinding _ peer).toFrame.trans (.of_eq rfl rfl (fun _ _ h => h) rfl)

/-! ## Answers of a server that has rotated its nonce -/

/-- The request that was sent carries the nonce. -/
def carries (nonce : Bytes) (r : Message) : Bool :=
  (decode r.raw).any fun d => getString d .nonce = nonce

/-- The call brings in the answer of the server to a transaction: a success if its
request carries the nonce of the server, and else a 438 with that nonce. -/
def answers (nonce : Bytes) (c : Client) (e : Call) : Bool :=
  match c.responseOf e with
  | some (m, tx) =>
      if carries nonce tx.request then m.cls = .successResponse
      else m.cls = .errorResponse && (errorOf m).1 = 438 && getString m .nonce = nonce
  | none => false

/-- A 438 comes while there are retries left. -/
def withinBudget (c : Client) (e : Call) : Bool :=
  match c.responseOf e with
  | some (m, _) => m.cls = .successResponse || c.nonceRetries < maxNonceRetries
  | none => true

/-- The transaction ids that the call draws are not in use. -/
def FreshIds (env : ClientEnv) (c : Client) : Prop :=
  ∀ n, c.drawn ≤ n → c.pending[(env.tid n).1]? = none

/-- The responses of the server come in, in any order. -/
inductive Rotation (nonce : Bytes) (ok : Client → Call → Prop) :
    Client → List (ClientEnv × Call) → Prop
  | done (c : Client) : Rotation nonce ok c []
  | answer {c : Client} {env : ClientEnv} {e : Call} {l : List (ClientEnv × Call)}
      (hanswer : c.answers nonce e = true) (hfresh : FreshIds env c) (hok : ok c e)
      (h : Rotation nonce ok (c.call env e) l) : Rotation nonce ok c ((env, e) :: l)

/-- The transaction `key` is answered by a success, itself or through its retries. A
retry takes the next transaction id. -/
def succeeds (c : Client) (key : Bytes) : List (ClientEnv × Call) → Bool
  | [] => false
  | (env, e) :: l =>
      match c.responseOf e with
      | none => succeeds (c.call env e) key l
      | some (m, _) =>
          if m.transactionID.1 ≠ key then succeeds (c.call env e) key l
          else m.cls = .successResponse || succeeds (c.call env e) (env.tid c.drawn).1 l

/-! ## The step -/

theorem carries_prepared {nonce u r : Bytes} {l : TurnConfig × Option (Bytes × Bytes × Bytes)}
    {request : Message} (hl : l.2 = some (u, r, nonce)) (hu : u ≠ [])
    (hfits : u.length + r.length + nonce.length < 65000) (h : Prepared l request) :
    carries nonce request = true := by
  obtain ⟨c, m, rfl, hm, rfl⟩ := h
  obtain ⟨k, hk, hkey⟩ := Option.map_eq_some_iff.mp hl
  simp only [Prod.mk.injEq] at hkey
  obtain ⟨rfl, rfl, rfl⟩ := hkey
  obtain ⟨d, hd, -, -, hn, -⟩ := decode_prepareRequest hm hk hu hfits
  simp [carries, hd, hn]

/-- An allocation while the server has the nonce `nonce`; `stale` holds the keys of the
requests with another one. The client knows the nonce before a request carries it. -/
structure Rotating (nonce : Bytes) (stale : List Bytes) (c : Client) : Prop where
  state : c.state = .allocated
  kinds : ∀ (k : Bytes) (tx : PendingTx), c.pending[k]? = some tx → tx.kind.maintains = true
  stale : ∀ (k : Bytes) (tx : PendingTx), c.pending[k]? = some tx →
    carries nonce tx.request = false → k ∈ stale
  login : ∃ u r n, c.login.2 = some (u, r, n) ∧ u ≠ [] ∧
    u.length + r.length + nonce.length < 65000 ∧ (n = nonce ∨
      ∀ (k : Bytes) (tx : PendingTx), c.pending[k]? = some tx → carries nonce tx.request = false)

/-- Every transaction that starts with the nonce of the server is answered by success. -/
theorem Rotating.startTx {nonce u r : Bytes} {stale : List Bytes} {d : Client}
    (h : Rotating nonce stale d) (hl : d.login.2 = some (u, r, nonce)) (hu : u ≠ [])
    (hfits : u.length + r.length + nonce.length < 65000) (env : ClientEnv) {kind : TxKind}
    (hkind : kind.maintains = true) {build : TransactionID → Message}
    (hbuild : ∀ tid, Built (build tid)) : Rotating nonce stale (startTx env d kind build) := by
  have hkeeps := (passive_keeps env).start d kind build hbuild
  rw [startTx_eq] at hkeeps ⊢
  refine ⟨h.state, fun k tx hk => ?_, fun k tx hk hc => ?_, u, r, nonce, ?_, hu, hfits, .inl rfl⟩
  · obtain ⟨-, rfl⟩ | ⟨-, hk⟩ := getElem?_insert_some hk
    · exact hkind
    · exact h.kinds k tx hk
  · obtain ⟨-, rfl⟩ | ⟨-, hk⟩ := getElem?_insert_some hk
    · have hcarries := carries_prepared hl hu hfits ⟨d, _, rfl, hbuild (env.tid d.drawn), rfl⟩
      exact absurd (hcarries.symm.trans hc) (by decide)
    · exact h.stale k tx hk hc
  · rw [hkeeps.login]
    exact hl

/-- A transaction of the client is gone. -/
theorem Rotating.settle {nonce u r n key : Bytes} {stale stale' : List Bytes} {c d : Client}
    (h : Rotating nonce stale c) (hd : Settles c key d)
    (hstale : ∀ k, k ≠ key → k ∈ stale → k ∈ stale') (hl : d.login.2 = some (u, r, n)) (hu : u ≠ [])
    (hfits : u.length + r.length + nonce.length < 65000)
    (hn : n = nonce ∨ ∀ (k : Bytes) (tx : PendingTx), c.pending[k]? = some tx →
      carries nonce tx.request = false) : Rotating nonce stale' d := by
  have hpending (k : Bytes) (tx : PendingTx) (hk : d.pending[k]? = some tx) :
      k ≠ key ∧ c.pending[k]? = some tx := by
    rw [hd.pending] at hk
    exact getElem?_erase_some hk
  refine ⟨hd.state.trans h.state, fun k tx hk => h.kinds k tx (hpending k tx hk).2,
    fun k tx hk hc => hstale k (hpending k tx hk).1 (h.stale k tx (hpending k tx hk).2 hc),
    u, r, n, hl, hu, hfits, hn.imp id fun h k tx hk => h k tx (hpending k tx hk).2⟩

theorem Settles.size {c d : Client} {key : Bytes} {tx : PendingTx} (hd : Settles c key d)
    (htx : c.pending[key]? = some tx) : d.pending.size + 1 = c.pending.size := by
  have hmem : key ∈ c.pending := TreeMap.mem_iff_isSome_getElem?.mpr (by rw [htx]; rfl)
  have hpos : c.pending.size ≠ 0 := fun h0 => by
    have hempty : c.pending.isEmpty = true := by rw [TreeMap.isEmpty_eq_size_eq_zero]; simp [h0]
    rw [TreeMap.getElem?_of_isEmpty hempty] at htx
    cases htx
  rw [hd.pending, TreeMap.size_erase, if_pos (TreeMap.mem_iff_contains.mp hmem)]
  omega

theorem Settles.others {c d : Client} {key k : Bytes} {tx : PendingTx} (hd : Settles c key d)
    (hk : k ≠ key) (htx : c.pending[k]? = some tx) : d.pending[k]? = some tx := by
  rw [hd.pending, getElem?_erase_of_ne hk]
  exact htx

theorem Settles.others_startTx {c d : Client} {key k : Bytes} {tx : PendingTx}
    (hd : Settles c key d) (hfresh : FreshIds env c) (hk : k ≠ key)
    (htx : c.pending[k]? = some tx) (kind : TxKind) (build : TransactionID → Message) :
    (startTx env d kind build).pending[k]? = some tx := by
  have hne : k ≠ (env.tid d.drawn).1 := by
    rintro rfl
    rw [hfresh d.drawn hd.drawn] at htx
    cases htx
  rw [startTx_eq]
  show (d.pending.insert _ _)[k]? = some tx
  rw [getElem?_insert_of_ne hne]
  exact hd.others hk htx

theorem startTx_nonceRetries (env : ClientEnv) (d : Client) (kind : TxKind)
    (build : TransactionID → Message) :
    (startTx env d kind build).nonceRetries = d.nonceRetries := by
  rw [startTx_eq]

theorem size_startTx (env : ClientEnv) (d : Client) (kind : TxKind)
    (build : TransactionID → Message) :
    (startTx env d kind build).pending.size ≤ d.pending.size + 1 := by
  rw [startTx_eq]
  exact TreeMap.size_insert_le

/-- What the answer `m` makes of the client and of the requests with an old nonce. -/
structure Progress (nonce : Bytes) (env : ClientEnv) (stale : List Bytes) (c : Client) (m : Message)
    (stale' : List Bytes) (c' : Client) : Prop where
  rotating : Rotating nonce stale' c'
  less : stale'.length + c'.pending.size + owed c'.bindings <
    stale.length + c.pending.size + owed c.bindings
  budget : c'.nonceRetries + stale'.length ≤ c.nonceRetries + stale.length
  others : ∀ (k : Bytes) (tx : PendingTx), k ≠ m.transactionID.1 → c.pending[k]? = some tx →
    c'.pending[k]? = some tx
  again : m.cls ≠ .successResponse → ∃ tx : PendingTx, c'.pending[(env.tid c.drawn).1]? = some tx
  out : ∃ later, c'.out = c.out ++ later ∧ ∀ code reason, .onFailed code reason ∉ later

theorem Rotating.success (h : Rotating nonce stale c)
    (htx : c.pending[m.transactionID.1]? = some tx) (hc : carries nonce tx.request = true)
    (hcls : m.cls = .successResponse) (hfresh : FreshIds env c) :
    Progress nonce env stale c m stale (c.handleStunResponse env m) := by
  obtain ⟨u, r, n, hl, hu, hfits, hn⟩ := h.login
  obtain rfl : n = nonce := hn.resolve_right fun hold =>
    absurd (hc.symm.trans (hold _ tx htx)) (by decide)
  obtain ⟨d, hd, hlogin, hzero, hnext⟩ :=
    @success_settles env c m tx htx (h.kinds _ tx htx) hcls h.state
  have hsize := hd.size htx
  have howed := hd.owed
  rw [← hlogin] at hl
  have hrot : Rotating n stale d := h.settle hd (fun _ _ hk => hk) hl hu hfits (.inl rfl)
  have hout : ∃ later, (c.handleStunResponse env m).out = c.out ++ later ∧
      ∀ code reason, .onFailed code reason ∉ later := by
    obtain ⟨later, hlater, hminor⟩ := (success_frame htx (h.kinds _ tx htx) hcls).out
    exact ⟨later, hlater, fun code reason hmem => hminor _ hmem⟩
  obtain heq | ⟨peer, build, heq, hbuilt, hlt⟩ := hnext
  · rw [heq] at hout ⊢
    exact ⟨hrot, by omega, by omega, fun k tx hk htx => hd.others hk htx,
      fun hne => absurd hcls hne, hout⟩
  · rw [heq] at hout ⊢
    have hle := size_startTx env d (.channelBind peer) build
    refine ⟨hrot.startTx hl hu hfits env rfl hbuilt, ?_, ?_,
      fun k tx hk htx => hd.others_startTx hfresh hk htx _ _, fun hne => absurd hcls hne, hout⟩
    · rw [startTx_bindings]
      omega
    · rw [startTx_nonceRetries]
      omega

theorem handleAuthError_438 (hcode : (errorOf m).1 = 438)
    (hbudget : c.nonceRetries < maxNonceRetries) (retryAuthed : Bool) (d : Client)
    (hcreds : d.creds = c.creds) (hretries : d.nonceRetries = c.nonceRetries) :
    d.handleAuthError m (errorOf m).1 retryAuthed =
      (true, d.withAuth (c.creds.map fun k => { k with nonce := getString m .nonce })
        (c.nonceRetries + 1)) := by
  have hle : ¬ maxNonceRetries < c.nonceRetries + 1 := by omega
  unfold handleAuthError
  rw [hcode, if_neg (by decide), if_pos rfl]
  dsimp only
  rw [hretries, if_neg hle, hcreds]
  rfl

theorem Rotating.retry (h : Rotating nonce stale c) (htx : c.pending[m.transactionID.1]? = some tx)
    (hc : carries nonce tx.request = false) (hcls : m.cls = .errorResponse)
    (hcode : (errorOf m).1 = 438) (hnonce : getString m .nonce = nonce)
    (hbudget : c.nonceRetries < maxNonceRetries) (hfresh : FreshIds env c) :
    Progress nonce env stale c m (stale.erase m.transactionID.1) (c.handleStunResponse env m) := by
  obtain ⟨u, r, n, hl, hu, hfits, -⟩ := h.login
  have hkind := h.kinds _ tx htx
  have hmem := h.stale _ tx htx hc
  have hne : tx.kind ≠ .allocate := by
    intro hk
    rw [hk] at hkind
    cases hkind
  obtain ⟨d, build, heq, hr, hbuilt⟩ := @retry_eq env c m tx _ _ htx
    (fun peer hk => by rw [hk] at hkind; cases hkind) hcls (.inr hcode)
    fun d _ hcreds hretries => handleAuthError_438 hcode hbudget _ d hcreds hretries
  have hd : Settles c m.transactionID.1 d :=
    ⟨hr.pending, hr.state hne, Nat.le_of_eq hr.drawn.symm, hr.owed⟩
  have hl' : d.login.2 = some (u, r, nonce) := by
    obtain ⟨k, hk, hkey⟩ := Option.map_eq_some_iff.mp hl
    simp only [Prod.mk.injEq] at hkey
    show d.creds.map _ = _
    rw [hr.creds, hk]
    simp [hkey, hnonce]
  have hrot : Rotating nonce (stale.erase m.transactionID.1) d :=
    h.settle hd (fun k hk hmem => (List.mem_erase_of_ne hk).mpr hmem) hl' hu hfits (.inl rfl)
  have hsize := hd.size htx
  have howed := hd.owed
  have hle := size_startTx env d tx.kind build
  have hlen := List.length_erase_of_mem hmem
  have hpos := List.length_pos_of_mem hmem
  rw [heq]
  refine ⟨hrot.startTx hl' hu hfits env hkind hbuilt, ?_, ?_,
    fun k tx hk htx => hd.others_startTx hfresh hk htx _ _, fun _ => ?_, ?_⟩
  · rw [startTx_bindings]
    omega
  · rw [startTx_nonceRetries, hr.nonceRetries]
    omega
  · rw [startTx_eq, ← hr.drawn]
    exact ⟨_, TreeMap.getElem?_insert_self⟩
  · rw [startTx_eq, ← hr.out]
    refine ⟨_, rfl, fun code reason hmem => ?_⟩
    split at hmem <;> simp at hmem

theorem answers_some {e : Call} (h : c.answers nonce e = true) :
    ∃ m tx, c.responseOf e = some (m, tx) ∧
      (carries nonce tx.request = true ∧ m.cls = .successResponse ∨
        carries nonce tx.request = false ∧ m.cls = .errorResponse ∧ (errorOf m).1 = 438 ∧
          getString m .nonce = nonce) := by
  unfold answers at h
  split at h
  · rename_i m tx hresp
    refine ⟨m, tx, hresp, ?_⟩
    cases hc : carries nonce tx.request with
    | true =>
      rw [hc] at h
      exact .inl ⟨rfl, by simpa using h⟩
    | false =>
      rw [hc] at h
      exact .inr ⟨rfl, by simpa [and_assoc] using h⟩
  · cases h

/-- One answer that is within the budget. -/
theorem Rotating.answer {e : Call} (h : Rotating nonce stale c) (hanswer : c.answers nonce e = true)
    (hfresh : FreshIds env c) (hbudget : c.withinBudget e = true) :
    ∃ m tx stale', c.responseOf e = some (m, tx) ∧
      Progress nonce env stale c m stale' (c.call env e) := by
  obtain ⟨m, tx, hresp, ⟨hc, hcls⟩ | ⟨hc, hcls, hcode, hnonce⟩⟩ := answers_some hanswer
  · refine ⟨m, tx, stale, hresp, ?_⟩
    rw [call_of_responseOf env hresp]
    exact h.success (responseOf_pending hresp) hc hcls hfresh
  · refine ⟨m, tx, stale.erase m.transactionID.1, hresp, ?_⟩
    have hlt : c.nonceRetries < maxNonceRetries := by
      simpa [withinBudget, hresp, hcls] using hbudget
    rw [call_of_responseOf env hresp]
    exact h.retry (responseOf_pending hresp) hc hcls hcode hnonce hlt hfresh

/-- A 438 answers one of the requests with an old nonce. -/
theorem Rotating.withinBudget {e : Call} (h : Rotating nonce stale c)
    (hanswer : c.answers nonce e = true) (hfew : c.nonceRetries + stale.length ≤ maxNonceRetries) :
    c.withinBudget e = true := by
  obtain ⟨m, tx, hresp, ⟨-, hcls⟩ | ⟨hc, -⟩⟩ := answers_some hanswer
  · simp [Client.withinBudget, hresp, hcls]
  · have hpos := List.length_pos_of_mem (h.stale _ tx (responseOf_pending hresp) hc)
    have hlt : c.nonceRetries < maxNonceRetries := by omega
    simp [Client.withinBudget, hresp, hlt]

/-! ## Runs -/

/-- With few requests under way every order of the answers is within the budget. -/
theorem Rotating.run_withinBudget {l : List (ClientEnv × Call)} (h : Rotating nonce stale c)
    (hfew : c.nonceRetries + stale.length ≤ maxNonceRetries)
    (hrun : Rotation nonce (fun _ _ => True) c l) :
    Rotation nonce (fun c e => c.withinBudget e = true) c l := by
  induction hrun generalizing stale with
  | done c => exact .done c
  | answer hanswer hfresh _ _ ih =>
    have hbudget := h.withinBudget hanswer hfew
    obtain ⟨m, tx, stale', -, hp⟩ := h.answer hanswer hfresh hbudget
    exact .answer hanswer hfresh hbudget (ih hp.rotating (Nat.le_trans hp.budget hfew))

theorem Rotating.run {l : List (ClientEnv × Call)} (h : Rotating nonce stale c)
    (hrun : Rotation nonce (fun c e => c.withinBudget e = true) c l) :
    (l.foldl step c).state = .allocated ∧
      (∃ later, (l.foldl step c).out = c.out ++ later ∧
        ∀ code reason, .onFailed code reason ∉ later) ∧
      l.length ≤ stale.length + c.pending.size + owed c.bindings ∧
      ((l.foldl step c).pending.isEmpty = true →
        ∀ (key : Bytes) (tx : PendingTx), c.pending[key]? = some tx → c.succeeds key l = true) := by
  induction hrun generalizing stale with
  | done c =>
    refine ⟨h.state, ⟨[], (List.append_nil _).symm, fun _ _ => List.not_mem_nil⟩, Nat.zero_le _,
      fun hempty key tx htx => ?_⟩
    have hnone : c.pending[key]? = none := TreeMap.getElem?_of_isEmpty hempty
    rw [hnone] at htx
    cases htx
  | @answer c env e l hanswer hfresh hbudget _ ih =>
    obtain ⟨m, tx₀, stale', hresp, hp⟩ := h.answer hanswer hfresh hbudget
    obtain ⟨hstate, ⟨later, hlater, hnot⟩, hlength, hdone⟩ := ih hp.rotating
    obtain ⟨first, hfirst, hnot'⟩ := hp.out
    have hless := hp.less
    refine ⟨hstate, ⟨first ++ later, ?_, fun code reason hmem => ?_⟩, ?_,
      fun hempty key tx htx => ?_⟩
    · exact (hlater.trans (by rw [hfirst, List.append_assoc]))
    · exact (List.mem_append.mp hmem).elim (hnot' code reason) (hnot code reason)
    · rw [List.length_cons]
      omega
    · unfold succeeds
      rw [hresp]
      dsimp only
      by_cases hkey : m.transactionID.1 = key
      · -- the answer is for this transaction
        rw [if_neg (by simpa using hkey)]
        by_cases hcls : m.cls = .successResponse
        · simp [hcls]
        · obtain ⟨tx', htx'⟩ := hp.again hcls
          simp [hcls, hdone hempty _ tx' htx']
      · rw [if_pos hkey]
        exact hdone hempty key tx (hp.others key tx (fun hk => hkey hk.symm) htx)

section
variable {nonce : Bytes} {c : Client} {k : Credentials} {l : List (ClientEnv × Call)}
  (hstate : c.state = .allocated)
  (hkinds : ∀ (key : Bytes) (tx : PendingTx), c.pending[key]? = some tx → tx.kind.maintains = true)
  (hcreds : c.creds = some k) (hname : k.username ≠ [])
  (hfits : k.username.length + k.realm.length + nonce.length < 65000)
  (hold : ∀ (key : Bytes) (tx : PendingTx), c.pending[key]? = some tx →
    carries nonce tx.request = false)
include hstate hkinds hcreds hname hfits hold

/-- All requests under way carry another nonce. -/
theorem Rotating.start : Rotating nonce c.pending.keys c where
  state := hstate
  kinds := hkinds
  stale key tx htx _ := by
    rw [TreeMap.mem_keys, TreeMap.mem_iff_isSome_getElem?, htx]
    rfl
  login := ⟨k.username, k.realm, k.nonce, by simp [Client.login, hcreds], hname, hfits, .inr hold⟩

/-- An allocation survives the rotation of the nonce, whatever is under way and in
whatever order the answers come in, as long as each 438 comes while there are retries
left: the client does not fail, there are at most two answers for each transaction and
one for each channel that was owed, and when nothing is pending any more every
transaction has been answered by a success. -/
theorem allocation_survives_rotation
    (hrun : Rotation nonce (fun c e => c.withinBudget e = true) c l) :
    (l.foldl step c).state = .allocated ∧
      (∃ later, (l.foldl step c).out = c.out ++ later ∧
        ∀ code reason, .onFailed code reason ∉ later) ∧
      l.length ≤ 2 * c.pending.size + owed c.bindings ∧
      ((l.foldl step c).pending.isEmpty = true →
        ∀ (key : Bytes) (tx : PendingTx), c.pending[key]? = some tx → c.succeeds key l = true) := by
  have h := Rotating.start hstate hkinds hcreds hname hfits hold
  obtain ⟨h₁, h₂, h₃, h₄⟩ := h.run hrun
  rw [TreeMap.length_keys] at h₃
  exact ⟨h₁, h₂, by omega, h₄⟩

/-- In particular every order will do if the retries left suffice for all that is under way. -/
theorem rotation_withinBudget (hfew : c.nonceRetries + c.pending.size ≤ maxNonceRetries)
    (hrun : Rotation nonce (fun _ _ => True) c l) :
    Rotation nonce (fun c e => c.withinBudget e = true) c l := by
  refine (Rotating.start hstate hkinds hcreds hname hfits hold).run_withinBudget ?_ hrun
  rw [TreeMap.length_keys]
  exact hfew

end

/-- The transaction ids of one call are the same. -/
def oneId (now : Int) (n : Nat) : ClientEnv := { clientEnv now with tid := fun _ => numberedTid n }

def authAttrs (code : Nat) (nonce : Bytes) : Bytes :=
  appendAttr (appendAttr (errorAttr code) .realm (ascii "r")) .nonce nonce

def answer438 (method : Method) (n : Nat) : Call :=
  .handleInbound (some (reply method .errorResponse (numberedTid n) (authAttrs 438 (ascii "new"))))

def answerSuccess (method : Method) (n : Nat) : Call :=
  .handleInbound (some (reply method .successResponse (numberedTid n) []))

def peerOf (n : UInt8) : AddrRecord := ⟨.v4 192 168 0 n, 6000, .dgram⟩

/-- An allocation after a 401 with the nonce `old`; then the Refresh is due, and
permissions for `n` peers are asked for. -/
def underWay (n : Nat) : Client :=
  ([(oneId 0 0, Call.allocate),
    (oneId 0 1, .handleInbound (some (reply .allocate .errorResponse (numberedTid 0)
      (authAttrs 401 (ascii "old"))))),
    (oneId 0 2, .handleInbound (some (reply .allocate .successResponse (numberedTid 1)
      (appendAttr [] .xorRelayedAddress
        (encodeXorAddr ⟨.v4 10 0 0 1, 49152, .dgram⟩ (numberedTid 1)))))),
    (oneId 300000 2, .tick)] ++
    (List.range n).map fun i => (oneId 300000 (3 + i),
      Call.ensurePermission (peerOf i.toUInt8))).foldl
      step smallClient

/-- The conditions on the client, as a check. -/
def rotates (nonce : Bytes) (c : Client) : Bool :=
  c.state = .allocated &&
    c.pending.toList.all (fun e => e.2.kind.maintains && !carries nonce e.2.request) &&
    c.creds.any fun k =>
      k.username ≠ [] && k.username.length + k.realm.length + nonce.length < 65000

theorem pending_of_rotates (h : rotates nonce c = true) {key : Bytes}
    {tx : PendingTx} (htx : c.pending[key]? = some tx) :
    tx.kind.maintains = true ∧ carries nonce tx.request = false := by
  simp only [rotates, Bool.and_eq_true, List.all_eq_true] at h
  have hmem := TreeMap.mem_toList_iff_getElem?_eq_some.mpr htx
  simpa using h.1.2 (key, tx) hmem

theorem freshIds_oneId {now : Int} {n : Nat} {c : Client}
    (h : c.pending[(numberedTid n).1]?.isNone = true) : FreshIds (oneId now n) c :=
  fun _ _ => Option.isNone_iff_eq_none.mp h

/-- A Refresh and a CreatePermission with the old nonce. -/
theorem allocation_survives_rotation_of_two :
    let c := underWay 1
    let l := [(oneId 300000 4, answer438 .refresh 2),
      (oneId 300000 5, answer438 .createPermission 3),
      (oneId 300000 6, answerSuccess .createPermission 5),
      (oneId 300000 6, answerSuccess .refresh 4)]
    (l.foldl step c).state = .allocated ∧ c.succeeds (numberedTid 2).1 l = true ∧
      c.succeeds (numberedTid 3).1 l = true := by
  intro c l
  have hrot : rotates (ascii "new") c = true := by decide +kernel
  have hcreds : (c.creds.any fun k => k.username ≠ [] &&
      k.username.length + k.realm.length + (ascii "new").length < 65000) = true :=
    (Bool.and_eq_true _ _ ▸ hrot).2
  obtain ⟨k, hk, hkey⟩ := (Option.any_eq_true _ _).mp hcreds
  simp only [Bool.and_eq_true, decide_eq_true_eq] at hkey
  have hrun : Rotation (ascii "new") (fun c e => c.withinBudget e = true) c l := by
    refine .answer ?_ (freshIds_oneId ?_) ?_ (.answer ?_ (freshIds_oneId ?_) ?_
      (.answer ?_ (freshIds_oneId ?_) ?_ (.answer ?_ (freshIds_oneId ?_) ?_ (.done _))))
    all_goals decide +kernel
  obtain ⟨hstate, -, -, hdone⟩ := allocation_survives_rotation (by decide +kernel)
    (fun _ _ htx => (pending_of_rotates hrot htx).1) hk hkey.1 hkey.2
    (fun _ _ htx => (pending_of_rotates hrot htx).2) hrun
  have hempty : (l.foldl step c).pending.isEmpty = true := by decide +kernel
  have hsucceeds (n : Nat) (h : c.pending[(numberedTid n).1]?.isSome = true) :
      c.succeeds (numberedTid n).1 l = true := by
    obtain ⟨tx, htx⟩ := Option.isSome_iff_exists.mp h
    exact hdone hempty _ tx htx
  exact ⟨hstate, hsucceeds 2 (by decide +kernel), hsucceeds 3 (by decide +kernel)⟩

/-- Four requests are under way. The fourth 438, for the Refresh, finds the budget used
up by the three permissions. -/
theorem allocation_lost_by_rotation :
    let c := underWay 3
    let l := [(oneId 300000 6, answer438 .createPermission 3),
      (oneId 300000 7, answer438 .createPermission 4),
      (oneId 300000 8, answer438 .createPermission 5),
      (oneId 300000 9, answer438 .refresh 2)]
    rotates (ascii "new") c = true ∧ c.nonceRetries = 0 ∧
      Rotation (ascii "new") (fun _ _ => True) c l ∧ (l.foldl step c).state = .failed ∧
      (.onFailed 438 (ascii "refresh failed: ")) ∈ (l.foldl step c).out ∧
      c.succeeds (numberedTid 2).1 l = false := by
  intro c l
  have hrun : Rotation (ascii "new") (fun _ _ => True) c l := by
    refine .answer ?_ (freshIds_oneId ?_) trivial (.answer ?_ (freshIds_oneId ?_) trivial
      (.answer ?_ (freshIds_oneId ?_) trivial (.answer ?_ (freshIds_oneId ?_) trivial (.done _))))
    all_goals decide +kernel
  exact ⟨by decide +kernel, by decide +kernel, hrun, by decide +kernel, by decide +kernel,
    by decide +kernel⟩

end Client
end Stice.Turn
