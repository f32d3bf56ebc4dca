import Stice.Turn.NonceRotation
import Stice.Turn.Timer

/-! Retries after 401 and 438: whatever the server answers, all transactions together
are sent again at most `maxNonceRetries` times before a success. -/
namespace Stice.Turn.Client
open Std Net Stun Lib

/-- The call brings in a success response to a transaction under way. -/
def succeeded (c : Client) (e : Call) : Bool :=
  match c.responseOf e with
  | some (m, _) => m.cls = .successResponse
  | none => false

def isRequest : Effect → Bool
  | .send m => m.cls = .request
  | _ => false

/-- The requests that a call sends because of a 401 or 438. -/
def authRetries (env : ClientEnv) (c : Client) (e : Call) : Nat :=
  if c.authError e then ((c.call env e).out.drop c.out.length).countP isRequest else 0

/-- The retries in a run from a client. -/
def authRetriesIn (c : Client) : List (ClientEnv × Call) → Nat
  | [] => 0
  | (env, e) :: l => c.authRetries env e + authRetriesIn (c.call env e) l

/-- No success comes in. -/
def noSuccess (c : Client) : List (ClientEnv × Call) → Bool
  | [] => true
  | (env, e) :: l => !c.succeeded e && noSuccess (c.call env e) l

section
variable (env : ClientEnv) (c : Client)

/-! ## The count of retries -/

@[simp] theorem withBinding_nonceRetries (peer : AddrRecord) :
    (c.withBinding peer).nonceRetries = c.nonceRetries := by
  unfold withBinding
  split <;> rfl

@[simp] theorem failAllocation_nonceRetries (code : Nat) (reason : Bytes) :
    (c.failAllocation code reason).nonceRetries = c.nonceRetries := by
  unfold failAllocation
  split <;> rfl

@[simp] theorem updateBinding_nonceRetries (peer : AddrRecord) (f : PeerBinding → PeerBinding) :
    (c.updateBinding peer f).nonceRetries = c.nonceRetries := rfl

theorem passive_nonceRetries (env : ClientEnv) :
    Passive env fun c d => d.nonceRetries = c.nonceRetries where
  trans h h' := h'.trans h
  same _ _ _ hretries _ _ _ := hretries
  fail := failAllocation_nonceRetries
  bind := withBinding_nonceRetries
  flags _ _ _ := rfl
  start c kind build _ := startTx_nonceRetries env c kind build

/-- Only responses change the count. -/
theorem call_nonceRetries {e : Call} (h : c.responseOf e = none) :
    (c.call env e).nonceRetries = c.nonceRetries := by
  have hR := passive_nonceRetries env
  refine hR.call (fun m tx hm => ?_) fun _ => ?_
  · cases h.symm.trans hm
  · exact hR.tick c (hR.tickPending (fun _ _ => rfl) (fun _ _ _ _ => rfl) c _) fun _ => rfl

/-! ## One response -/

/-- What `handleAuthError` answers depends on the credentials and the count only. -/
theorem handleAuthError_congr (c d : Client) (msg : Message) (code : Nat) (retryAuthed : Bool)
    (hcfg : d.cfg = c.cfg) (hcreds : d.creds = c.creds) (hn : d.nonceRetries = c.nonceRetries) :
    d.handleAuthError msg code retryAuthed =
      ((c.handleAuthError msg code retryAuthed).1,
        d.withAuth (c.handleAuthError msg code retryAuthed).2.creds
          (c.handleAuthError msg code retryAuthed).2.nonceRetries) := by
  cases d
  cases hcfg
  cases hcreds
  cases hn
  unfold handleAuthError
  dsimp only
  split
  · split
    · rfl
    · split <;> rfl
  · split
    · split <;> rfl
    · rfl

theorem handleAuthError_count (msg : Message) (code : Nat) (retryAuthed : Bool) :
    c.nonceRetries ≤ (c.handleAuthError msg code retryAuthed).2.nonceRetries ∧
      ((c.handleAuthError msg code retryAuthed).1 = true →
        (c.handleAuthError msg code retryAuthed).2.nonceRetries = c.nonceRetries + 1 ∧
          c.nonceRetries < maxNonceRetries) := by
  unfold handleAuthError
  dsimp only
  split
  · split
    · exact ⟨Nat.le_refl _, nofun⟩
    · split
      · exact ⟨Nat.le_succ _, nofun⟩
      · exact ⟨Nat.le_succ _, fun _ => ⟨rfl, by omega⟩⟩
  · split
    · split
      · exact ⟨Nat.le_succ _, nofun⟩
      · exact ⟨Nat.le_succ _, fun _ => ⟨rfl, by omega⟩⟩
    · exact ⟨Nat.le_refl _, nofun⟩

/-- A response after which nothing is sent again sends nothing. -/
structure Refused (c d : Client) : Prop where
  out : ∃ later, d.out = c.out ++ later ∧ ∀ e ∈ later, isRequest e = false
  count : c.nonceRetries ≤ d.nonceRetries

theorem Refused.failAllocation {c d : Client} (h : Refused c d) (code : Nat) (reason : Bytes) :
    Refused c (d.failAllocation code reason) := by
  refine ⟨?_, by rw [failAllocation_nonceRetries]; exact h.count⟩
  obtain ⟨later, hout, hlater⟩ := h.out
  unfold Client.failAllocation
  split
  · exact ⟨later, hout, hlater⟩
  · refine ⟨later ++ [.onFailed code reason], ?_, ?_⟩
    · rw [← List.append_assoc, ← hout]
      rfl
    · intro e he
      obtain he | he := List.mem_append.mp he
      · exact hlater e he
      · rw [List.mem_singleton.mp he]
        rfl

theorem Refused.withAuth {c d : Client} (hout : d.out = c.out) {n : Nat} (hn : c.nonceRetries ≤ n)
    (creds : Option Credentials) : Refused c (d.withAuth creds n) :=
  ⟨⟨[], by rw [List.append_nil]; exact hout, nofun⟩, hn⟩

theorem refused_connect {m : Message} (peer : AddrRecord) :
    Refused c ({ c with pending := c.pending.erase m.transactionID.1 }.handleConnectResponse m
      true peer) := by
  refine ⟨⟨[.onConnectFailed (errorOf m).1 (errorOf m).2 peer], rfl, fun e he => ?_⟩, Nat.le_refl _⟩
  rw [List.mem_singleton.mp he]
  rfl

theorem refused {m : Message} {tx : PendingTx} {creds : Option Credentials} {n : Nat}
    (htx : c.pending[m.transactionID.1]? = some tx) (hcls : m.cls = .errorResponse)
    (hcode : (errorOf m).1 = 401 ∨ (errorOf m).1 = 438) (hn : c.nonceRetries ≤ n)
    (h : ∀ d : Client, d.cfg = c.cfg → d.creds = c.creds → d.nonceRetries = c.nonceRetries →
      d.handleAuthError m (errorOf m).1 (tx.kind ≠ .allocate) = (false, d.withAuth creds n)) :
    Refused c (c.handleStunResponse env m) := by
  unfold handleStunResponse
  simp only [htx, hcls, decide_true]
  cases hk : tx.kind with
  | allocate =>
    simp only [hk, ne_eq, not_true, decide_false] at h
    unfold handleAllocateResponse
    simp only [if_true, if_pos hcode]
    rw [h { c with pending := c.pending.erase m.transactionID.1 } rfl rfl rfl]
    refine .failAllocation (.withAuth ?_ hn _) _ _
    rfl
  | refresh =>
    simp only [hk, ne_eq, reduceCtorEq, not_false_eq_true, decide_true] at h
    unfold handleRefreshResponse
    simp only [if_true]
    rw [h { c with pending := c.pending.erase m.transactionID.1, refreshTidFresh := false }
      rfl rfl rfl]
    refine .failAllocation (.withAuth ?_ hn _) _ _
    rfl
  | createPermission peer =>
    simp only [hk, ne_eq, reduceCtorEq, not_false_eq_true, decide_true] at h
    unfold handleCreatePermissionResponse
    obtain ⟨bs, hbs, -⟩ := updated_withBinding
      { c with pending := c.pending.erase m.transactionID.1 } peer
      (f := .clearPermissionTid) fun _ h => h
    simp only [Bool.not_true, Bool.false_eq_true, if_false]
    rw [hbs, h { c with pending := c.pending.erase m.transactionID.1, bindings := bs } rfl rfl rfl]
    exact ⟨⟨[], (List.append_nil _).symm, nofun⟩, hn⟩
  | channelBind peer =>
    simp only [hk, ne_eq, reduceCtorEq, not_false_eq_true, decide_true] at h
    unfold handleChannelBindResponse
    obtain ⟨bs, hbs, -⟩ := updated_withBinding
      { c with pending := c.pending.erase m.transactionID.1 } peer
      (f := .clearChannelTid) fun _ h => h
    simp only [Bool.not_true, Bool.false_eq_true, if_false]
    have h400 : (errorOf m).1 ≠ 400 := by
      intro h400
      rw [h400] at hcode
      revert hcode
      decide
    rw [hbs, h { c with pending := c.pending.erase m.transactionID.1, bindings := bs } rfl rfl rfl]
    dsimp only
    rw [if_neg h400]
    refine .withAuth ?_ hn creds
    rfl
  | connect peer => exact refused_connect c peer

/-! ## Runs -/

theorem countP_drop_append {out later : List Effect} :
    ((out ++ later).drop out.length).countP isRequest = later.countP isRequest := by
  rw [List.drop_left]

/-- What a 401 or 438 sends again is paid for by the count. -/
theorem authRetries_step {e : Call} (h : c.authError e = true) :
    c.authRetries env e + c.nonceRetries ≤ (c.call env e).nonceRetries ∧
      (0 < c.authRetries env e → (c.call env e).nonceRetries ≤ maxNonceRetries) := by
  unfold authRetries
  rw [if_pos h]
  cases hr : c.responseOf e with
  | none => simp [authError, hr] at h
  | some x =>
    obtain ⟨m, tx⟩ := x
    simp only [authError, hr, Bool.and_eq_true, Bool.or_eq_true, decide_eq_true_eq] at h
    obtain ⟨hcls, hcode⟩ := h
    have htx := responseOf_pending hr
    rw [call_of_responseOf env hr]
    obtain ⟨hcount, hbudget⟩ := handleAuthError_count c m (errorOf m).1 (tx.kind ≠ .allocate)
    have hauth (d : Client) (hcfg : d.cfg = c.cfg) (hcreds : d.creds = c.creds)
        (hn : d.nonceRetries = c.nonceRetries) :=
      handleAuthError_congr c d m (errorOf m).1 (tx.kind ≠ .allocate) hcfg hcreds hn
    have hrefused (hr : Refused c (c.handleStunResponse env m)) :
        ((c.handleStunResponse env m).out.drop c.out.length).countP isRequest + c.nonceRetries ≤
          (c.handleStunResponse env m).nonceRetries ∧
        (0 < ((c.handleStunResponse env m).out.drop c.out.length).countP isRequest →
          (c.handleStunResponse env m).nonceRetries ≤ maxNonceRetries) := by
      obtain ⟨⟨later, hout, hlater⟩, hle⟩ := hr
      have hzero : later.countP isRequest = 0 := List.countP_eq_zero.mpr fun e he => by
        simp [hlater e he]
      rw [hout, countP_drop_append, hzero]
      exact ⟨by omega, fun h => absurd h (Nat.lt_irrefl 0)⟩
    cases hanswer : (c.handleAuthError m (errorOf m).1 (tx.kind ≠ .allocate)).1 with
    | false =>
      rw [hanswer] at hauth
      exact hrefused (refused env c htx hcls hcode hcount hauth)
    | true =>
      rw [hanswer] at hauth
      obtain ⟨hnext, hlt⟩ := hbudget hanswer
      by_cases hkind : ∃ peer, tx.kind = .connect peer
      · obtain ⟨peer, hk⟩ := hkind
        refine hrefused ?_
        unfold handleStunResponse
        simp only [htx, hcls, hk, decide_true]
        exact refused_connect c peer
      · obtain ⟨d, build, heq, hd, -⟩ := @retry_eq env c m tx _ _ htx
          (fun peer hk => hkind ⟨peer, hk⟩) hcls hcode hauth
        rw [heq, startTx_nonceRetries, hd.nonceRetries, hnext, startTx_eq, hd.out,
          countP_drop_append]
        have hone : (if d.hasSend then [Effect.send (txRequest env d build)] else []).countP
            isRequest ≤ 1 := by
          split
          · exact List.countP_le_length
          · exact Nat.zero_le _
        exact ⟨by omega, fun _ => by omega⟩

theorem otherError_nonceRetries {m : Message} (hcls : m.cls = .errorResponse)
    (h₁ : (errorOf m).1 ≠ 401) (h₂ : (errorOf m).1 ≠ 438) :
    (c.handleStunResponse env m).nonceRetries = c.nonceRetries := by
  unfold handleStunResponse
  split
  · rfl
  · rename_i tx _
    simp only [hcls, decide_true]
    cases tx.kind with
    | allocate => simp [handleAllocateResponse, h₁, h₂]
    | refresh => simp [handleRefreshResponse, handleAuthError_other h₁ h₂]
    | createPermission peer =>
      simp [handleCreatePermissionResponse, handleAuthError_other h₁ h₂]
    | channelBind peer =>
      simp only [handleChannelBindResponse, handleAuthError_other h₁ h₂, Bool.not_true,
        Bool.false_eq_true, if_false]
      split
      · split <;> simp [effect]
      · simp
    | connect peer => rfl

/-- Without a success the count only grows. -/
theorem nonceRetries_le {e : Call} (h : c.succeeded e = false) :
    c.authRetries env e + min c.nonceRetries maxNonceRetries ≤
      min (c.call env e).nonceRetries maxNonceRetries := by
  cases herror : c.authError e with
  | true =>
    obtain ⟨hstep, hmax⟩ := authRetries_step env c herror
    omega
  | false =>
    have hzero : c.authRetries env e = 0 := by rw [authRetries, herror]; rfl
    have hsame : (c.call env e).nonceRetries = c.nonceRetries := by
      cases hr : c.responseOf e with
      | none => exact call_nonceRetries env c hr
      | some x =>
        obtain ⟨m, tx⟩ := x
        obtain ⟨-, -, -, -, hcls, -⟩ := responseOf_some hr
        simp only [succeeded, hr, decide_eq_false_iff_not] at h
        have hcls := hcls.resolve_left h
        simp only [authError, hr, hcls, decide_true, Bool.true_and, Bool.or_eq_false_iff,
          decide_eq_false_iff_not] at herror
        rw [call_of_responseOf env hr]
        exact otherError_nonceRetries env c hcls herror.1 herror.2
    omega

theorem auth_retries_bounded (l : List (ClientEnv × Call)) (h : c.noSuccess l = true) :
    c.authRetriesIn l ≤ maxNonceRetries := by
  suffices hsum : c.authRetriesIn l + min c.nonceRetries maxNonceRetries ≤ maxNonceRetries by omega
  induction l generalizing c with
  | nil =>
    rw [authRetriesIn]
    omega
  | cons i l ih =>
    obtain ⟨env, e⟩ := i
    simp only [noSuccess, Bool.and_eq_true, Bool.not_eq_true'] at h
    have hstep := nonceRetries_le env c h.1
    have hrest := ih (c.call env e) h.2
    rw [authRetriesIn]
    omega

end

/-- The first 401 and then 438 after 438: the fourth is the end. -/
theorem auth_retries_bounded_stale :
    let l := [(oneId 0 0, .allocate),
      (oneId 0 1, .handleInbound (some (reply .allocate .errorResponse (numberedTid 0)
        (authAttrs 401 (ascii "a"))))), (oneId 0 2, answer438 .allocate 1),
      (oneId 0 3, answer438 .allocate 2), (oneId 0 4, answer438 .allocate 3)]
    smallClient.noSuccess l = true ∧ smallClient.authRetriesIn l = 3 ∧
      smallClient.authRetriesIn l ≤ maxNonceRetries := by
  intro l
  have hl : smallClient.noSuccess l = true := by decide +kernel
  exact ⟨hl, by decide +kernel, auth_retries_bounded smallClient l hl⟩

end Stice.Turn.Client
