import Stice.Lib.Reach
import Stice.Turn.ClientRules

/-! Runs of the TURN client: the phases of an allocation, the report of its failure,
what a client still sends after it has given the allocation up, and what the timer
does once the allocation has failed. -/
namespace Stice.Turn.Client
open Std Net Stun Lib

variable {out : List Effect} {env : ClientEnv} {c : Client}
variable {build : TransactionID → Message} {tx : PendingTx} {kind : TxKind} {k : Bytes}

def Fresh (c : Client) : Prop := ∃ cfg hasSend, c = init cfg hasSend

/-- One call with what it draws from outside. -/
def step (c : Client) (i : ClientEnv × Call) : Client := c.call i.1 i.2

/-- The states of the runs whose calls all meet `ok`. -/
def Runs (ok : Client → Call → Prop) : Client → Prop :=
  Reach Fresh (Guarded (fun c i => ok c i.2) step)

/-! ## Starting a transaction -/

theorem startTx_pending (h : (startTx env c kind build).pending[k]? = some tx) :
    tx.kind = kind ∧ tx.request = txRequest env c build ∨ c.pending[k]? = some tx := by
  rw [startTx_eq] at h
  obtain ⟨-, rfl⟩ | ⟨-, h⟩ := getElem?_insert_some h
  · exact .inl ⟨rfl, rfl⟩
  · exact .inr h

theorem startTx_out (env : ClientEnv) (c : Client) (kind : TxKind)
    (build : TransactionID → Message) :
    ∃ later, (startTx env c kind build).out = c.out ++ later ∧
      ∀ e ∈ later, e = .send (txRequest env c build) := by
  rw [startTx_eq]
  refine ⟨_, rfl, fun e he => ?_⟩
  split at he
  · exact List.mem_singleton.mp he
  · cases he

theorem startTx_bindings (env : ClientEnv) (d : Client) (kind : TxKind)
    (build : TransactionID → Message) : (startTx env d kind build).bindings = d.bindings := by
  rw [startTx_eq]

theorem startTx_state (env : ClientEnv) (c : Client) (kind : TxKind)
    (build : TransactionID → Message) :
    (startTx env c kind build).state = c.state ∧
      (startTx env c kind build).failedEmitted = c.failedEmitted := by
  rw [startTx_eq]
  exact ⟨rfl, rfl⟩

/-- `sendRefresh` is stopped by its guard or starts a transaction. -/
theorem sendRefresh_cases (env : ClientEnv) (c : Client) (lt : UInt32) :
    c.sendRefresh env lt = c ∨
      c.sendRefresh env lt =
        startTx env { c with refreshTidFresh := true, refreshAt := env.now + turnRtoMs } .refresh
          fun tid => addLifetime (request .refresh tid) lt := by
  unfold sendRefresh
  split
  · exact .inl rfl
  · exact .inr rfl

/-! ## Phases -/

/-- An Allocate transaction is pending only while the client allocates, and before
that nothing is under way that needs the allocation. -/
structure Phase (c : Client) : Prop where
  allocate : ∀ (k : Bytes) (tx : PendingTx), c.pending[k]? = some tx → tx.kind = .allocate →
    c.state = .allocating
  unique : ∀ (k₁ k₂ : Bytes) (tx₁ tx₂ : PendingTx), c.pending[k₁]? = some tx₁ →
    c.pending[k₂]? = some tx₂ → tx₁.kind = .allocate → tx₂.kind = .allocate → k₁ = k₂
  early : c.state = .idle ∨ c.state = .allocating → c.Early
  method : ∀ (k : Bytes) (tx : PendingTx), c.pending[k]? = some tx →
    tx.request.method = tx.kind.method

theorem Phase.calm {c c' : Client} (h : Phase c) (hc : Calm c c') : Phase c' := by
  have hold : ∀ (k : Bytes) (tx' : PendingTx), c'.pending[k]? = some tx' → tx'.kind = .allocate →
      ∃ tx, c.pending[k]? = some tx ∧ tx.kind = .allocate := by
    intro k tx' htx hk
    obtain ⟨tx, h₁, h₂, -⟩ | ⟨⟨peer, hp⟩, -⟩ := hc.pending k tx' htx
    · exact ⟨tx, h₁, h₂.symm.trans hk⟩
    · rw [hk] at hp
      obtain hp | hp := hp <;> cases hp
  refine ⟨fun k tx' htx hk => ?_, fun k₁ k₂ t₁ t₂ h₁ h₂ hk₁ hk₂ => ?_, fun hs => ?_,
    fun k tx' htx => ?_⟩
  · obtain ⟨tx, htx, hk⟩ := hold k tx' htx hk
    rw [hc.state]
    exact h.allocate k tx htx hk
  · obtain ⟨t₁, h₁, hk₁⟩ := hold k₁ t₁ h₁ hk₁
    obtain ⟨t₂, h₂, hk₂⟩ := hold k₂ t₂ h₂ hk₂
    exact h.unique k₁ k₂ t₁ t₂ h₁ h₂ hk₁ hk₂
  · rw [hc.state] at hs
    exact hc.early hs (h.early hs)
  · obtain ⟨tx, h₁, h₂, h₃⟩ | ⟨-, hm⟩ := hc.pending k tx' htx
    · rw [h₂, h₃]
      exact h.method k tx h₁
    · exact hm

/-- Outside the early phases no Allocate transaction is pending. -/
theorem Phase.settled (h : Phase c) (hs : c.state ≠ .allocating) (k : Bytes)
    (tx : PendingTx) (htx : c.pending[k]? = some tx) : tx.kind ≠ .allocate :=
  fun hk => hs (h.allocate k tx htx hk)

/-- A client in a late phase with only late transactions. -/
theorem Phase.of_late (hs : c.state ≠ .idle ∧ c.state ≠ .allocating)
    (hpending : ∀ (k : Bytes) (tx : PendingTx), c.pending[k]? = some tx →
      tx.kind ≠ .allocate ∧ tx.request.method = tx.kind.method) : Phase c where
  allocate k tx htx hk := absurd hk (hpending k tx htx).1
  unique k₁ _ t₁ _ h₁ _ hk₁ _ := absurd hk₁ (hpending k₁ t₁ h₁).1
  early h := h.elim (absurd · hs.1) (absurd · hs.2)
  method k tx htx := (hpending k tx htx).2

theorem Phase.startTx (h : Phase c) (hs : c.state ≠ .idle ∧ c.state ≠ .allocating)
    (hkind : kind ≠ .allocate) (hmethod : ∀ tid, (build tid).method = kind.method) :
    Phase (startTx env c kind build) := by
  refine .of_late ?_ fun k tx htx => ?_
  · rw [(startTx_state env c kind build).1]
    exact hs
  · obtain ⟨hk, hr⟩ | htx := startTx_pending htx
    · rw [hk, hr, txRequest_method, hmethod]
      exact ⟨hkind, rfl⟩
    · exact ⟨h.settled hs.2 k tx htx, h.method k tx htx⟩

theorem Phase.sendRefresh (h : Phase c) (hs : c.state ≠ .idle ∧ c.state ≠ .allocating)
    (lt : UInt32) : Phase (c.sendRefresh env lt) := by
  have hc : Phase { c with refreshTidFresh := true, refreshAt := env.now + turnRtoMs } :=
    h.calm (.of_eq rfl rfl (fun _ _ h => h) rfl rfl)
  obtain heq | heq := sendRefresh_cases env c lt <;> rw [heq]
  · exact h
  · exact hc.startTx hs (by simp) fun _ => rfl

theorem sendRefresh_state (env : ClientEnv) (c : Client) (lt : UInt32) :
    (c.sendRefresh env lt).state = c.state := by
  obtain heq | heq := sendRefresh_cases env c lt <;> rw [heq]
  rw [(startTx_state ..).1]

theorem Phase.failAllocation (h : Phase c) (code : Nat) (reason : Bytes) :
    Phase (c.failAllocation code reason) := by
  unfold Client.failAllocation
  split
  · exact h
  · refine .of_late ⟨by simp [effect], by simp [effect]⟩ fun k tx htx => ?_
    simp [effect] at htx

theorem Phase.allocate_call (h : Phase c) (hs : c.state = .idle) : Phase (c.allocate env) := by
  have hnone := h.settled (by simp [hs])
  have he := h.early (.inl hs)
  unfold Client.allocate
  rw [if_neg (by simp [hs])]
  refine ⟨fun k tx htx hk => (startTx_state ..).1, fun k₁ k₂ t₁ t₂ h₁ h₂ hk₁ hk₂ => ?_,
    fun _ => ?_, fun k tx htx => ?_⟩
  · rw [startTx_eq] at h₁ h₂
    obtain ⟨rfl, -⟩ | ⟨-, h₁⟩ := getElem?_insert_some h₁
    · obtain ⟨rfl, -⟩ | ⟨-, h₂⟩ := getElem?_insert_some h₂
      · rfl
      · exact absurd hk₂ (hnone k₂ t₂ h₂)
    · exact absurd hk₁ (hnone k₁ t₁ h₁)
  · refine ⟨fun k tx htx => ?_, by rw [startTx_eq]; exact he.bindings⟩
    obtain ⟨hk, -⟩ | htx := startTx_pending htx
    · exact .inl hk
    · exact he.pending k tx htx
  · obtain ⟨hk, hr⟩ | htx := startTx_pending htx
    · rw [hk, hr, txRequest_method]
      rfl
    · exact h.method k tx htx

theorem phase_steps : Steps fun c c' => Phase c → Phase c' where
  trans h₁ h₂ h := h₂ (h₁ h)
  calm hc h := h.calm hc
  fail _ code reason h := h.failAllocation code reason
  allocate _ _ hs h := h.allocate_call hs
  refresh _ _ lt hs h := h.sendRefresh (by simp [hs]) lt
  deallocate env c hs h := by
    have hc : Phase { c with refreshTidFresh := false } :=
      h.calm (.of_eq rfl rfl (fun _ _ h => h) rfl rfl)
    have hr : Phase (sendRefresh env { c with refreshTidFresh := false } 0) :=
      hc.sendRefresh (by simp [hs]) 0
    have hstate : (sendRefresh env { c with refreshTidFresh := false } 0).state = .allocated :=
      (sendRefresh_state ..).trans hs
    unfold Client.deallocate
    rw [if_neg (by simp [hs])]
    exact .of_late (by simp) fun k tx htx =>
      ⟨hr.settled (by simp [hstate]) k tx htx, hr.method k tx htx⟩
  connect env c peer hs h := by
    unfold sendConnect
    rw [if_neg (by simp [hs])]
    exact h.startTx (by simp [hs]) (by simp) fun _ => rfl

/-- A transaction that is neither Allocate nor CreatePermission is past the early
phases. -/
theorem Phase.late (h : Phase c) (htx : c.pending[k]? = some tx) (h₁ : tx.kind ≠ .allocate)
    (h₂ : ∀ peer, tx.kind ≠ .createPermission peer) : c.state ≠ .idle ∧ c.state ≠ .allocating := by
  have hno : ¬ c.Early := fun he => (he.pending k tx htx).elim h₁ fun ⟨peer, hp⟩ => h₂ peer hp
  exact ⟨fun hs => hno (h.early (.inl hs)), fun hs => hno (h.early (.inr hs))⟩

/-- The Allocate transaction that was answered was the only one. -/
theorem Phase.erased (h : Phase c) (htx : c.pending[k]? = some tx) (hk : tx.kind = .allocate)
    (k' : Bytes) (tx' : PendingTx) (htx' : (c.pending.erase k)[k']? = some tx') :
    tx'.kind ≠ .allocate := by
  obtain ⟨hne, htx'⟩ := getElem?_erase_some htx'
  exact fun hk' => hne (h.unique k' k tx' tx htx' htx hk' hk)

theorem phase_call (env : ClientEnv) (c : Client) (e : Call) (h : Phase c) :
    Phase (c.call env e) := by
  refine phase_steps.call env c e ?_ ?_ ?_ ?_ h
  · intro m tx hr hk h
    have htx := responseOf_pending hr
    have hnone := h.erased htx hk
    refine ⟨fun k tx' h' hk' => absurd hk' (hnone k tx' h'),
      fun k₁ _ t₁ _ h₁ _ hk₁ _ => absurd hk₁ (hnone k₁ t₁ h₁), fun _ => ?_,
      fun k tx' h' => h.method k tx' (getElem?_erase_some h').2⟩
    have he := h.early (.inr (h.allocate _ _ htx hk))
    exact ⟨fun k tx' h' => he.pending k tx' (getElem?_erase_some h').2, he.bindings⟩
  · intro m tx hr hk relayed lt h
    have htx := responseOf_pending hr
    exact .of_late (by simp [effect]) fun k tx' h' =>
      ⟨h.erased htx hk k tx' h', h.method k tx' (getElem?_erase_some h').2⟩
  · intro m tx hr hk _ _ c' lt hc h
    have hs := h.late (responseOf_pending hr) (by simp [hk]) (by simp [hk])
    exact (h.calm hc).sendRefresh (by rw [hc.state]; exact hs) lt
  · intro m tx peer hr hk _ _ _ c' reason hc h
    have hs := h.late (responseOf_pending hr) (by simp [hk]) (by simp [hk])
    have hc' := h.calm hc
    exact .of_late (by simp [effect]) fun k tx' h' =>
      ⟨hc'.settled (by rw [hc.state]; exact hs.2) k tx' h', hc'.method k tx' h'⟩

theorem Fresh.phase (h : Fresh c) : Phase c := by
  obtain ⟨cfg, hasSend, rfl⟩ := h
  refine ⟨fun k tx h => ?_, fun k _ tx _ h => ?_, fun _ => ⟨fun k tx h => ?_, fun _ h => nomatch h⟩,
    fun k tx h => ?_⟩
  all_goals simp [init] at h

theorem Runs.phase {ok : Client → Call → Prop} {c : Client} (h : Runs ok c) : Phase c := by
  refine Reach.invariant (P := Phase) (fun _ hc => hc.phase) ?_ h
  rintro s i t hs ⟨-, rfl⟩
  exact phase_call i.1 s i.2 hs

/-! ## The report of a failure -/

def isFailed : Effect → Bool
  | .onFailed .. => true
  | _ => false

def isAllocated : Effect → Bool
  | .onAllocated .. => true
  | _ => false

/-- After the failure is reported there is no second report and no allocation. -/
def ReportedOnce (out : List Effect) : Prop :=
  out.Pairwise fun a b => isFailed a = true → isFailed b = false ∧ isAllocated b = false

instance (out : List Effect) : Decidable (ReportedOnce out) :=
  inferInstanceAs (Decidable (List.Pairwise _ out))

/-- An error response 400 to the first ChannelBind of a binding. -/
def badBind (c : Client) (e : Call) : Bool :=
  match c.responseOf e with
  | some (m, ⟨.channelBind peer, _, _, _⟩) =>
      m.cls = .errorResponse && (errorOf m).1 = 400 && !(c.getBinding peer).channelReady
  | _ => false

/-- The flag `failedEmitted` is set with the report, and the client stays without an
Allocate transaction from then on. -/
structure Report (c : Client) : Prop where
  once : ReportedOnce c.out
  silent : c.failedEmitted = false → ∀ e ∈ c.out, isFailed e = false
  failed : c.failedEmitted = true → c.state = .failed
  settled : c.failedEmitted = true → ∀ (k : Bytes) (tx : PendingTx), c.pending[k]? = some tx →
    tx.kind ≠ .allocate

theorem ReportedOnce.append {out later : List Effect} (h : ReportedOnce out)
    (hlater : ∀ e ∈ later, isFailed e = false ∧ isAllocated e = false) :
    ReportedOnce (out ++ later) := by
  refine List.pairwise_append.mpr ⟨h, ?_, fun _ _ b hb _ => hlater b hb⟩
  refine List.pairwise_iff_forall_sublist.mpr fun {a b} hab hf => ?_
  simp [(hlater a (hab.subset List.mem_cons_self)).1] at hf

/-- What adds no verdict to the log. -/
theorem Report.extend {c c' : Client} (h : Report c) {later : List Effect}
    (hout : c'.out = c.out ++ later)
    (hlater : ∀ e ∈ later, isFailed e = false ∧ isAllocated e = false)
    (hemitted : c'.failedEmitted = c.failedEmitted)
    (hfailed : c.failedEmitted = true → c'.state = .failed ∧
      ∀ (k : Bytes) (tx : PendingTx), c'.pending[k]? = some tx → tx.kind ≠ .allocate) :
    Report c' := by
  refine ⟨by rw [hout]; exact h.once.append hlater, fun he e hm => ?_, fun he => ?_, fun he => ?_⟩
  · rw [hout] at hm
    obtain hm | hm := List.mem_append.mp hm
    · exact h.silent (hemitted.symm.trans he) e hm
    · exact (hlater e hm).1
  · exact (hfailed (hemitted.symm.trans he)).1
  · exact (hfailed (hemitted.symm.trans he)).2

theorem Report.not_emitted (h : Report c) (hs : c.state ≠ .failed) : c.failedEmitted ≠ true :=
  fun he => hs (h.failed he)

theorem Minor.verdict {e : Effect} (h : c.Minor e) :
    isFailed e = false ∧ isAllocated e = false := by
  cases e with
  | onAllocated => exact h.elim
  | onFailed => exact h.elim
  | _ => exact ⟨rfl, rfl⟩

theorem Report.calm {c c' : Client} (h : Report c) (hc : Calm c c') : Report c' := by
  obtain ⟨later, hout, hm⟩ := hc.out
  refine h.extend hout (fun e he => Minor.verdict (hm e he)) hc.failedEmitted fun he => ?_
  refine ⟨hc.state.trans (h.failed he), fun k tx htx => ?_⟩
  obtain ⟨tx₀, h₀, hk, -⟩ | ⟨⟨peer, hk⟩, -⟩ := hc.pending k tx htx
  · rw [hk]
    exact h.settled he k tx₀ h₀
  · intro hk'
    rw [hk'] at hk
    obtain hk | hk := hk <;> cases hk

theorem Report.startTx (h : Report c) (hkind : c.failedEmitted = true → kind ≠ .allocate) :
    Report (startTx env c kind build) := by
  obtain ⟨later, hout, hsend⟩ := startTx_out env c kind build
  have hstate := startTx_state env c kind build
  refine h.extend hout (fun e he => by rw [hsend e he]; exact ⟨rfl, rfl⟩) hstate.2 fun he => ?_
  refine ⟨hstate.1.trans (h.failed he), fun k tx htx => ?_⟩
  obtain ⟨hk, -⟩ | htx := startTx_pending htx
  · rw [hk]
    exact hkind he
  · exact h.settled he k tx htx

theorem Report.sendRefresh (h : Report c) (lt : UInt32) : Report (c.sendRefresh env lt) := by
  have hc : Report { c with refreshTidFresh := true, refreshAt := env.now + turnRtoMs } :=
    h.calm (.of_eq rfl rfl (fun _ _ h => h) rfl rfl)
  obtain heq | heq := sendRefresh_cases env c lt <;> rw [heq]
  · exact h
  · exact hc.startTx fun _ => by simp

/-- A change of state while nothing has been reported. -/
theorem Report.restate (h : Report c) (hc : c.failedEmitted ≠ true)
    (pending : TreeMap Bytes PendingTx) (state : AllocState) :
    Report { c with pending := pending, state := state } :=
  ⟨h.once, h.silent, fun he => absurd he hc, fun he => absurd he hc⟩

theorem Report.failAllocation (h : Report c) (code : Nat) (reason : Bytes) :
    Report (c.failAllocation code reason) := by
  unfold Client.failAllocation
  split
  · exact h
  · rename_i he
    have hsilent := h.silent (by simpa using he)
    refine ⟨?_, fun he => (by cases he), fun _ => rfl, fun _ k tx htx => ?_⟩
    · refine List.pairwise_append.mpr ⟨h.once, List.pairwise_singleton _ _, fun a ha b _ hf => ?_⟩
      simp [hsilent a ha] at hf
    · simp [effect] at htx

theorem Report.allocated (h : Report c) (hc : c.failedEmitted ≠ true)
    (relayed : AddrRecord) (lt : UInt32) : Report (c.effect (.onAllocated relayed lt)) := by
  have hsilent := h.silent (by simpa using hc)
  refine ⟨?_, fun he e hm => ?_, fun he => absurd he hc, fun he => absurd he hc⟩
  · refine List.pairwise_append.mpr ⟨h.once, List.pairwise_singleton _ _, fun a ha b _ hf => ?_⟩
    simp [hsilent a ha] at hf
  · obtain hm | hm := List.mem_append.mp hm
    · exact hsilent e hm
    · rw [List.mem_singleton.mp hm]
      rfl

theorem report_steps : Steps fun c c' => Report c → Report c' where
  trans h₁ h₂ h := h₂ (h₁ h)
  calm hc h := h.calm hc
  fail _ code reason h := h.failAllocation code reason
  allocate env c hs h := by
    have hc := h.not_emitted (by simp [hs])
    unfold Client.allocate
    rw [if_neg (by simp [hs])]
    exact (h.restate hc c.pending .allocating).startTx fun he => absurd he hc
  refresh _ _ lt _ h := h.sendRefresh lt
  deallocate env c hs h := by
    have hc : Report { c with refreshTidFresh := false } :=
      h.calm (.of_eq rfl rfl (fun _ _ h => h) rfl rfl)
    have hr : Report (sendRefresh env { c with refreshTidFresh := false } 0) := hc.sendRefresh 0
    have hstate : (sendRefresh env { c with refreshTidFresh := false } 0).state = .allocated :=
      (sendRefresh_state ..).trans hs
    unfold Client.deallocate
    rw [if_neg (by simp [hs])]
    exact hr.restate (hr.not_emitted (by simp [hstate])) _ .deallocated
  connect env c peer hs h := by
    unfold sendConnect
    rw [if_neg (by simp [hs])]
    exact h.startTx fun _ => by simp

theorem report_call (env : ClientEnv) (c : Client) (e : Call) (hok : c.badBind e = false)
    (h : Report c) : Report (c.call env e) := by
  refine report_steps.call env c e ?_ ?_ ?_ ?_ h
  · intro m tx hr hk h
    exact h.restate (fun he => h.settled he _ _ (responseOf_pending hr) hk) _ _
  · intro m tx hr hk relayed lt h
    have hc : c.failedEmitted ≠ true := fun he => h.settled he _ _ (responseOf_pending hr) hk
    exact (h.restate hc _ .allocated).allocated hc relayed lt
  · intro m tx _ _ _ _ c' lt hc h
    exact (h.calm hc).sendRefresh lt
  · intro m tx peer hr hk hcls hcode hready
    obtain ⟨kind, _, _, _⟩ := tx
    cases hk
    simp [badBind, hr, hcls, hcode, hready] at hok

/-- Unless the first ChannelBind of a binding is answered by 400, the failure of the
allocation is reported at most once, and no allocation is reported after it. -/
theorem failure_reported_once {c : Client} (h : Runs (fun c e => c.badBind e = false) c) :
    ReportedOnce c.out := by
  refine (Reach.invariant (P := Report) ?_ ?_ h).once
  · rintro _ ⟨cfg, hasSend, rfl⟩
    exact ⟨.nil, (fun _ _ h => nomatch h), (fun h => nomatch h), (fun h => nomatch h)⟩
  · rintro s i t hs ⟨hok, rfl⟩
    exact report_call i.1 s i.2 hok hs

/-- A response without credentials. -/
def reply (method : Method) (cls : Stun.Class) (tid : TransactionID) (attrs : Bytes) : Bytes :=
  header (encodeType method cls) (UInt16.ofNat attrs.length) tid ++ attrs

def errorAttr (code : Nat) : Bytes :=
  appendAttr [] .errorCode [0, 0, (code / 100).toUInt8, (code % 100).toUInt8]

def numberedTid (n : Nat) : TransactionID := ⟨List.replicate 12 n.toUInt8, by simp⟩

/-- Transaction ids are numbered, and every send succeeds. -/
def clientEnv (now : Int) : ClientEnv := ⟨now, numberedTid, fun _ _ => 0, fun _ => 1⟩

def smallClient : Client := init ⟨ascii "u", ascii "p", .udp, 600, false⟩ true

def peerA : AddrRecord := ⟨.v4 192 168 0 9, 6000, .dgram⟩

/-- An allocation, with the relayed address 10.0.0.1:49152. -/
def allocation : List (ClientEnv × Call) :=
  [(clientEnv 0, .allocate),
    (clientEnv 0, .handleInbound (some (reply .allocate .successResponse (numberedTid 0)
      (appendAttr [] .xorRelayedAddress
        (encodeXorAddr ⟨.v4 10 0 0 1, 49152, .dgram⟩ (numberedTid 0))))))]

theorem failure_reported_once_transport_lost :
    ∃ c, checkedRun (fun c i => !c.badBind i.2) step smallClient
        (allocation ++ [(clientEnv 0, .handleInbound none), (clientEnv 0, .handleInbound none)]) =
          some c ∧
      (c.out.filter isFailed).length = 1 ∧ ReportedOnce c.out := by
  have hrun : (checkedRun (fun c i => !c.badBind i.2) step smallClient
      (allocation ++ [(clientEnv 0, .handleInbound none), (clientEnv 0, .handleInbound none)])).map
        (fun c => (c.out.filter isFailed).length) = some 1 := by
    decide +kernel
  obtain ⟨c, hc, hlen⟩ := Option.map_eq_some_iff.mp hrun
  have hreach : Runs (fun c e => c.badBind e = false) c :=
    Reach.of_checkedRun Fresh (fun c i h => by simpa using h) (.start ⟨_, _, rfl⟩) hc
  exact ⟨c, hc, hlen, failure_reported_once hreach⟩

/-- The first ChannelBind is answered by 400 while a Refresh is under way, and then the
Refresh by 437. -/
def twoErrors : List (ClientEnv × Call) :=
  allocation ++
    [(clientEnv 0, .sendData peerA [1]),
      (clientEnv 0, .handleInbound (some (reply .createPermission .successResponse
        (numberedTid 1) []))),
      (clientEnv 300000, .tick),
      (clientEnv 300000, .handleInbound (some (reply .channelBind .errorResponse
        (numberedTid 3) (errorAttr 400)))),
      (clientEnv 300000, .handleInbound (some (reply .refresh .errorResponse
        (numberedTid 4) (errorAttr 437))))]

theorem failure_reported_twice :
    ¬ ReportedOnce (twoErrors.foldl step smallClient).out ∧
      ((twoErrors.foldl step smallClient).out.filter isFailed).length = 2 := by
  decide +kernel

/-! ## After deallocation -/

/-- An error response 401 or 438 to a Refresh transaction. -/
def retriesRefresh (c : Client) (e : Call) : Bool :=
  match c.responseOf e with
  | some (m, ⟨.refresh, _, _, _⟩) =>
      m.cls = .errorResponse && ((errorOf m).1 = 401 || (errorOf m).1 = 438)
  | _ => false

/-- No Refresh but one that ends the allocation. -/
def EndsOnly (m : Message) : Prop := m.method = .refresh → readLifetime m = some 0

/-- Nothing the client has or has sent since `out` keeps the allocation alive. -/
structure GivenUp (out : List Effect) (c : Client) : Prop where
  state : c.state = .deallocated ∨ c.state = .failed
  pending : ∀ (k : Bytes) (tx : PendingTx), c.pending[k]? = some tx →
    tx.kind ≠ .allocate ∧ EndsOnly tx.request
  sent : ∃ later, c.out = out ++ later ∧ ∀ m, .send m ∈ later → EndsOnly m

theorem GivenUp.extend {c c' : Client} (h : GivenUp out c)
    (hstate : c'.state = .deallocated ∨ c'.state = .failed)
    (hpending : ∀ (k : Bytes) (tx : PendingTx), c'.pending[k]? = some tx →
      tx.kind ≠ .allocate ∧ EndsOnly tx.request)
    (hout : ∃ later, c'.out = c.out ++ later ∧ ∀ m, .send m ∈ later → EndsOnly m) :
    GivenUp out c' := by
  obtain ⟨l₁, h₁, hm₁⟩ := h.sent
  obtain ⟨l₂, h₂, hm₂⟩ := hout
  refine ⟨hstate, hpending, l₁ ++ l₂, by rw [h₂, h₁, List.append_assoc], fun m hm => ?_⟩
  obtain hm | hm := List.mem_append.mp hm
  · exact hm₁ m hm
  · exact hm₂ m hm

theorem GivenUp.calm {c c' : Client} (h : GivenUp out c) (hc : Calm c c') : GivenUp out c' := by
  refine h.extend (by rw [hc.state]; exact h.state) (fun k tx htx => ?_) ?_
  · obtain ⟨tx₀, h₀, hk, hr⟩ | ⟨⟨peer, hk⟩, hm⟩ := hc.pending k tx htx
    · rw [hk, hr]
      exact h.pending k tx₀ h₀
    · -- a request for a peer is not a Refresh
      unfold EndsOnly
      rw [hm, TxKind.method_eq_refresh]
      obtain hk | hk := hk <;> simp [hk]
  · obtain ⟨later, hout, hminor⟩ := hc.out
    refine ⟨later, hout, fun m hm hr => ?_⟩
    obtain hp | hp | hp | ⟨k, tx, htx, rfl⟩ := hminor _ hm
    · exact absurd (hr.symm.trans hp) (by decide)
    · exact absurd (hr.symm.trans hp) (by decide)
    · exact absurd (hr.symm.trans hp) (by decide)
    · exact (h.pending k tx htx).2 hr

theorem GivenUp.failAllocation (h : GivenUp out c) (code : Nat)
    (reason : Bytes) : GivenUp out (c.failAllocation code reason) := by
  unfold Client.failAllocation
  split
  · exact h
  · refine h.extend (.inr rfl) (fun k tx htx => ?_) ⟨_, rfl, fun m hm => ?_⟩
    · simp [effect] at htx
    · simp at hm

theorem givenUp_steps (out : List Effect) :
    Steps fun c c' => GivenUp out c → GivenUp out c' where
  trans h₁ h₂ h := h₂ (h₁ h)
  calm hc h := h.calm hc
  fail _ code reason h := h.failAllocation code reason
  allocate _ _ hs h := by simpa [hs] using h.state
  refresh _ _ _ hs h := by simpa [hs] using h.state
  deallocate _ _ hs h := by simpa [hs] using h.state
  connect _ _ _ hs h := by simpa [hs] using h.state

theorem givenUp_call (env : ClientEnv) (c : Client) (e : Call)
    (hok : c.retriesRefresh e = false) (h : GivenUp out c) : GivenUp out (c.call env e) := by
  refine (givenUp_steps out).call env c e ?_ ?_ ?_ ?_ h
  · intro m tx hr hk h
    exact absurd hk (h.pending _ _ (responseOf_pending hr)).1
  · intro m tx hr hk _ _ h
    exact absurd hk (h.pending _ _ (responseOf_pending hr)).1
  · intro m tx hr hk hcls hcode
    obtain ⟨kind, _, _, _⟩ := tx
    cases hk
    obtain hcode | hcode := hcode <;> simp [retriesRefresh, hr, hcls, hcode] at hok
  · intro m tx peer _ _ _ _ _ c' reason hc h
    have hc' := h.calm hc
    exact hc'.extend (.inr rfl) hc'.pending ⟨_, rfl, fun m hm => by simp at hm⟩

theorem endsOnly_refresh (env : ClientEnv) (c : Client) :
    EndsOnly (txRequest env c fun tid => addLifetime (request .refresh tid) 0) := by
  intro _
  unfold readLifetime Message.find txRequest
  rw [encodeRequest_attributes]
  rfl

theorem GivenUp.deallocate (hc : Phase c) (hs : c.state = .allocated)
    (hnone : ∀ (k : Bytes) (tx : PendingTx), c.pending[k]? = some tx → tx.kind ≠ .refresh)
    (env : ClientEnv) : GivenUp c.out (c.deallocate env) := by
  have hold : ∀ (k : Bytes) (tx : PendingTx), c.pending[k]? = some tx →
      tx.kind ≠ .allocate ∧ EndsOnly tx.request := by
    intro k tx htx
    refine ⟨hc.settled (by simp [hs]) k tx htx, fun hm => absurd ?_ (hnone k tx htx)⟩
    exact TxKind.method_eq_refresh.mp ((hc.method k tx htx).symm.trans hm)
  unfold Client.deallocate Client.sendRefresh
  rw [if_neg (by simp [hs]), if_neg (by simp)]
  refine ⟨.inl rfl, fun k tx htx => ?_, ?_⟩
  · obtain ⟨hk, hr⟩ | htx := startTx_pending htx
    · rw [hk, hr]
      exact ⟨by simp, endsOnly_refresh env _⟩
    · exact hold k tx htx
  · obtain ⟨later, hout, hsend⟩ := startTx_out env { c with
      refreshTidFresh := true, refreshAt := env.now + turnRtoMs } .refresh
        fun tid => addLifetime (request .refresh tid) 0
    refine ⟨later, hout, fun m hm => ?_⟩
    rw [Effect.send.inj (hsend _ hm)]
    exact endsOnly_refresh env _

/-- Once it has given up an allocation without a Refresh under way, and as long as no
Refresh is answered by 401 or 438, a client sends no Refresh that prolongs it. -/
theorem no_refresh_after_deallocate {c c' : Client} (h : Runs (fun _ _ => True) c)
    (hs : c.state = .allocated)
    (hnone : ∀ (k : Bytes) (tx : PendingTx), c.pending[k]? = some tx → tx.kind ≠ .refresh)
    (env : ClientEnv)
    (hrun : Reach (· = c.deallocate env) (Guarded (fun c i => c.retriesRefresh i.2 = false) step)
      c') :
    ∃ later, c'.out = c.out ++ later ∧
      ∀ m, .send m ∈ later → m.method = .refresh → readLifetime m = some 0 := by
  refine (Reach.invariant (P := GivenUp c.out) ?_ ?_ hrun).sent
  · rintro _ rfl
    exact .deallocate h.phase hs hnone env
  · rintro s i t hg ⟨hok, rfl⟩
    exact givenUp_call i.1 s i.2 hok hg

theorem runs_foldl (l : List (ClientEnv × Call)) :
    Runs (fun _ _ => True) (l.foldl step smallClient) := by
  suffices h : ∀ c, Runs (fun _ _ => True) c → Runs (fun _ _ => True) (l.foldl step c) from
    h _ (.start ⟨_, _, rfl⟩)
  induction l with
  | nil => exact fun c h => h
  | cons i l ih => exact fun c h => ih _ (.next i h ⟨trivial, rfl⟩)

/-- The lifetime of a Refresh request. -/
def refreshLifetime : Effect → Option (Option UInt32)
  | .send m => if m.method = .refresh then some (readLifetime m) else none
  | _ => none

/-- The Refresh that ends the allocation is sent again and then answered. -/
theorem no_refresh_after_deallocate_answered :
    let c := allocation.foldl step smallClient
    ∃ c', checkedRun (fun c i => !c.retriesRefresh i.2) step (c.deallocate (clientEnv 0))
        [(clientEnv 200, .tick), (clientEnv 400, .handleInbound (some (reply .refresh
          .successResponse (numberedTid 1) []))), (clientEnv 1000000, .tick)] = some c' ∧
      c'.out.filterMap refreshLifetime = [some 0, some 0] ∧
      ∃ later, c'.out = c.out ++ later ∧
        ∀ m, .send m ∈ later → m.method = .refresh → readLifetime m = some 0 := by
  intro c
  have hrun : (checkedRun (fun c i => !c.retriesRefresh i.2) step (c.deallocate (clientEnv 0))
      [(clientEnv 200, .tick), (clientEnv 400, .handleInbound (some (reply .refresh
        .successResponse (numberedTid 1) []))), (clientEnv 1000000, .tick)]).map
      (fun c => c.out.filterMap refreshLifetime) = some [some 0, some 0] := by
    decide +kernel
  obtain ⟨c', hc', hsent⟩ := Option.map_eq_some_iff.mp hrun
  have hempty : c.pending.isEmpty = true := by decide +kernel
  refine ⟨c', hc', hsent, no_refresh_after_deallocate (runs_foldl allocation) (by decide +kernel)
    (fun k tx htx => ?_) (clientEnv 0) (Reach.of_checkedRun _ ?_ (.start rfl) hc')⟩
  · rw [TreeMap.getElem?_of_isEmpty hempty] at htx
    cases htx
  · exact fun c i h => by simpa using h

/-- The Refresh of `deallocate` is answered by 438. -/
def staleDeallocation : List (ClientEnv × Call) :=
  allocation ++ [(clientEnv 0, .deallocate),
    (clientEnv 0, .handleInbound (some (reply .refresh .errorResponse (numberedTid 1)
      (errorAttr 438))))]

/-- A Refresh is under way when the allocation is given up. -/
def lateDeallocation : List (ClientEnv × Call) :=
  allocation ++ [(clientEnv 300000, .tick), (clientEnv 300100, .deallocate),
    (clientEnv 300200, .tick)]

theorem refresh_after_deallocate :
    (staleDeallocation.foldl step smallClient).state = .deallocated ∧
      (staleDeallocation.foldl step smallClient).out.filterMap refreshLifetime =
        [some 0, some 600] ∧
      (lateDeallocation.foldl step smallClient).out.filterMap refreshLifetime =
        [some 600, some 0, some 600] := by
  decide +kernel

/-! ## After a failure -/

theorem failAllocation_state (hs : c.state = .failed) (code : Nat) (reason : Bytes) :
    (c.failAllocation code reason).state = .failed := by
  unfold failAllocation
  split
  · exact hs
  · rfl

theorem failed_steps : Steps fun c c' => c.state = .failed → c'.state = .failed where
  trans h₁ h₂ h := h₂ (h₁ h)
  calm hc h := hc.state.trans h
  fail _ code reason h := failAllocation_state h code reason
  allocate _ _ hs h := by simp [hs] at h
  refresh _ _ _ hs h := by simp [hs] at h
  deallocate _ _ hs h := by simp [hs] at h
  connect _ _ _ hs h := by simp [hs] at h

/-- A failed client stays failed: no Allocate transaction is pending any more. -/
theorem failed_call (env : ClientEnv) (c : Client) (e : Call) (h : Phase c)
    (hs : c.state = .failed) : (c.call env e).state = .failed := by
  refine failed_steps.call env c e ?_ ?_ ?_ ?_ hs
  · intro m tx hr hk
    exact absurd hk (h.settled (by simp [hs]) _ _ (responseOf_pending hr))
  · intro m tx hr hk
    exact absurd hk (h.settled (by simp [hs]) _ _ (responseOf_pending hr))
  · intro m tx _ _ _ _ c' lt hc _
    exact (sendRefresh_state ..).trans (hc.state.trans hs)
  · intros
    rfl

/-- From `c` to `c'` no transaction was started and nothing was sent. -/
structure Quiet (c c' : Client) : Prop where
  pending : ∀ (k : Bytes) (tx' : PendingTx), c'.pending[k]? = some tx' →
    ∃ tx : PendingTx, c.pending[k]? = some tx ∧ tx'.kind = tx.kind ∧ tx'.request = tx.request
  out : ∃ later, c'.out = c.out ++ later ∧ ∀ e ∈ later, isSent e = false

/-- No transaction is to be sent again, no permission or channel to be refreshed and no
buffered data to be sent. -/
structure NothingDue (env : ClientEnv) (c : Client) : Prop where
  pending : ∀ (k : Bytes) (tx : PendingTx), c.pending[k]? = some tx →
    env.now < tx.nextRetransmitAt ∨ turnMaxRtxCount ≤ tx.retries ∨ c.cfg.transport ≠ .udp
  permission : ∀ b ∈ c.bindings, b.permissionPermitted = true →
    env.now < b.permissionRefreshAt ∧ b.pendingData = []
  channel : ∀ b ∈ c.bindings, b.channelReady = true → env.now < b.channelRefreshAt

theorem Quiet.trans {a b c : Client} (hab : Quiet a b) (hbc : Quiet b c) : Quiet a c := by
  refine ⟨fun k tx h => ?_, ?_⟩
  · obtain ⟨tx₁, h₁, hk₁, hr₁⟩ := hbc.pending k tx h
    obtain ⟨tx₀, h₀, hk₀, hr₀⟩ := hab.pending k tx₁ h₁
    exact ⟨tx₀, h₀, hk₁.trans hk₀, hr₁.trans hr₀⟩
  · obtain ⟨l₁, h₁, hm₁⟩ := hab.out
    obtain ⟨l₂, h₂, hm₂⟩ := hbc.out
    refine ⟨l₁ ++ l₂, by rw [h₂, h₁, List.append_assoc], fun e he => ?_⟩
    obtain he | he := List.mem_append.mp he
    · exact hm₁ e he
    · exact hm₂ e he

theorem Quiet.of_eq {c c' : Client}
    (hpending : ∀ (k : Bytes) (tx : PendingTx), c'.pending[k]? = some tx → c.pending[k]? = some tx)
    (hout : c'.out = c.out) : Quiet c c' :=
  ⟨fun k tx h => ⟨tx, hpending k tx h, rfl, rfl⟩, [], by rw [hout, List.append_nil],
    fun _ h => nomatch h⟩

theorem NothingDue.updateBinding (h : NothingDue env c) (peer : AddrRecord)
    {f : PeerBinding → PeerBinding} (hf : ∀ b, (f b).permissionPermitted = b.permissionPermitted ∧
      (f b).permissionRefreshAt = b.permissionRefreshAt ∧
      (b.pendingData = [] → (f b).pendingData = []) ∧ (f b).channelReady = b.channelReady ∧
      (f b).channelRefreshAt = b.channelRefreshAt) : NothingDue env (c.updateBinding peer f) := by
  refine ⟨h.pending, fun b hb hp => ?_, fun b hb hr => ?_⟩
  · obtain hb | ⟨b₀, hb₀, rfl⟩ := mem_modifyBinding hb
    · exact h.permission b hb hp
    · obtain ⟨h₁, h₂, h₃, -, -⟩ := hf b₀
      obtain ⟨hdue, hdata⟩ := h.permission b₀ hb₀ (h₁.symm.trans hp)
      exact ⟨by rw [h₂]; exact hdue, h₃ hdata⟩
  · obtain hb | ⟨b₀, hb₀, rfl⟩ := mem_modifyBinding hb
    · exact h.channel b hb hr
    · obtain ⟨-, -, -, h₄, h₅⟩ := hf b₀
      rw [h₅]
      exact h.channel b₀ hb₀ (h₄.symm.trans hr)

/-- With nothing due, what the timer does to a failed client. -/
structure Rests (env : ClientEnv) (c c' : Client) : Prop where
  quiet : Quiet c c'
  due : NothingDue env c'
  state : c'.state = .failed

theorem Rests.failAllocation (h : NothingDue env c) (hs : c.state = .failed) (code : Nat)
    (reason : Bytes) : Rests env c (c.failAllocation code reason) := by
  refine ⟨?_, ?_, failAllocation_state hs code reason⟩
  all_goals unfold Client.failAllocation; split
  · exact .of_eq (fun _ _ h => h) rfl
  · exact ⟨fun k tx h => by simp [effect] at h, _, rfl, by simp [isSent]⟩
  · exact h
  · exact ⟨fun k tx h => by simp [effect] at h, h.permission, h.channel⟩

theorem Rests.timeoutTx (h : NothingDue env c)
    (hs : c.state = .failed) (kind : TxKind) : Rests env c (c.timeoutTx kind).2 := by
  cases kind with
  | allocate => exact .failAllocation h hs 0 _
  | refresh =>
    have hc : NothingDue env { c with refreshTidFresh := false } :=
      ⟨h.pending, h.permission, h.channel⟩
    have hq : Quiet c { c with refreshTidFresh := false } := .of_eq (fun _ _ h => h) rfl
    have hr := Rests.failAllocation hc hs 0 (ascii "refresh timeout")
    exact ⟨hq.trans hr.quiet, hr.due, hr.state⟩
  | createPermission peer =>
    exact ⟨.of_eq (fun _ _ h => h) rfl,
      h.updateBinding peer fun _ => ⟨rfl, rfl, fun _ => rfl, rfl, rfl⟩, hs⟩
  | channelBind peer =>
    refine ⟨.of_eq (fun _ _ h => h) rfl, h.updateBinding peer fun b =>
      ⟨rfl, rfl, fun hb => ?_, rfl, rfl⟩, hs⟩
    dsimp only
    rw [hb, ite_self]
  | connect peer => exact ⟨.of_eq (fun _ _ h => h) rfl, h, hs⟩

theorem Rests.tickTx (h : NothingDue env c)
    (hs : c.state = .failed) (key : Bytes) : Rests env c (c.tickTx env key).2 := by
  have hsame : Rests env c c := ⟨.of_eq (fun _ _ h => h) rfl, h, hs⟩
  unfold Client.tickTx
  split
  · exact hsame
  · rename_i tx htx
    split
    · exact hsame
    · rename_i hnow
      split
      · have hq : Quiet c { c with pending := c.pending.erase key } :=
          .of_eq (fun _ _ h => (getElem?_erase_some h).2) rfl
        have hd : NothingDue env { c with pending := c.pending.erase key } :=
          ⟨fun k tx h' => h.pending k tx (getElem?_erase_some h').2, h.permission, h.channel⟩
        have hr := Rests.timeoutTx hd hs tx.kind
        exact ⟨hq.trans hr.quiet, hr.due, hr.state⟩
      · rename_i hretries
        have htcp : c.cfg.transport ≠ .udp :=
          (h.pending key tx htx).elim (absurd · hnow) fun h => h.elim (absurd · hretries) id
        dsimp only
        rw [if_neg fun h => htcp h.1]
        refine ⟨⟨fun k t ht => ?_, [], (List.append_nil _).symm, fun _ h => nomatch h⟩,
          ⟨fun _ _ _ => .inr (.inr htcp), h.permission, h.channel⟩, hs⟩
        obtain ⟨rfl, rfl⟩ | ⟨-, ht⟩ := getElem?_insert_some ht
        · exact ⟨tx, htx, rfl, rfl⟩
        · exact ⟨t, ht, rfl, rfl⟩

theorem Rests.tickPending (h : NothingDue env c)
    (hs : c.state = .failed) (keys : List Bytes) : Rests env c (c.tickPending env keys).2 := by
  induction keys generalizing c with
  | nil => exact ⟨.of_eq (fun _ _ h => h) rfl, h, hs⟩
  | cons key rest ih =>
    have hk := Rests.tickTx h hs key
    unfold Client.tickPending
    split
    · rename_i d hd
      rw [hd] at hk
      exact hk
    · rename_i d hd
      rw [hd] at hk
      have hr := ih hk.due hk.state
      exact ⟨hk.quiet.trans hr.quiet, hr.due, hr.state⟩

theorem foldl_refreshBinding_eq {l : List PeerBinding}
    (hp : ∀ b ∈ l, b.permissionPermitted = true → env.now < b.permissionRefreshAt)
    (hc : ∀ b ∈ l, b.channelReady = true → env.now < b.channelRefreshAt) :
    l.foldl (refreshBinding env) c = c := by
  induction l with
  | nil => rfl
  | cons b bs ih =>
    have hb : refreshBinding env c b = c := by
      unfold refreshBinding
      have h₁ := hp b List.mem_cons_self
      have h₂ := hc b List.mem_cons_self
      rw [if_neg fun h => absurd (h₂ h.1) (Int.not_lt.mpr h.2)]
      exact if_neg fun h => absurd (h₁ h.1) (Int.not_lt.mpr h.2)
    rw [List.foldl_cons, hb]
    exact ih (fun b h => hp b (List.mem_cons_of_mem _ h)) fun b h => hc b (List.mem_cons_of_mem _ h)

theorem tick_quiet (h : NothingDue env c) (hs : c.state = .failed) : Quiet c (c.tick env).2 := by
  have hp := Rests.tickPending h hs c.pending.keys
  unfold tick
  split
  · rename_i d hd
    rw [hd] at hp
    exact hp.quiet
  · rename_i d hd
    rw [hd] at hp
    have hd' : d.state = .failed := hp.state
    refine hp.quiet.trans ?_
    unfold tickBindings tickLoops
    dsimp only
    rw [if_neg (by simp [hd']),
      foldl_refreshBinding_eq (fun b hb h => (hp.due.permission b hb h).1) hp.due.channel,
      flushBindings_nil env d fun b hb h => (hp.due.permission b hb h).2]
    exact .of_eq (fun _ _ h => h) rfl

/-- A failed client stays failed, and with nothing due its timer starts no transaction
and sends nothing. -/
theorem tick_after_failure {c c' : Client} (h : Runs (fun _ _ => True) c)
    (hs : c.state = .failed) (hrun : Reach (· = c) (Guarded (fun _ _ => True) step) c') :
    c'.state = .failed ∧ ∀ env, NothingDue env c' → Quiet c' (c'.tick env).2 := by
  have hfailed : Phase c' ∧ c'.state = .failed := by
    refine Reach.invariant (P := fun c => Phase c ∧ c.state = .failed) ?_ ?_ hrun
    · rintro _ rfl
      exact ⟨h.phase, hs⟩
    · rintro s i t ⟨hp, hs⟩ ⟨-, rfl⟩
      exact ⟨phase_call i.1 s i.2 hp, failed_call i.1 s i.2 hp hs⟩
  exact ⟨hfailed.2, fun env hdue => tick_quiet hdue hfailed.2⟩

/-- A permission is granted and then the transport fails. -/
def failureWithPermission : List (ClientEnv × Call) :=
  allocation ++ [(clientEnv 0, .ensurePermission peerA),
    (clientEnv 0, .handleInbound (some (reply .createPermission .successResponse
      (numberedTid 1) []))),
    (clientEnv 0, .handleInbound none)]

theorem tick_after_failure_before_refresh :
    let c := failureWithPermission.foldl step smallClient
    c.state = .failed ∧ c.bindings.length = 1 ∧ Quiet c (c.tick (clientEnv 60000)).2 := by
  intro c
  have hs : c.state = .failed := by decide +kernel
  have hempty : c.pending.isEmpty = true := by decide +kernel
  refine ⟨hs, by decide +kernel, (tick_after_failure (runs_foldl failureWithPermission) hs
    (.start rfl)).2 (clientEnv 60000) ⟨fun k tx htx => ?_, by decide +kernel, by decide +kernel⟩⟩
  rw [TreeMap.getElem?_of_isEmpty hempty] at htx
  cases htx

/-- The transport refuses the packet that was buffered for the permission, and then
fails. -/
def failureWithData : List (ClientEnv × Call) :=
  allocation ++ [(clientEnv 0, .sendData peerA [1]),
    ({ clientEnv 0 with sendRaw := fun _ => -1 }, .handleInbound (some (reply .createPermission
      .successResponse (numberedTid 1) []))),
    (clientEnv 0, .handleInbound none)]

theorem Quiet.filter_isSent {c c' : Client} (h : Quiet c c') :
    (c'.out.filter isSent).length = (c.out.filter isSent).length := by
  obtain ⟨later, hout, hlater⟩ := h.out
  have hnil : later.filter isSent = [] := List.filter_eq_nil_iff.mpr fun e he => by
    simp [hlater e he]
  rw [hout, List.filter_append, hnil, List.append_nil]

/-- The timer of a failed client refreshes the permission and sends what is buffered. -/
theorem tick_after_failure_sends :
    let c := failureWithPermission.foldl step smallClient
    let d := failureWithData.foldl step smallClient
    c.state = .failed ∧ ¬ Quiet c (c.tick (clientEnv 120000)).2 ∧
      d.state = .failed ∧ ¬ Quiet d (d.tick (clientEnv 1)).2 := by
  intro c d
  have hc : ((c.tick (clientEnv 120000)).2.out.filter isSent).length ≠
      (c.out.filter isSent).length := by decide +kernel
  have hd : ((d.tick (clientEnv 1)).2.out.filter isSent).length ≠
      (d.out.filter isSent).length := by decide +kernel
  exact ⟨by decide +kernel, fun h => hc h.filter_isSent, by decide +kernel,
    fun h => hd h.filter_isSent⟩

end Stice.Turn.Client
