import Stice.Turn.Lifecycle

/-! When `tick` wants to be called again. A transaction that was due has a later time
afterwards, and so has the refresh of the allocation if it is sent now. The refresh of a
permission or a channel moves its deadline only when the response arrives. -/
namespace Stice.Turn.Client
open Std Net Stun Lib

def deadlines (b : PeerBinding) : List Int :=
  (if b.permissionPermitted then [b.permissionRefreshAt] else []) ++
    (if b.channelReady then [b.channelRefreshAt] else [])

theorem nextTick_eq (c : Client) :
    c.nextTick = (c.pending.toList.map (·.2.nextRetransmitAt) ++ c.bindings.flatMap deadlines ++
      (if c.state = .allocated then [c.refreshAt] else [])).min? := rfl

/-- A transaction whose timeout makes `tick` return at once. -/
def TimesOut (env : ClientEnv) (c : Client) : Prop :=
  ∃ (k : Bytes) (tx : PendingTx), c.pending[k]? = some tx ∧ tx.nextRetransmitAt ≤ env.now ∧
    turnMaxRtxCount ≤ tx.retries ∧ (tx.kind = .allocate ∨ tx.kind = .refresh)

/-- A deadline that `tick` leaves where it is. -/
def PastDue (env : ClientEnv) (c : Client) : Prop :=
  (∃ t ∈ c.bindings.flatMap deadlines, t ≤ env.now) ∨
    c.state = .allocated ∧ c.refreshTidFresh = true ∧ c.refreshAt ≤ env.now

/-! ## What stays -/

/-- Deadlines are where they were, and transactions that are new or were sent again are
due later. -/
structure Rearms (env : ClientEnv) (c d : Client) : Prop where
  state : d.state = c.state
  fresh : d.refreshTidFresh = c.refreshTidFresh
  refreshAt : d.refreshAt = c.refreshAt
  deadlines : d.bindings.flatMap deadlines = c.bindings.flatMap deadlines
  pending : ∀ (k : Bytes) (tx : PendingTx), d.pending[k]? = some tx →
    c.pending[k]? = some tx ∨ env.now < tx.nextRetransmitAt

section
variable {env : ClientEnv} {c d : Client}

theorem Rearms.of_eq (hstate : d.state = c.state) (hfresh : d.refreshTidFresh = c.refreshTidFresh)
    (hrefreshAt : d.refreshAt = c.refreshAt)
    (hdeadlines : d.bindings.flatMap Client.deadlines = c.bindings.flatMap Client.deadlines)
    (hpending : d.pending = c.pending) : Rearms env c d :=
  ⟨hstate, hfresh, hrefreshAt, hdeadlines, fun _ _ h => .inl (hpending ▸ h)⟩

theorem Rearms.refl (c : Client) : Rearms env c c := .of_eq rfl rfl rfl rfl rfl

theorem Rearms.trans {e : Client} (h : Rearms env c d) (h' : Rearms env d e) : Rearms env c e := by
  refine ⟨h'.state.trans h.state, h'.fresh.trans h.fresh, h'.refreshAt.trans h.refreshAt,
    h'.deadlines.trans h.deadlines, fun k tx htx => ?_⟩
  obtain htx | htx := h'.pending k tx htx
  · exact h.pending k tx htx
  · exact .inr htx

theorem flatMap_deadlines {bs bs' : List PeerBinding} (h : bs'.map grants = bs.map grants) :
    bs'.flatMap deadlines = bs.flatMap deadlines := by
  have hgrants (l : List PeerBinding) : l.flatMap deadlines = (l.map grants).flatMap fun g =>
      (if g.2.1 then [g.2.2.2.1] else []) ++ (if g.2.2.1 then [g.2.2.2.2] else []) := by
    rw [List.flatMap_map]
    rfl
  rw [hgrants, hgrants, h]

/-! ## The loops over the bindings -/

theorem Rearms.startTx (env : ClientEnv) (c : Client) (kind : TxKind)
    (build : TransactionID → Message) :
    Rearms env c (startTx env c kind build) := by
  rw [startTx_eq]
  refine ⟨rfl, rfl, rfl, rfl, fun k tx htx => ?_⟩
  obtain ⟨-, rfl⟩ | ⟨-, htx⟩ := getElem?_insert_some htx
  · have hrto : 0 < turnRtoMs := by decide
    exact .inr (by dsimp only; omega)
  · exact .inl htx

/-- Only bindings without deadlines are dropped. -/
theorem flatMap_filter_stale (l : List PeerBinding) :
    (l.filter fun b => !stale env b).flatMap deadlines = l.flatMap deadlines := by
  induction l with
  | nil => rfl
  | cons b bs ih =>
    rw [List.filter_cons]
    split
    · rw [List.flatMap_cons, List.flatMap_cons, ih]
    · rename_i hb
      simp only [stale, Bool.not_eq_true', Bool.not_eq_false, Bool.and_eq_true] at hb
      have hnone : deadlines b = [] := by simp [deadlines, hb.1.1.1.1, hb.1.1.1.2]
      rw [List.flatMap_cons, ih, hnone, List.nil_append]

theorem peerwise_rearms (env : ClientEnv) : Peerwise env (Rearms env) where
  refl := .refl
  trans := .trans
  bind c peer := by
    unfold Client.withBinding
    split
    · exact .refl c
    · exact .of_eq rfl rfl rfl (by simp [Client.deadlines, PeerBinding.new]) rfl
  flags c bs h := .of_eq rfl rfl rfl (flatMap_deadlines h) rfl
  permission c peer := .startTx env c _ _
  channel c peer _ := .startTx env c _ _
  hand _ _ _ _ _ := .of_eq rfl rfl rfl rfl rfl

theorem Rearms.tickLoops (env : ClientEnv) (c : Client) : Rearms env c (c.tickLoops env) :=
  (peerwise_rearms env).tickLoops c fun d =>
    .of_eq rfl rfl rfl (flatMap_filter_stale d.bindings) rfl

/-! ## The transaction timer -/

theorem tickTx_false {key : Bytes} (h : c.tickTx env key = (false, d)) :
    Rearms env c d ∧ (∀ k, k ≠ key → d.pending[k]? = c.pending[k]?) ∧
      ∀ tx : PendingTx, d.pending[key]? = some tx → env.now < tx.nextRetransmitAt := by
  obtain ⟨heq, hlater⟩ | ⟨tx, htx, -, ⟨-, heq⟩ | ⟨-, heq⟩⟩ := tickTx_cases env c key
  · rw [h] at heq
    cases heq
    exact ⟨.refl _, fun _ _ => rfl, hlater⟩
  · rw [h] at heq
    have herase : Rearms env c { c with pending := c.pending.erase key } :=
      ⟨rfl, rfl, rfl, rfl, fun _ _ h' => .inl (getElem?_erase_some h').2⟩
    have hgone (x : Client) (hx : Rearms env { c with pending := c.pending.erase key } x)
        (hp : x.pending = c.pending.erase key) :
        Rearms env c x ∧ (∀ k, k ≠ key → x.pending[k]? = c.pending[k]?) ∧
          ∀ tx : PendingTx, x.pending[key]? = some tx → env.now < tx.nextRetransmitAt := by
      rw [hp]
      exact ⟨herase.trans hx, fun k hk => getElem?_erase_of_ne hk,
        fun tx h' => absurd rfl (getElem?_erase_some h').1⟩
    cases hk : tx.kind with
    | allocate | refresh => rw [hk] at heq; cases heq
    | createPermission peer | channelBind peer =>
      rw [hk] at heq
      cases heq
      exact hgone _ ((peerwise_rearms env).updateBinding _ fun _ _ => rfl) rfl
    | connect peer =>
      rw [hk] at heq
      cases heq
      exact hgone _ (.refl _) rfl
  · rw [h] at heq
    cases heq
    have hlater : env.now < (advance env tx).nextRetransmitAt :=
      Int.lt_add_of_pos_right _ (rtxInterval_pos (tx.retries + 1))
    refine ⟨⟨rfl, rfl, rfl, rfl, fun k tx' h' => ?_⟩, fun k hk => getElem?_insert_of_ne hk,
      fun tx' h' => ?_⟩
    · obtain ⟨-, rfl⟩ | ⟨-, h'⟩ := getElem?_insert_some h'
      · exact .inr hlater
      · exact .inl h'
    · obtain ⟨-, rfl⟩ | ⟨hne, -⟩ := getElem?_insert_some h'
      · exact hlater
      · exact absurd rfl hne

theorem tickTx_true {key : Bytes} :
    (c.tickTx env key).1 = true ↔ ∃ tx : PendingTx, c.pending[key]? = some tx ∧
      tx.nextRetransmitAt ≤ env.now ∧ turnMaxRtxCount ≤ tx.retries ∧
      (tx.kind = .allocate ∨ tx.kind = .refresh) := by
  constructor
  · intro h
    obtain ⟨heq, -⟩ | ⟨tx, htx, hnow, ⟨hretries, heq⟩ | ⟨-, heq⟩⟩ := tickTx_cases env c key
    · rw [heq] at h
      cases h
    · refine ⟨tx, htx, hnow, hretries, ?_⟩
      rw [heq] at h
      cases hk : tx.kind with
      | allocate => exact .inl rfl
      | refresh => exact .inr rfl
      | _ => rw [hk] at h; cases h
    · rw [heq] at h
      cases h
  · rintro ⟨tx, htx, hnow, hretries, hkind⟩
    unfold tickTx
    simp only [htx, if_neg (Int.not_lt.mpr hnow), if_pos hretries]
    obtain hkind | hkind := hkind <;> rw [hkind] <;> rfl

theorem tickPending_false {keys : List Bytes} (h : c.tickPending env keys = (false, d)) :
    Rearms env c d ∧ ∀ key ∈ keys, ∀ tx : PendingTx, d.pending[key]? = some tx →
      env.now < tx.nextRetransmitAt := by
  induction keys generalizing c with
  | nil =>
    cases h
    exact ⟨.refl d, fun _ hk => nomatch hk⟩
  | cons key rest ih =>
    unfold tickPending at h
    split at h
    · cases h
    · rename_i e he
      obtain ⟨hfirst, -, hkey⟩ := tickTx_false he
      obtain ⟨hrest, hkeys⟩ := ih h
      refine ⟨hfirst.trans hrest, fun k hk tx htx => ?_⟩
      obtain rfl | hk := List.mem_cons.mp hk
      · obtain htx | htx := hrest.pending k tx htx
        · exact hkey tx htx
        · exact htx
      · exact hkeys k hk tx htx

/-- The loop stops at the first transaction that times the allocation out; the ones
before it do not touch the others. -/
theorem tickPending_true {keys : List Bytes} (hnodup : keys.Nodup) :
    (c.tickPending env keys).1 = true ↔ ∃ key ∈ keys, (c.tickTx env key).1 = true := by
  induction keys generalizing c with
  | nil => simp [tickPending]
  | cons key rest ih =>
    obtain ⟨hkey, hrest⟩ := List.nodup_cons.mp hnodup
    unfold tickPending
    split
    · rename_i d hd
      exact ⟨fun _ => ⟨key, List.mem_cons_self, by rw [hd]⟩, fun _ => rfl⟩
    · rename_i d hd
      obtain ⟨-, hothers, -⟩ := tickTx_false hd
      rw [ih hrest]
      simp only [tickTx_true, List.mem_cons, exists_eq_or_imp]
      have hno : ¬ (c.tickTx env key).1 = true := by rw [hd]; exact Bool.false_ne_true
      rw [tickTx_true] at hno
      rw [or_iff_right hno]
      refine exists_congr fun k => and_congr_right fun hk => ?_
      rw [hothers k fun e => hkey (e ▸ hk)]

/-! ## The next wake-up -/

theorem lt_min?_iff {l : List Int} {n : Int} :
    (∀ t, l.min? = some t → n < t) ↔ ∀ t ∈ l, n < t := by
  cases hl : l.min? with
  | none =>
    rw [List.min?_eq_none_iff] at hl
    simp [hl]
  | some m =>
    have hle : n + 1 ≤ m ↔ ∀ t ∈ l, n + 1 ≤ t := List.le_min?_iff hl
    simp only [Option.some.injEq, forall_eq']
    exact hle

theorem timesOut_iff : TimesOut env c ↔ (c.tickPending env c.pending.keys).1 = true := by
  rw [tickPending_true TreeMap.nodup_keys]
  simp only [tickTx_true]
  constructor
  · rintro ⟨k, tx, htx, h⟩
    exact ⟨k, TreeMap.mem_keys.mpr (TreeMap.mem_iff_isSome_getElem?.mpr (by rw [htx]; rfl)), tx,
      htx, h⟩
  · rintro ⟨k, -, tx, h⟩
    exact ⟨k, tx, h⟩

/-- The refresh of the allocation is sent, or it is not due, or one is under way. -/
theorem sendRefresh_refreshAt (env : ClientEnv) (c : Client) (lt : UInt32) :
    (c.sendRefresh env lt).state = c.state ∧
      (c.sendRefresh env lt).bindings = c.bindings ∧
      (c.sendRefresh env lt).refreshAt =
        (if c.refreshTidFresh then c.refreshAt else env.now + turnRtoMs) ∧
      ∀ (k : Bytes) (tx : PendingTx), (c.sendRefresh env lt).pending[k]? = some tx →
        c.pending[k]? = some tx ∨ env.now < tx.nextRetransmitAt := by
  unfold sendRefresh
  split
  · exact ⟨rfl, rfl, rfl, fun _ _ h => .inl h⟩
  · have hstart := Rearms.startTx env
      { c with refreshTidFresh := true, refreshAt := env.now + turnRtoMs } .refresh
      fun tid => addLifetime (request .refresh tid) lt
    exact ⟨hstart.state, by rw [startTx_eq], hstart.refreshAt, hstart.pending⟩

theorem tickBindings_times (env : ClientEnv) (c : Client) :
    (c.tickBindings env).state = c.state ∧
      (c.tickBindings env).bindings.flatMap deadlines = c.bindings.flatMap deadlines ∧
      (c.state = .allocated → (env.now < (c.tickBindings env).refreshAt ↔
        ¬ (c.refreshTidFresh = true ∧ c.refreshAt ≤ env.now))) ∧
      ∀ (k : Bytes) (tx : PendingTx), (c.tickBindings env).pending[k]? = some tx →
        c.pending[k]? = some tx ∨ env.now < tx.nextRetransmitAt := by
  unfold tickBindings
  dsimp only
  split
  · rename_i hdue
    obtain ⟨hstate, hbs, hat, hpending⟩ := sendRefresh_refreshAt env c c.lifetime
    have hloops := Rearms.tickLoops env (c.sendRefresh env c.lifetime)
    refine ⟨hloops.state.trans hstate, hloops.deadlines.trans (by rw [hbs]), fun _ => ?_,
      fun k tx htx => ?_⟩
    · rw [hloops.refreshAt, hat]
      have hrto : 0 < turnRtoMs := by decide
      cases c.refreshTidFresh with
      | true => simp [hdue.2]
      | false =>
        simp
        omega
    · obtain htx | htx := hloops.pending k tx htx
      · exact hpending k tx htx
      · exact .inr htx
  · rename_i hdue
    have hloops := Rearms.tickLoops env c
    refine ⟨hloops.state, hloops.deadlines, fun hs => ?_, hloops.pending⟩
    have hlater : env.now < c.refreshAt := Int.not_le.mp fun h => hdue ⟨hs, h⟩
    rw [hloops.refreshAt]
    exact ⟨fun _ h => absurd h.2 (Int.not_le.mpr hlater), fun _ => hlater⟩

/-- `tick` asks for a later time unless a refresh that is due waits for its response. -/
theorem tick_later_iff (env : ClientEnv) (c : Client) :
    (∀ t, (c.tick env).1 = some t → env.now < t) ↔ TimesOut env c ∨ ¬ PastDue env c := by
  unfold tick
  split
  · rename_i d hd
    have hout : TimesOut env c := timesOut_iff.mpr (by rw [hd])
    simp [hout]
  · rename_i d hd
    have hout : ¬ TimesOut env c := fun h => by
      rw [timesOut_iff, hd] at h
      cases h
    obtain ⟨hd, hkeys⟩ := tickPending_false hd
    obtain ⟨hstate, hdeadlines, hat, hpending⟩ := tickBindings_times env d
    -- no transaction is due any more
    have hlater : ∀ t ∈ (d.tickBindings env).pending.toList.map (·.2.nextRetransmitAt),
        env.now < t := by
      intro t ht
      obtain ⟨⟨k, tx⟩, hmem, rfl⟩ := List.mem_map.mp ht
      obtain htx | htx := hpending k tx (TreeMap.mem_toList_iff_getElem?_eq_some.mp hmem)
      · obtain hold | hnew := hd.pending k tx htx
        · have hk : k ∈ c.pending.keys :=
            TreeMap.mem_keys.mpr (TreeMap.mem_iff_isSome_getElem?.mpr (by rw [hold]; rfl))
          exact hkeys k hk tx htx
        · exact hnew
      · exact htx
    rw [hd.fresh, hd.refreshAt, hd.state] at hat
    dsimp only
    rw [or_iff_right hout, nextTick_eq, lt_min?_iff, hstate, hdeadlines, hd.state, hd.deadlines]
    simp only [PastDue, List.mem_append, or_imp, forall_and, not_or, not_exists, not_and,
      Int.not_le]
    constructor
    · rintro ⟨⟨-, hbindings⟩, hrefresh⟩
      refine ⟨hbindings, fun hs hfresh => ?_⟩
      have hnow := (hat hs).mp (hrefresh _ (by simp [hs]))
      exact Int.not_le.mp fun h => hnow ⟨hfresh, h⟩
    · rintro ⟨hbindings, hrefresh⟩
      refine ⟨⟨hlater, hbindings⟩, fun t ht => ?_⟩
      split at ht
      · rename_i hs
        rw [List.mem_singleton.mp ht]
        exact (hat hs).mpr fun h => absurd h.2 (Int.not_le.mpr (hrefresh hs h.1))
      · cases ht

end

/-- The refresh of the allocation is sent when it is due and not answered within its first
retransmission interval. -/
def refreshUnderWay : List (ClientEnv × Call) := allocation ++ [(clientEnv 300000, .tick)]

/-- A permission is granted, and its refresh is due 120 seconds later. -/
def permissionGranted : List (ClientEnv × Call) :=
  allocation ++ [(clientEnv 0, .ensurePermission peerA),
    (clientEnv 0, .handleInbound (some (reply .createPermission .successResponse
      (numberedTid 1) [])))]

theorem tick_past_due :
    (∃ c, Runs (fun _ _ => True) c ∧ (c.tick (clientEnv 300200)).1 = some 300200) ∧
      ∃ c, Runs (fun _ _ => True) c ∧ (c.tick (clientEnv 120000)).1 = some 120000 :=
  ⟨⟨refreshUnderWay.foldl step smallClient, runs_foldl refreshUnderWay, by decide +kernel⟩,
    ⟨permissionGranted.foldl step smallClient, runs_foldl permissionGranted, by decide +kernel⟩⟩

end Stice.Turn.Client
