import Stice.Ice.Consent

/-! The schedule of consent checks. The delay `armKeepalive` asks for fits the consent window
for some configurations and not for others; where it does, a peer that answers every consent
check before the next timer pass keeps its consent. -/
namespace Stice.Ice
open Lib Net Stun

namespace Agent

/-! ## The period -/

/-- The values of an `int`. -/
def InInt32 (n : Int) : Prop := -2 ^ 31 ≤ n ∧ n < 2 ^ 31

/-- A configured period with which every jitter stays below the consent timeout. -/
def FitsWindow (configured : Int) : Prop :=
  configured ≤ 0 ∨ -2 ^ 31 < toInt32 configured ∧ toInt32 configured < 25000

instance (configured : Int) : Decidable (FitsWindow configured) :=
  inferInstanceAs <| Decidable <|
    configured ≤ 0 ∨ -2 ^ 31 < toInt32 configured ∧ toInt32 configured < 25000

theorem toInt32_inInt32 (n : Int) : InInt32 (toInt32 n) := by
  unfold InInt32 toInt32
  have hle := Int.le_bmod (x := n) (m := 2 ^ 32) (by decide)
  have hlt := Int.bmod_lt (x := n) (m := 2 ^ 32) (by decide)
  omega

theorem toInt32_eq {n : Int} (h : InInt32 n) : toInt32 n = n := by
  obtain ⟨hle, hlt⟩ := h
  unfold toInt32
  exact Int.bmod_eq_of_le (by omega) (by omega)

/-- For the span it does not matter how a negative period is divided. -/
theorem span_eq (base : Int) : max 1 (base.tdiv 5) = max 1 (base / 5) := by
  obtain hneg | hpos := Int.lt_or_le base 0
  · have hle : 0 ≤ (-base).tdiv 5 := Int.tdiv_nonneg (by omega) (by decide)
    rw [Int.neg_tdiv] at hle
    omega
  · rw [Int.tdiv_eq_ediv_of_nonneg hpos]

theorem jittered_bounds (base : Int) (random : UInt32) :
    base - max 1 (base.tdiv 5) ≤ jittered base random ∧
      jittered base random ≤ base + max 1 (base.tdiv 5) := by
  unfold jittered
  dsimp only
  have hnonneg := Int.emod_nonneg (random.toNat : Int)
    (show 2 * max 1 (base.tdiv 5) + 1 ≠ 0 by omega)
  have hlt := Int.emod_lt_of_pos (random.toNat : Int)
    (show 0 < 2 * max 1 (base.tdiv 5) + 1 by omega)
  omega

/-- The largest and the smallest jitter are drawn for some random number. -/
theorem exists_jittered {base : Int} (h : InInt32 base) :
    (∃ random, jittered base random = base + max 1 (base.tdiv 5)) ∧
      jittered base 0 = base - max 1 (base.tdiv 5) := by
  obtain ⟨hle, hlt⟩ := h
  have hspan : max 1 (base.tdiv 5) < 2 ^ 30 := by
    rw [span_eq]
    omega
  constructor
  · refine ⟨UInt32.ofNat (2 * max 1 (base.tdiv 5)).toNat, ?_⟩
    have hrandom : ((UInt32.ofNat (2 * max 1 (base.tdiv 5)).toNat).toNat : Int) =
        2 * max 1 (base.tdiv 5) := by
      rw [UInt32.toNat_ofNat', Nat.mod_eq_of_lt (by omega)]
      omega
    unfold jittered
    dsimp only
    rw [hrandom, Int.emod_eq_of_lt (by omega) (by omega)]
    omega
  · unfold jittered
    dsimp only
    rw [show ((0 : UInt32).toNat : Int) = 0 from rfl, Int.zero_emod]
    omega

/-- What is asked of the delay until the next consent check. -/
structure DelayFits (a : Agent) (e : StunEntry) (env : AgentEnv) (random : UInt32) : Prop where
  above : minConsentCheckPeriodMs ≤ a.consentPeriod env random e
  below : a.consentPeriod env random e < consentTimeoutMs
  /-- The sum of an active session does not overflow. -/
  exact : a.lastAppDataAt.any (idleThresholdMs < env.now - ·) = false →
    InInt32 (jittered (consentBase (a.keepaliveOf e)) random)

variable {env : AgentEnv} {a b : Agent} {e : StunEntry}

theorem consentPeriod_active (random : UInt32)
    (h : a.lastAppDataAt.any (idleThresholdMs < env.now - ·) = false) :
    a.consentPeriod env random e = max minConsentCheckPeriodMs
      (toInt32 (jittered (consentBase (a.keepaliveOf e)) random)) := by
  unfold consentPeriod
  rw [h, if_neg Bool.false_ne_true]

theorem FitsWindow.jittered {configured : Int} (h : FitsWindow configured) (random : UInt32) :
    -2 ^ 31 ≤ jittered (consentBase configured) random ∧
      jittered (consentBase configured) random < consentTimeoutMs := by
  have hbounds := jittered_bounds (consentBase configured) random
  have hbase : -2 ^ 31 < consentBase configured ∧ consentBase configured < 25000 := by
    unfold consentBase
    split
    · exact h.resolve_left (by omega)
    · decide
  have htimeout : consentTimeoutMs = 30000 := rfl
  rw [span_eq] at hbounds
  omega

theorem FitsWindow.delayFits (h : FitsWindow (a.keepaliveOf e)) (env : AgentEnv)
    (random : UInt32) : DelayFits a e env random := by
  obtain ⟨hle, hlt⟩ := h.jittered random
  have htimeout : consentTimeoutMs = 30000 := rfl
  have hmin : minConsentCheckPeriodMs = 4000 := rfl
  have hidle : idleConsentCheckMs = 10000 := rfl
  have hexact : InInt32 (Agent.jittered (consentBase (a.keepaliveOf e)) random) :=
    ⟨hle, by omega⟩
  cases hactive : a.lastAppDataAt.any (idleThresholdMs < env.now - ·) with
  | true =>
    have hperiod : a.consentPeriod env random e = idleConsentCheckMs := by
      unfold consentPeriod
      rw [hactive, if_pos rfl]
    exact ⟨by omega, by omega, fun _ => hexact⟩
  | false =>
    have hperiod := consentPeriod_active random hactive (e := e)
    rw [toInt32_eq hexact] at hperiod
    exact ⟨by omega, by omega, fun _ => hexact⟩

/-- The delay fits for every random number, idle or not, exactly if the configured period
does. -/
theorem delayFits_iff (a : Agent) (e : StunEntry) :
    (∀ env random, DelayFits a e env random) ↔ FitsWindow (a.keepaliveOf e) := by
  refine ⟨fun h => ?_, fun h env random => h.delayFits env random⟩
  by_cases hdefault : a.keepaliveOf e ≤ 0
  · exact .inl hdefault
  have hbase : consentBase (a.keepaliveOf e) = toInt32 (a.keepaliveOf e) := if_pos (by omega)
  have hin := toInt32_inInt32 (a.keepaliveOf e)
  obtain ⟨⟨random, hmost⟩, hleast⟩ := exists_jittered hin
  -- a session is active at the time of its last data
  let env := calmEnv (a.lastAppDataAt.getD 0)
  have hactive : a.lastAppDataAt.any (idleThresholdMs < env.now - ·) = false := by
    cases hlast : a.lastAppDataAt with
    | none => rfl
    | some t => simp [env, calmEnv, hlast, idleThresholdMs]
  have htimeout : consentTimeoutMs = 30000 := rfl
  have hlow := (h env 0).exact hactive
  have hhigh := (h env random).exact hactive
  have hbelow := (h env random).below
  rw [consentPeriod_active random hactive, toInt32_eq hhigh, hbase, hmost, span_eq] at hbelow
  have hmost := Int.lt_of_le_of_lt (Int.le_max_right _ _) hbelow
  rw [hbase, hleast, span_eq] at hlow
  obtain ⟨hlow, -⟩ := hlow
  exact .inr ⟨by omega, by omega⟩

/-! ## One entry for a pair -/

/-- No two entries are of one pair. -/
def Sole (a : Agent) : Prop :=
  a.entries.Pairwise fun d e => ∀ i, d.pair = some i → e.pair ≠ some i

theorem Sole.eq {j k i : Nat} {d e : StunEntry} (h : Sole a) (hd : a.entries[j]? = some d)
    (he : a.entries[k]? = some e) (hdi : d.pair = some i) (hei : e.pair = some i) : j = k := by
  have hlt {j k : Nat} {d e : StunEntry} (hd : a.entries[j]? = some d)
      (he : a.entries[k]? = some e) (hdi : d.pair = some i) (hei : e.pair = some i) : ¬j < k := by
    intro hjk
    obtain ⟨hj, rfl⟩ := List.getElem?_eq_some_iff.mp hd
    obtain ⟨hk, rfl⟩ := List.getElem?_eq_some_iff.mp he
    exact List.pairwise_iff_getElem.mp h j k hj hk hjk i hdi hei
  have h₁ := hlt hd he hdi hei
  have h₂ := hlt he hd hei hdi
  omega

theorem ne_of_findEntry_none {j i : Nat} {d : StunEntry} (h : a.findEntry i = none)
    (hd : a.entries[j]? = some d) : d.pair ≠ some i := by
  intro hi
  have hnone := List.findIdx?_eq_none_iff.mp h d (List.mem_of_getElem? hd)
  simp [hi] at hnone

theorem Sole.of_places (h : Sole a) (hpairs : b.entries.map (·.pair) = a.entries.map (·.pair)) :
    Sole b := by
  unfold Sole at h ⊢
  rw [← List.pairwise_map (f := StunEntry.pair)
    (R := fun p q => ∀ i, p = some i → q ≠ some i)] at h ⊢
  rwa [hpairs]

theorem Move.sole {k : Kind} (hm : Move env a k b) (h : Sole a) : Sole b := by
  by_cases haccept : k = .accept
  · subst haccept
    cases hm with
    | accept j i =>
      obtain ⟨time, hentries⟩ := (acceptAnswer_answered env a j i).entries
      refine h.of_places ?_
      rw [hentries]
      refine map_modify_eq ?_ j
      intro e
      rfl
  by_cases herase : k = .erase
  · subst herase
    cases hm with
    | erase keeps => exact List.Pairwise.filter _ h
  refine List.pairwise_iff_getElem.mpr fun j l hj hl hjl i hdi hei => ?_
  have hd := hm.descends haccept herase (List.getElem?_eq_getElem hj)
  have he := hm.descends haccept herase (List.getElem?_eq_getElem hl)
  rcases hd with ⟨d, hd, hheir⟩ | ⟨hend, hnew⟩
  · rcases he with ⟨e, he, hheir'⟩ | ⟨_, hnew'⟩
    · have heq := h.eq hd he (hheir.pair ▸ hdi) (hheir'.pair ▸ hei)
      omega
    · exact ne_of_findEntry_none (hnew'.sole i hei) hd (hheir.pair ▸ hdi)
  · rcases he with ⟨e, he, hheir'⟩ | ⟨hend', _⟩
    · exact ne_of_findEntry_none (hnew.sole i hdi) he (hheir'.pair ▸ hei)
    · omega

/-- The pairs of entries are in the table. -/
def Rowed (a : Agent) : Prop := ∀ e ∈ a.entries, ∀ i, e.pair = some i → i < a.pairs.length

theorem Move.rowed {k : Kind} (hm : Move env a k b) (h : Rowed a) : Rowed b := by
  intro d hd i hi
  refine Nat.lt_of_lt_of_le ?_ hm.pairs_le
  by_cases haccept : k = .accept
  · subst haccept
    cases hm with
    | accept j l =>
      obtain ⟨time, hentries⟩ := (acceptAnswer_answered env a j l).entries
      rw [hentries] at hd
      rcases mem_modify_cases hd with hd | ⟨e, he, rfl⟩
      · exact h d hd i hi
      · exact h e (List.mem_of_getElem? he) i hi
  by_cases herase : k = .erase
  · subst herase
    cases hm with
    | erase keeps => exact h d (List.mem_of_mem_filter hd) i hi
  obtain ⟨j, hj⟩ := List.mem_iff_getElem?.mp hd
  rcases hm.descends haccept herase hj with ⟨e, he, hheir⟩ | ⟨_, hnew⟩
  · exact h e (List.mem_of_getElem? he) i (hheir.pair ▸ hi)
  · exact hnew.row i hi

/-- Every entry of a pair is its only one, and the pair is in the table. -/
theorem Goes.sited {K : Kind → Bool} (hg : Goes env K a b) (h : Sole a ∧ Rowed a) :
    Sole b ∧ Rowed b :=
  Goes.invariant (P := fun a => Sole a ∧ Rowed a)
    (fun _ _ _ _ hm h => ⟨hm.sole h.1, hm.rowed h.2⟩) hg h

/-! ## Consent checks that have been answered -/

/-- The next consent check of every pair that is kept alive comes before its consent expires and
at a time `S` allows, unless the pair is one of `P`. -/
def Covered (P : Nat → Prop) (S : Int → Prop) (a : Agent) : Prop :=
  ∀ e ∈ a.entries, e.state = .succeededKeepalive → ∀ i, e.pair = some i →
    P i ∨ S e.nextTransmission ∧ e.nextTransmission < (a.checkOf i).consentExpiry

theorem Covered.mono {P P' : Nat → Prop} {S S' : Int → Prop} (h : Covered P S a)
    (hP : ∀ i, P i → P' i) (hS : ∀ t, S t → S' t) : Covered P' S' a :=
  fun e he hkeep i hi => (h e he hkeep i hi).imp (hP i) fun hnext => ⟨hS _ hnext.1, hnext.2⟩

/-- A consent check that is due moves the timer, and then the pair must be one of `P`. -/
theorem Move.covered {k : Kind} {P : Nat → Prop} {S : Int → Prop} (hm : Move env a k b)
    (haccept : k ≠ .accept) (hS : k = .keepalive → ∀ t, S t → env.now < t)
    (h : Covered P S a) : Covered P S b := by
  intro d hd hkeep i hi
  rw [(touch_unproven (hm.touch i) haccept).2]
  by_cases herase : k = .erase
  · subst herase
    cases hm with
    | erase keeps => exact h d (List.mem_of_mem_filter hd) hkeep i hi
  obtain ⟨j, hj⟩ := List.mem_iff_getElem?.mp hd
  rcases hm.descends haccept herase hj with ⟨e, he, hheir⟩ | ⟨_, hnew⟩
  · have hcovered := h e (List.mem_of_getElem? he) (hheir.kept hkeep) i (hheir.pair ▸ hi)
    rcases hheir.next hkeep with hnext | ⟨hk, hdue⟩
    · rw [hnext]
      exact hcovered
    · refine hcovered.imp_right fun hlate => ?_
      have hnow := hS hk _ hlate.1
      omega
  · exact absurd hkeep hnew.kept

theorem Goes.covered {K : Kind → Bool} {P : Nat → Prop} {S : Int → Prop} (hg : Goes env K a b)
    (haccept : K .accept = false) (hS : K .keepalive = true → ∀ t, S t → env.now < t)
    (h : Covered P S a) : Covered P S b := by
  refine Goes.invariant (P := Covered P S) ?_ hg h
  intro a k b hk hm h
  refine hm.covered ?_ ?_ h
  · rintro rfl
    rw [haccept] at hk
    cases hk
  · rintro rfl
    exact hS hk

theorem reviewPairs_pairing (a : Agent) (i : Nat) : (a.reviewPairs i).pairing = a.pairing := by
  have hname (a : Agent) : (a.nameNominated i).pairing = a.pairing := by
    unfold nameNominated
    split <;> rfl
  have hbest : a.preferBest.pairing = a.pairing := by
    unfold preferBest
    split
    · rfl
    · split <;> rfl
  unfold reviewPairs
  split
  · exact (hname _).trans hbest
  · exact hname a

/-- Both configured periods fit the consent window. -/
def Windowed (a : Agent) : Prop :=
  FitsWindow a.pairing.keepaliveUdp ∧ FitsWindow a.pairing.keepaliveTcpRelay

theorem Windowed.keepaliveOf (h : Windowed a) (e : StunEntry) : FitsWindow (a.keepaliveOf e) := by
  unfold Agent.keepaliveOf
  split
  · exact h.2
  · exact h.1

/-- The entry of an answer is next sent before the consent it gives expires. -/
theorem acceptAnswer_next (hw : Windowed a) {j i : Nat} {d : StunEntry}
    (hd : (a.acceptAnswer env j i).entries[j]? = some d) :
    d.nextTransmission < env.now + consentTimeoutMs := by
  have hentries := (reviewPairs_reviewed ((a.modifyPair i (accept env)).note
    (.answered i env.now)) i).entries
  have hpairing := reviewPairs_pairing ((a.modifyPair i (accept env)).note
    (.answered i env.now)) i
  unfold acceptAnswer at hd
  dsimp only at hd
  generalize ((a.modifyPair i (accept env)).note (.answered i env.now)).reviewPairs i = b
    at hd hentries hpairing
  have hwb : Windowed b := by
    unfold Windowed
    rw [hpairing]
    exact hw
  change (b.entries.modify j _)[j]? = some d at hd
  rw [List.getElem?_modify_eq] at hd
  obtain ⟨e, -, rfl⟩ := Option.map_eq_some_iff.mp hd
  have hbelow := ((hwb.keepaliveOf e).delayFits env (env.randomU32 j)).below
  change env.now + b.consentPeriod env (env.randomU32 j) e < _
  omega

theorem Covered.accept {P : Nat → Prop} {j i : Nat} {e : StunEntry}
    (h : Covered P (fun _ => True) a) (hw : Windowed a) (hsole : Sole a)
    (he : a.entries[j]? = some e) (hpair : e.pair = some i) (hrow : i < a.pairs.length) :
    Covered (fun k => P k ∧ k ≠ i) (fun _ => True) (a.acceptAnswer env j i) := by
  obtain ⟨time, hentries⟩ := (acceptAnswer_answered env a j i).entries
  have hexpiry : ((a.acceptAnswer env j i).checkOf i).consentExpiry =
      env.now + consentTimeoutMs := by
    unfold checkOf
    rw [(acceptAnswer_answered env a j i).pairs, modifyPair, List.getElem?_modify_eq,
      List.getElem?_eq_getElem hrow]
    rfl
  intro d hd hkeep k hk
  obtain ⟨l, hl⟩ := List.mem_iff_getElem?.mp hd
  by_cases hlj : l = j
  · subst hlj
    have hki : k = i := by
      rw [hentries, List.getElem?_modify_eq, he] at hl
      cases hl
      exact Option.some.inj (hk.symm.trans hpair)
    subst hki
    rw [hexpiry]
    exact .inr ⟨trivial, acceptAnswer_next hw hl⟩
  · rw [hentries, List.getElem?_modify_ne _ _ (Ne.symm hlj)] at hl
    have hki : k ≠ i := by
      rintro rfl
      exact hlj (hsole.eq hl he hk hpair)
    rw [acceptAnswer_unproven a j hki]
    exact (h d (List.mem_of_getElem? hl) hkeep k hk).imp_left fun hP => ⟨hP, hki⟩

/-! ## Runs with a peer that answers -/

/-- An agent, and the pairs whose consent was asked for in the last timer pass and has not been
given since. -/
structure Watch where
  agent : Agent
  owed : List Nat

/-- The pairs for which a timer pass makes a consent check. -/
def consentsDue (env : AgentEnv) (a : Agent) : List Nat :=
  (a.entries.filter fun e => e.state = .succeededKeepalive ∧ e.nextTransmission ≤ env.now).filterMap
    (·.pair)

/-- Some items of the log are an answer for a pair. -/
def answers (items : List LogItem) (i : Nat) : Bool :=
  items.any fun
    | .answered k _ => k = i
    | _ => false

namespace Watch

def step (x : Watch) (e : AgentEvent × AgentEnv) : Watch where
  agent := x.agent.step e
  owed := match e.1 with
    | .onBookkeeping => consentsDue e.2 x.agent
    | _ => x.owed.filter fun i => !answers ((x.agent.step e).log.drop x.agent.log.length) i

/-- Timer passes come no later than the agent asks for, and each finds the consent checks of
the one before answered. The longest periods that fit leave no room in the consent window for a
pass that is late. -/
structure Prompt (x : Watch) (e : AgentEvent × AgentEnv) : Prop where
  windowed : Windowed x.agent
  answered : e.1 = .onBookkeeping → x.owed = []
  punctual : e.1 = .onBookkeeping → ∀ d ∈ x.agent.entries, d.state = .succeededKeepalive →
    e.2.now ≤ d.nextTransmission

/-- Nothing is owed at first. -/
def Starts (x : Watch) : Prop := Fresh x.agent ∧ x.owed = []

end Watch

/-- The agent within a timer pass, when `k` entries have been driven. -/
def passState (env : AgentEnv) (a : Agent) (k : Nat) : Agent :=
  (List.range k).foldl (driveEntry env) ((a.gatherTimeout env).connectTimeouts env)

/-- `driveEntry` fails an entry because its consent has expired. -/
def consentExpires (env : AgentEnv) (a : Agent) (j : Nat) : Bool :=
  a.entries[j]?.any fun e => e.state = .succeededKeepalive &&
    (e.pair.bind (a.pairs[·]?)).any fun p => p.consentExpiry ≤ env.now

theorem Current.not_expires {j : Nat} (h : Current env a j) : consentExpires env a j = false := by
  rw [Bool.eq_false_iff]
  intro hexpires
  obtain ⟨e, he, hboth⟩ := exists_of_any hexpires
  rw [Bool.and_eq_true, decide_eq_true_eq] at hboth
  obtain ⟨p, hp, hpast⟩ := exists_of_any hboth.2
  obtain ⟨i, hi, hrow⟩ := Option.bind_eq_some_iff.mp hp
  have hcurrent := h e he hboth.1 i hi
  rw [checkOf_of_some hrow] at hcurrent
  rw [decide_eq_true_eq] at hpast
  omega

theorem passState_current (hc : Checks a) (h : ∀ j, Current env a j) (k : Nat) :
    Checks (a.passState env k) ∧ ∀ j, Current env (a.passState env k) j := by
  unfold passState
  have hstart := @Goes.bookkeepingStart env a
  have hstarted : ∀ j, Current env ((a.gatherTimeout env).connectTimeouts env) j :=
    fun j => hstart.current rfl rfl (h j)
  have hchecks := hstart.checks hc
  generalize (a.gatherTimeout env).connectTimeouts env = b at hstarted hchecks
  induction k with
  | zero => exact ⟨hchecks, hstarted⟩
  | succ k ih =>
    rw [List.range_succ, List.foldl_append]
    have hdrive := @Goes.driveEntry_driving env _ ih.1 k
    exact ⟨hdrive.checks ih.1, fun j => hdrive.current rfl rfl (ih.2 j)⟩

theorem Goes.unanswered {K : Kind → Bool} (hg : Goes env K a b) (haccept : K .accept = false) :
    Logs (fun x => ∀ i t, x ≠ .answered i t) a b := by
  refine Goes.invariant (P := Logs (fun x => ∀ i t, x ≠ .answered i t) a) ?_ hg (.of_eq rfl)
  intro c k d hk hm hlogs
  refine hlogs.trans (hm.logged.mono ?_)
  rintro x hx i t rfl
  have hkind : k = .accept := by simpa [loggedBy] using hx
  subst hkind
  rw [haccept] at hk
  cases hk

theorem Logs.answers_eq_false (h : Logs (fun x => ∀ i t, x ≠ .answered i t) a b) (i : Nat) :
    answers (b.log.drop a.log.length) i = false := by
  obtain ⟨items, hlog, hitems⟩ := h
  rw [hlog, List.drop_left]
  unfold answers
  rw [List.any_eq_false]
  intro x hx
  cases x with
  | answered k t => exact absurd rfl (hitems _ hx k t)
  | _ => exact Bool.false_ne_true

theorem covered_consentsDue (h : Covered (fun _ => False) (fun _ => True) a) :
    Covered (· ∈ consentsDue env a) (env.now < ·) a := by
  intro e he hkeep i hi
  by_cases hdue : e.nextTransmission ≤ env.now
  · left
    refine List.mem_filterMap.mpr ⟨e, List.mem_filter.mpr ⟨he, ?_⟩, hi⟩
    rw [decide_eq_true_eq]
    exact ⟨hkeep, hdue⟩
  · exact .inr ⟨by omega, ((h e he hkeep i hi).resolve_left id).2⟩

namespace Watch

/-- What holds of a watched agent. -/
structure Kept (x : Watch) : Prop where
  checks : Checks x.agent
  sole : Sole x.agent
  rows : Rowed x.agent
  covered : Covered (· ∈ x.owed) (fun _ => True) x.agent

theorem Kept.step {x : Watch} (h : Kept x) {e : AgentEvent × AgentEnv} (he : Prompt x e) :
    Kept (x.step e) := by
  obtain ⟨e, env⟩ := e
  have hgoes := @Goes.step env x.agent h.checks e
  obtain ⟨hsole, hrows⟩ := hgoes.sited ⟨h.sole, h.rows⟩
  refine ⟨hgoes.checks h.checks, hsole, hrows, ?_⟩
  by_cases hpass : e = .onBookkeeping
  · subst hpass
    have hnone : Covered (fun _ => False) (fun _ => True) x.agent :=
      h.covered.mono (fun i hi => by rw [he.answered rfl] at hi; cases hi) fun _ => id
    exact ((Goes.onBookkeeping h.checks).covered rfl (fun _ _ => id)
      (covered_consentsDue hnone)).mono (fun _ => id) fun _ _ => trivial
  have howed : (x.step (e, env)).owed = x.owed.filter fun i =>
      !answers ((x.agent.step (e, env)).log.drop x.agent.log.length) i := by
    cases e <;> first | rfl | exact absurd rfl hpass
  rcases @step_accepts env x.agent h.checks e with hunaccepting |
    ⟨msg, src, transport, j, d, i, -, -, hmatched, -, hpair, -, heq⟩
  · have haccept : unaccepting e .accept = false := by
      rw [unaccepting]
      exact Bool.and_false _
    have hkeepalive : unaccepting e .keepalive = false := by
      cases e <;> first | rfl | exact absurd rfl hpass
    have hcovered := hunaccepting.covered haccept
      (fun hk => by rw [hkeepalive] at hk; cases hk) h.covered
    refine hcovered.mono (fun i hi => ?_) fun _ => id
    rw [howed]
    refine List.mem_filter.mpr ⟨hi, ?_⟩
    rw [(hunaccepting.unanswered haccept).answers_eq_false i]
    rfl
  · have hrow := h.rows d (List.mem_of_getElem? hmatched.entry) i hpair
    have hcovered := @Covered.accept env _ _ j i d h.covered he.windowed h.sole hmatched.entry
      hpair hrow
    rw [← heq] at hcovered
    refine hcovered.mono (fun k hk => ?_) fun _ => id
    rw [howed, heq, (acceptAnswer_answered env x.agent j i).log, List.drop_left]
    refine List.mem_filter.mpr ⟨hk.1, ?_⟩
    simp [answers, Ne.symm hk.2]

theorem kept_of_runs {x : Watch} (h : Reach Starts (Guarded Prompt step) x) : Kept x := by
  refine Reach.invariant ?_ ?_ h
  · rintro ⟨a, owed⟩ ⟨⟨config, ufrag, pwd, tiebreaker, rfl⟩, rfl⟩
    exact ⟨fun e he => absurd he List.not_mem_nil, .nil, fun e he => absurd he List.not_mem_nil,
      fun e he => absurd he List.not_mem_nil⟩
  · rintro x e _ hx ⟨he, rfl⟩
    exact hx.step he

/-- The delay until the next consent check fits the consent window for every random number
exactly if the configured period does. With such periods a pair whose peer answers every consent
check before the next pass is never failed by the expiry of its consent. -/
theorem consent_checks_fit (a : Agent) (x : Watch) :
    (∀ e : StunEntry,
      (∀ env random, DelayFits a e env random) ↔ FitsWindow (a.keepaliveOf e)) ∧
      (Reach Starts (Guarded Prompt step) x → ∀ env, Prompt x (.onBookkeeping, env) →
        ∀ k, consentExpires env (x.agent.passState env k) k = false) := by
  refine ⟨delayFits_iff a, fun hx env he k => ?_⟩
  have hkept := kept_of_runs hx
  refine ((passState_current hkept.checks (fun j d hd hkeep i hi => ?_) k).2 k).not_expires
  have hmem := List.mem_of_getElem? hd
  have hnow := he.punctual rfl d hmem hkeep
  rcases hkept.covered d hmem hkeep i hi with howed | ⟨-, hnext⟩
  · rw [he.answered rfl] at howed
    cases howed
  · exact Int.lt_of_le_of_lt hnow hnext

/-- `Prompt`, as a check. -/
def prompt (x : Watch) (e : AgentEvent × AgentEnv) : Bool :=
  FitsWindow x.agent.pairing.keepaliveUdp && FitsWindow x.agent.pairing.keepaliveTcpRelay &&
    match e.1 with
    | .onBookkeeping => x.owed = [] && x.agent.entries.all fun d =>
        d.state ≠ .succeededKeepalive || e.2.now ≤ d.nextTransmission
    | _ => true

theorem Prompt.of_prompt {x : Watch} {e : AgentEvent × AgentEnv} (h : x.prompt e = true) :
    Prompt x e := by
  unfold prompt at h
  simp only [Bool.and_eq_true, decide_eq_true_eq] at h
  obtain ⟨hwindow, hpass⟩ := h
  refine ⟨hwindow, fun he => ?_, fun he d hd hkeep => ?_⟩
  · simp only [he, Bool.and_eq_true, decide_eq_true_eq] at hpass
    exact hpass.1
  · simp only [he, Bool.and_eq_true, List.all_eq_true] at hpass
    simpa [hkeep] using hpass.2 d hd

/-- The only check is sent and answered. -/
def answeredOnce : List (AgentEvent × AgentEnv) :=
  [quietGather, quietDescribe, drivePass 100 (oneTid 1), peerAnswers 110 (oneTid 1)]

theorem consent_checks_fit_once :
    ∃ x, checkedRun prompt step ⟨small {}, []⟩ answeredOnce = some x ∧
      x.agent.entries.map (·.state) = [.succeededKeepalive] ∧
      ∀ k, consentExpires (calmEnv 8110) (x.agent.passState (calmEnv 8110) k) k = false := by
  have hrun : (checkedRun prompt step ⟨small {}, []⟩ answeredOnce).map (fun x =>
      (x.agent.entries.map (·.state), x.prompt (.onBookkeeping, calmEnv 8110))) =
        some ([.succeededKeepalive], true) := by
    decide +kernel
  obtain ⟨x, hx, heq⟩ := Option.map_eq_some_iff.mp hrun
  obtain ⟨hstates, hprompt⟩ := Prod.mk.inj heq
  have hreach := Reach.of_checkedRun Starts (fun _ _ => Prompt.of_prompt)
    (.start ⟨⟨_, _, _, _, rfl⟩, rfl⟩) hx
  exact ⟨x, hx, hstates, (consent_checks_fit x.agent x).2 hreach (calmEnv 8110)
    (.of_prompt hprompt)⟩

/-- The same with a configured period of 40 seconds. -/
def slowConsent : Watch :=
  ((.setPairingConfig { keepaliveUdp := 40000 }, quietEnv 0) :: answeredOnce).foldl step
    ⟨small {}, []⟩

/-- A longer period passes the consent window or overflows; then consent expires before it has
been asked for again. -/
theorem consent_checks_overrun :
    ({ small {} with pairing := { keepaliveUdp := 30000 } }).consentPeriod (calmEnv 0) 12000
        { type := .check, state := .succeededKeepalive } = 36000 ∧
      jittered (consentBase 2147483647) 858993458 = 2147483647 + 429496729 ∧
      slowConsent.owed = [] ∧
      slowConsent.agent.entries.map (·.nextTransmission) = [32110] ∧
      consentExpires (quietEnv 30200) (slowConsent.agent.passState (quietEnv 30200) 0) 0 = true ∧
      (slowConsent.agent.step (.onBookkeeping, quietEnv 30200)).pairState 0 = some .failed := by
  decide +kernel

end Watch

end Agent

end Stice.Ice
