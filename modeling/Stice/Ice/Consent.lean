import Stice.Ice.Evidence
import Stice.Ice.Pairs

/-! Consent (RFC 7675). An entry that is kept alive is that of a pair whose last answer is not
older than the timeout, as of the last timer pass. -/
namespace Stice.Ice
open Lib Net Stun

namespace Agent

variable {env : AgentEnv} {a b c : Agent}
variable {K : Kind → Bool} {k : Kind} {j : Nat} {d : StunEntry}

/-! ## What is logged -/

/-- The log grows by items of a kind. -/
def Logs (P : LogItem → Prop) (a b : Agent) : Prop :=
  ∃ items, b.log = a.log ++ items ∧ ∀ x ∈ items, P x

namespace Logs

variable {P : LogItem → Prop}

theorem of_eq (h : b.log = a.log) : Logs P a b :=
  ⟨[], by rw [h, List.append_nil], fun _ hx => absurd hx List.not_mem_nil⟩

theorem one {item : LogItem} (hP : P item) (h : b.log = a.log ++ [item]) : Logs P a b :=
  ⟨[item], h, fun _ hx => List.mem_singleton.mp hx ▸ hP⟩

theorem trans (h : Logs P a b) (h' : Logs P b c) : Logs P a c := by
  obtain ⟨items, hlog, hitems⟩ := h
  obtain ⟨items', hlog', hitems'⟩ := h'
  refine ⟨items ++ items', by rw [hlog', hlog, List.append_assoc], ?_⟩
  intro x hx
  rcases List.mem_append.mp hx with hx | hx
  · exact hitems x hx
  · exact hitems' x hx

theorem mem (h : Logs P a b) {x : LogItem} (hx : x ∈ a.log) : x ∈ b.log := by
  obtain ⟨items, hlog, _⟩ := h
  rw [hlog]
  exact List.mem_append_left _ hx

theorem mem_or (h : Logs P a b) {x : LogItem} (hx : x ∈ b.log) : x ∈ a.log ∨ P x := by
  obtain ⟨items, hlog, hitems⟩ := h
  rw [hlog] at hx
  exact (List.mem_append.mp hx).imp_right (hitems x)

theorem changeState (s : AgentState) (hP : P (.state s)) (a : Agent) :
    Logs P a (a.changeState env s) := by
  unfold Agent.changeState
  split
  · exact .of_eq rfl
  · dsimp only
    split <;> exact .one hP rfl

theorem enterConnected (hP : ∀ s, P (.state s)) (a : Agent) (best : Nat) :
    Logs P a (a.enterConnected env best) := by
  have hselect : Logs P a { a with selectedPair := some best } := .of_eq rfl
  have hname : Logs P a { a with selectedPair := some best, nominatedPair := some best } :=
    .of_eq rfl
  unfold Agent.enterConnected
  dsimp only
  split
  · split
    · exact (hname.trans (changeState _ (hP _) _)).trans (changeState _ (hP _) _)
    · split
      · exact hname.trans (changeState _ (hP _) _)
      · exact hname
  · split
    · exact hselect.trans (changeState _ (hP _) _)
    · exact hselect

theorem enterFailed (hP : ∀ s, P (.state s)) (a : Agent) : Logs P a (a.enterFailed env) := by
  unfold Agent.enterFailed
  split
  · split
    · exact .of_eq rfl
    · split
      · exact .of_eq rfl
      · exact changeState _ (hP _) { a with pacDeadline := none }
  · split
    · exact changeState _ (hP _) a
    · exact .of_eq rfl

theorem updateState (hP : ∀ s, P (.state s)) (hU : ∀ t s f, P (.update t s f)) (a : Agent) :
    Logs P a (a.updateState env) := by
  have hnote : ∀ s f, Logs P a (a.note (.update env.now s f)) := fun s f => .one (hU _ s f) rfl
  unfold Agent.updateState
  dsimp only
  split
  · exact (hnote _ _).trans (enterConnected hP _ _)
  · split
    · exact (hnote _ _).trans (enterFailed hP _)
    · exact (hnote _ _).trans (.of_eq rfl)

theorem mono {Q : LogItem → Prop} (h : Logs P a b) (hPQ : ∀ x, P x → Q x) : Logs Q a b := by
  obtain ⟨items, hlog, hitems⟩ := h
  exact ⟨items, hlog, fun x hx => hPQ x (hitems x hx)⟩

end Logs

/-- Passes, answers and requests are logged by moves of their own. -/
def loggedBy : LogItem → Kind → Bool
  | .pass _, k => k = .pass
  | .answered _ _, k => k = .accept
  | .request _ _ _, k => k = .send || k = .resend || k = .pushServer
  | _, _ => true

theorem Move.logged (hm : Move env a k b) : Logs (fun x => loggedBy x k = true) a b := by
  cases hm with
  | setup hs => exact .of_eq hs.log
  | gather => exact @Logs.changeState env (fun x => loggedBy x .gather = true) .gathering rfl a
  | connect => exact @Logs.changeState env (fun x => loggedBy x .connect = true) .connecting rfl a
  | update => exact Logs.updateState (fun _ => rfl) (fun _ _ _ => rfl) a
  | announce | pushServer | resend | respond | data | pass => exact .one rfl rfl
  | @send j e he =>
    rcases sendCheck_cases env he with heq | ⟨tid, _, ⟨_, _, _, heq⟩ | heq | heq⟩ <;> rw [heq]
    · exact .of_eq rfl
    · exact .one rfl rfl
    · exact .of_eq rfl
    · cases e.pair <;> exact .of_eq rfl
  | failPair i => cases i <;> exact .of_eq rfl
  | freeze =>
    unfold freezeOthers
    split <;> exact .of_eq rfl
  | accept j i => exact .one rfl (acceptAnswer_answered env a j i).log
  | request i => exact .of_eq (askNomination_asked env a i).log
  | note item hitem =>
    cases hitem
    exact .one rfl rfl
  | _ => exact .of_eq rfl

theorem Move.logs (hm : Move env a k b) (hk : k ≠ .pass) :
    Logs (fun x => ∀ t, x ≠ .pass t) a b := by
  refine hm.logged.mono ?_
  rintro x hx t rfl
  exact hk (by simpa [loggedBy] using hx)

/-! ## Entries from move to move -/

/-- An entry is that of the same pair as before, and is not kept alive if it was not; as long as
it is, only a consent check that was due sets its timer. -/
structure Heir (env : AgentEnv) (k : Kind) (e d : StunEntry) : Prop where
  pair : d.pair = e.pair
  kept : d.state = .succeededKeepalive → e.state = .succeededKeepalive
  next : d.state = .succeededKeepalive →
    d.nextTransmission = e.nextTransmission ∨ k = .keepalive ∧ e.nextTransmission ≤ env.now

theorem Heir.refl (e : StunEntry) : Heir env k e e := ⟨rfl, id, fun _ => .inl rfl⟩

/-- A new entry is that of a pair of the table that has none yet, or of none, and is not kept
alive. -/
structure Newly (a : Agent) (d : StunEntry) : Prop where
  row : ∀ i, d.pair = some i → i < a.pairs.length
  sole : ∀ i, d.pair = some i → a.findEntry i = none
  kept : d.state ≠ .succeededKeepalive

/-- Where the entry at a place comes from. -/
def Descends (env : AgentEnv) (k : Kind) (a : Agent) (j : Nat) (d : StunEntry) : Prop :=
  (∃ e, a.entries[j]? = some e ∧ Heir env k e d) ∨ j = a.entries.length ∧ Newly a d

theorem Descends.same (h : b.entries = a.entries)
    (hd : b.entries[j]? = some d) : Descends env k a j d :=
  .inl ⟨d, h ▸ hd, .refl d⟩

theorem Descends.modify {j l : Nat} {d : StunEntry} {f : StunEntry → StunEntry}
    (h : b.entries = a.entries.modify l f) (hf : ∀ e, a.entries[l]? = some e → Heir env k e (f e))
    (hd : b.entries[j]? = some d) : Descends env k a j d := by
  rw [h] at hd
  obtain ⟨e, he, rfl | ⟨rfl, rfl⟩⟩ := getElem?_modify_cases hd
  · exact .inl ⟨d, he, .refl d⟩
  · exact .inl ⟨e, he, hf e he⟩

theorem Descends.push {d e : StunEntry} (h : b.entries = a.entries ++ [e])
    (he : Newly a e) (hd : b.entries[j]? = some d) : Descends env k a j d := by
  rw [h] at hd
  have hlt := (List.getElem?_eq_some_iff.mp hd).1
  rw [List.length_append, List.length_singleton] at hlt
  rcases getElem?_concat_cases hd with hd | ⟨hj, rfl⟩
  · exact .inl ⟨d, hd, .refl d⟩
  · exact .inr ⟨by omega, he⟩

theorem Descends.map {f : StunEntry → StunEntry} (h : b.entries = a.entries.map f)
    (hf : ∀ e, Heir env k e (f e)) (hd : b.entries[j]? = some d) : Descends env k a j d := by
  rw [h, List.getElem?_map] at hd
  obtain ⟨e, he, rfl⟩ := Option.map_eq_some_iff.mp hd
  exact .inl ⟨e, he, hf e⟩

theorem Move.descends (hm : Move env a k b) (haccept : k ≠ .accept) (herase : k ≠ .erase) {j : Nat}
    {d : StunEntry} (hd : b.entries[j]? = some d) : Descends env k a j d := by
  have harm : ∀ {k : Kind} (b : Agent) (delay : Int) (e : StunEntry),
      Heir env k e (b.armTransmission env delay e) :=
    fun b delay e => ⟨rfl, (fun h => by cases h), fun h => by cases h⟩
  have hsame : ∀ {k : Kind} {e d : StunEntry}, SameEntry e d →
      (e.state = .succeededKeepalive → d.nextTransmission = e.nextTransmission) → Heir env k e d :=
    fun h hnext => ⟨h.pair, fun hs => h.state ▸ hs, fun hs => .inl (hnext (h.state ▸ hs))⟩
  cases hm with
  | accept => exact absurd rfl haccept
  | erase => exact absurd rfl herase
  | setup hs => exact .same hs.entries hd
  | gather => exact .same (@Frame.changeState env a .gathering).entries hd
  | connect => exact .same (@Frame.changeState env a .connecting).entries hd
  | update => exact .same (Frame.updateState a).entries hd
  | armPair i hnone _ hrow =>
    refine .push rfl ⟨?_, ?_, fun h => by cases h⟩ hd
    · intro k hk
      cases hk
      exact hrow
    · intro k hk
      cases hk
      exact hnone
  | pushServer resolved =>
    exact .push (pushServer_entries a resolved)
      ⟨(fun _ h => by cases h), (fun _ h => by cases h), fun h => by cases h⟩ hd
  | pushRelay srv index resolved =>
    exact .push rfl
      ⟨(fun _ h => by cases h), (fun _ h => by cases h), fun h => by cases h⟩ hd
  | settleServer j s _ _ _ hs =>
    refine .modify rfl ?_ hd
    intro e _
    have hdone : s ≠ .succeededKeepalive := by rcases hs with rfl | rfl <;> decide
    exact ⟨rfl, fun h => absurd h hdone, fun h => absurd h hdone⟩
  | countRelay | relay =>
    refine .modify rfl ?_ hd
    intro e _
    exact ⟨rfl, id, fun _ => .inl rfl⟩
  | arm j delay => exact .modify rfl (fun e _ => harm a delay e) hd
  | timer j f hf _ hkept => exact .modify rfl (fun e he => hsame (hf e) (hkept e he)) hd
  | flush j f hf hkept => exact .modify rfl (fun e he => hsame (hf e) (hkept e he)) hd
  | flushes f hf hkept => exact .map rfl (fun e => hsame (hf e) (hkept e)) hd
  | @send j e he =>
    rcases sendCheck_entries env he with heq | ⟨tid, _, heq⟩
    · exact .same heq hd
    · refine .modify heq (fun d hd => ?_) hd
      cases he.symm.trans hd
      exact ⟨rfl, id, fun _ => .inl rfl⟩
  | @keepalive j e he hs hdue =>
    refine .modify rfl ?_ hd
    intro d hd
    cases he.symm.trans hd
    exact ⟨rfl, fun _ => hs, fun _ => .inr ⟨rfl, hdue⟩⟩
  | failEntry j =>
    refine .modify rfl ?_ hd
    intro e _
    exact ⟨rfl, (fun h => by cases h), fun h => by cases h⟩
  | cancel f =>
    refine .map rfl (fun e => ?_) hd
    split
    · exact ⟨rfl, (fun h => by cases h), fun h => by cases h⟩
    · exact .refl e
  | failPair i => exact .same (setPairState_entries i _) hd
  | freeze =>
    refine .same ?_ hd
    unfold freezeOthers
    split <;> rfl
  | request i =>
    rcases askNomination_entries env a i with heq | ⟨j, c, _, heq⟩
    · exact .same heq hd
    · exact .modify heq (fun e _ => harm c 0 e) hd
  | _ => exact .same rfl hd

theorem Move.pairs_le (hm : Move env a k b) : a.pairs.length ≤ b.pairs.length := by
  by_cases hkeeps : keepsTable k = true
  · have hends := congrArg List.length (hm.sameTable hkeeps).ends
    simp only [ends, List.length_map] at hends
    exact hends.ge
  cases hm with
  | gather => exact (congrArg List.length (@Frame.changeState env a .gathering).pairs).ge
  | connect => exact (congrArg List.length (@Frame.changeState env a .connecting).pairs).ge
  | fill =>
    obtain ⟨news, hpairs, _⟩ := fillPairs_append a
    rw [hpairs, List.length_append]
    omega
  | append => exact (List.length_append ..).symm ▸ Nat.le_add_right _ _
  | pushLocal | sort | pushRemote | replace | role => exact le_rfl
  | _ => exact absurd rfl hkeeps

/-! ## Consent -/

/-- The last answer for a pair is not older than the timeout as of any timer pass. -/
def Consented (a : Agent) (i : Nat) : Prop :=
  ∃ t, .answered i t ∈ a.log ∧ (a.checkOf i).consentExpiry = t + consentTimeoutMs ∧
    ∀ T, .pass T ∈ a.log → T < t + consentTimeoutMs

/-- The pairs of entries are in the table, and those that are kept alive have consent. -/
structure Consenting (a : Agent) : Prop where
  rows : ∀ e ∈ a.entries, ∀ i, e.pair = some i → i < a.pairs.length
  kept : ∀ e ∈ a.entries, e.state = .succeededKeepalive → ∀ i, e.pair = some i → Consented a i

/-- No timer pass has been later. -/
def Timely (env : AgentEnv) (a : Agent) : Prop := ∀ T, .pass T ∈ a.log → T ≤ env.now

theorem Logs.timely (h : Logs (fun x => ∀ t, x ≠ .pass t) a b) (hs : Timely env a) :
    Timely env b := by
  intro T hT
  rcases h.mem_or hT with hT | hne
  · exact hs T hT
  · exact absurd rfl (hne T)

theorem Consented.of_logs {i : Nat} (h : Consented a i)
    (hlogs : Logs (fun x => ∀ t, x ≠ .pass t) a b)
    (hexpiry : (b.checkOf i).consentExpiry = (a.checkOf i).consentExpiry) : Consented b i := by
  obtain ⟨t, hmem, ht, hpass⟩ := h
  refine ⟨t, hlogs.mem hmem, hexpiry.trans ht, fun T hT => ?_⟩
  rcases hlogs.mem_or hT with hT | hne
  · exact hpass T hT
  · exact absurd rfl (hne T)

theorem Consenting.accept {j i : Nat} {e : StunEntry} (h : Consenting a) (hs : Timely env a)
    (he : a.entries[j]? = some e) (hpair : e.pair = some i) :
    Consenting (a.acceptAnswer env j i) := by
  have hanswered := acceptAnswer_answered env a j i
  have hlogs : Logs (fun x => ∀ t, x ≠ .pass t) a (a.acceptAnswer env j i) :=
    .one (fun _ h => by cases h) hanswered.log
  have hrow := h.rows e (List.mem_of_getElem? he) i hpair
  have hlength : (a.acceptAnswer env j i).pairs.length = a.pairs.length := by
    rw [hanswered.pairs]
    exact List.length_modify ..
  -- the pair of the answer has consent from now on
  have hpositive : (0 : Int) < consentTimeoutMs := by decide
  have hnow : Consented (a.acceptAnswer env j i) i := by
    refine ⟨env.now, ?_, ?_, fun T hT => ?_⟩
    · rw [hanswered.log]
      exact List.mem_append_right _ (List.mem_singleton.mpr rfl)
    · unfold checkOf
      rw [hanswered.pairs, modifyPair, List.getElem?_modify_eq, List.getElem?_eq_getElem hrow]
      rfl
    · have := hlogs.timely hs T hT
      omega
  have hconsented : ∀ k, Consented a k → Consented (a.acceptAnswer env j i) k := by
    intro k hk
    by_cases hki : k = i
    · exact hki ▸ hnow
    · exact hk.of_logs hlogs (by rw [acceptAnswer_unproven a j hki])
  obtain ⟨time, hentries⟩ := hanswered.entries
  refine ⟨fun d hd k hk => ?_, fun d hd hkeep k hk => ?_⟩
  · rw [hentries] at hd
    rw [hlength]
    rcases mem_modify_cases hd with hd | ⟨d', hd', rfl⟩
    · exact h.rows d hd k hk
    · exact h.rows d' (List.mem_of_getElem? hd') k hk
  · rw [hentries] at hd
    rcases mem_modify_cases hd with hd | ⟨d', hd', rfl⟩
    · exact hconsented k (h.kept d hd hkeep k hk)
    · cases he.symm.trans hd'
      cases hpair.symm.trans hk
      exact hnow

theorem Move.consenting (hm : Move env a k b) (hk : k ≠ .pass) (hs : Timely env a)
    (h : Consenting a) : Consenting b := by
  have hlogs := hm.logs hk
  have hpairs := hm.pairs_le
  by_cases haccept : k = .accept
  · subst haccept
    cases hm with
    | accept j i he _ hpair => exact h.accept hs he hpair
  · have hexpiry := fun i => (touch_unproven (hm.touch i) haccept).2
    by_cases herase : k = .erase
    · subst herase
      cases hm with
      | erase keeps =>
        exact ⟨fun e he i hi => h.rows e (List.mem_of_mem_filter he) i hi,
          fun e he hkeep i hi =>
            (h.kept e (List.mem_of_mem_filter he) hkeep i hi).of_logs hlogs (hexpiry i)⟩
    · refine ⟨fun d hd i hi => ?_, fun d hd hkeep i hi => ?_⟩
      · obtain ⟨j, hj⟩ := List.mem_iff_getElem?.mp hd
        rcases hm.descends haccept herase hj with ⟨e, he, hheir⟩ | ⟨_, hnew⟩
        · exact (h.rows e (List.mem_of_getElem? he) i (hheir.pair ▸ hi)).trans_le hpairs
        · exact (hnew.row i hi).trans_le hpairs
      · obtain ⟨j, hj⟩ := List.mem_iff_getElem?.mp hd
        rcases hm.descends haccept herase hj with ⟨e, he, hheir⟩ | ⟨_, hnew⟩
        · exact (h.kept e (List.mem_of_getElem? he) (hheir.kept hkeep) i
            (hheir.pair ▸ hi)).of_logs hlogs (hexpiry i)
        · exact absurd hkeep hnew.kept

theorem Goes.consenting (hg : Goes env K a b) (hK : K .pass = false)
    (hs : Timely env a) (h : Consenting a) : Timely env b ∧ Consenting b := by
  refine Goes.invariant (P := fun a => Timely env a ∧ Consenting a) ?_ hg ⟨hs, h⟩
  intro a k b hk hm ⟨hs, h⟩
  have hpass : k ≠ .pass := by
    rintro rfl
    rw [hK] at hk
    cases hk
  exact ⟨(hm.logs hpass).timely hs, hm.consenting hpass hs h⟩

/-! ## A timer pass -/

/-- An entry that is kept alive is that of a pair whose consent has not expired. -/
def Current (env : AgentEnv) (a : Agent) (j : Nat) : Prop :=
  ∀ e, a.entries[j]? = some e → e.state = .succeededKeepalive → ∀ i, e.pair = some i →
    env.now < (a.checkOf i).consentExpiry

theorem Move.current (hm : Move env a k b) (haccept : k ≠ .accept)
    (herase : k ≠ .erase) (h : Current env a j) : Current env b j := by
  intro d hd hkeep i hi
  rw [(touch_unproven (hm.touch i) haccept).2]
  rcases hm.descends haccept herase hd with ⟨e, he, hheir⟩ | ⟨_, hnew⟩
  · exact h e he (hheir.kept hkeep) i (hheir.pair ▸ hi)
  · exact absurd hkeep hnew.kept

theorem Goes.current (hg : Goes env K a b) (haccept : K .accept = false)
    (herase : K .erase = false) (h : Current env a j) : Current env b j := by
  refine Goes.invariant (P := fun a => Current env a j) ?_ hg h
  intro a k b hk hm h
  refine hm.current ?_ ?_ h
  · rintro rfl
    rw [haccept] at hk
    cases hk
  · rintro rfl
    rw [herase] at hk
    cases hk

/-- An entry whose consent has expired fails. -/
theorem driveEntry_current (hc : Checks a) (hrows : ∀ e ∈ a.entries, ∀ i, e.pair = some i →
    i < a.pairs.length) (j : Nat) : Current env (a.driveEntry env j) j := by
  by_cases hcurrent : Current env a j
  · exact (Goes.driveEntry_driving hc j).current rfl rfl hcurrent
  · unfold Current at hcurrent
    push Not at hcurrent
    obtain ⟨e, he, hkeep, i, hi, hexpired⟩ := hcurrent
    have hrow := hrows e (List.mem_of_getElem? he) i hi
    have hany : (e.pair.bind (a.pairs[·]?)).any (fun p => p.consentExpiry ≤ env.now) = true := by
      rw [checkOf_of_some (List.getElem?_eq_getElem hrow)] at hexpired
      rw [hi, Option.bind_some, List.getElem?_eq_getElem hrow]
      simpa using hexpired
    have hfailed : Current env (a.failEntry j e) j := by
      intro d hd hdkeep
      unfold Agent.failEntry at hd
      rw [setPairState_entries] at hd
      change (a.entries.modify j _)[j]? = _ at hd
      rw [List.getElem?_modify_eq, he] at hd
      cases hd
      cases hdkeep
    have hpending : ¬(e.state = .pending ∧ e.nextTransmission ≤ env.now) := by
      rw [hkeep]
      exact fun h => by cases h.1
    have hdrive : a.driveKeepalive env j e = a.failEntry j e := by
      unfold Agent.driveKeepalive
      rw [if_pos hany]
    unfold Agent.driveEntry
    rw [he]
    dsimp only
    rw [if_neg hpending, if_pos hkeep, hdrive]
    split
    · exact (Goes.relayFailed _ j).current rfl rfl hfailed
    · exact hfailed

theorem Goes.rows (hg : Goes env K a b) (haccept : K .accept = false)
    (herase : K .erase = false) (h : ∀ e ∈ a.entries, ∀ i, e.pair = some i → i < a.pairs.length) :
    ∀ e ∈ b.entries, ∀ i, e.pair = some i → i < b.pairs.length := by
  refine Goes.invariant (P := fun a => ∀ e ∈ a.entries, ∀ i, e.pair = some i →
    i < a.pairs.length) ?_ hg h
  intro a k b hk hm h d hd i hi
  obtain ⟨j, hj⟩ := List.mem_iff_getElem?.mp hd
  rcases hm.descends (by rintro rfl; rw [haccept] at hk; cases hk)
    (by rintro rfl; rw [herase] at hk; cases hk) hj with ⟨e, he, hheir⟩ | ⟨_, hnew⟩
  · exact (h e (List.mem_of_getElem? he) i (hheir.pair ▸ hi)).trans_le hm.pairs_le
  · exact (hnew.row i hi).trans_le hm.pairs_le

/-- After the loop over the entries no consent has expired. -/
theorem driveEntries_current (hc : Checks a) (hrows : ∀ e ∈ a.entries, ∀ i, e.pair = some i →
    i < a.pairs.length) (j : Nat) : Current env (a.driveEntries env) j := by
  -- the entries that have been driven, and those that are new, are current
  have hloop : ∀ n, Goes env Kind.driving a ((List.range n).foldl (driveEntry env) a) ∧
      ∀ j, j < n ∨ a.entries.length ≤ j →
        Current env ((List.range n).foldl (driveEntry env) a) j := by
    intro n
    induction n with
    | zero =>
      refine ⟨.refl a, fun j hj e he => ?_⟩
      have hnone : a.entries[j]? = none := List.getElem?_eq_none (by omega)
      cases hnone.symm.trans he
    | succ n ih =>
      obtain ⟨hpath, hcurrent⟩ := ih
      rw [List.range_succ, List.foldl_append]
      have hn := @Goes.driveEntry_driving env _ (hpath.checks hc) n
      refine ⟨hpath.trans hn, fun j hj => ?_⟩
      by_cases hjn : j = n
      · subst hjn
        exact driveEntry_current (hpath.checks hc) (hpath.rows rfl rfl hrows) j
      · exact hn.current rfl rfl (hcurrent j (by omega))
  refine (hloop a.entries.length).2 j ?_
  omega

theorem Consenting.pass (h : Consenting a) (hcurrent : ∀ j, Current env a j) :
    Consenting (a.note (.pass env.now)) := by
  refine ⟨h.rows, fun e he hkeep i hi => ?_⟩
  obtain ⟨t, hmem, ht, hpass⟩ := h.kept e he hkeep i hi
  obtain ⟨j, hj⟩ := List.mem_iff_getElem?.mp he
  have hexpiry := hcurrent j e hj hkeep i hi
  refine ⟨t, List.mem_append_left _ hmem, ht, fun T hT => ?_⟩
  rcases List.mem_append.mp hT with hT | hT
  · exact hpass T hT
  · cases List.mem_singleton.mp hT
    rw [ht] at hexpiry
    exact hexpiry

theorem Consenting.onBookkeeping (hc : Checks a) (hs : Timely env a) (h : Consenting a) :
    Consenting (a.onBookkeeping env) := by
  have hstart := @Goes.bookkeepingStart env a
  have hstarted := hstart.consenting rfl hs h
  have hchecks := hstart.checks hc
  unfold Agent.onBookkeeping
  dsimp only
  generalize (a.gatherTimeout env).connectTimeouts env = b at hstarted hchecks
  have hdrive := @Goes.driveEntries env b hchecks
  have hdriven := hdrive.consenting rfl hstarted.1 hstarted.2
  have hcurrent := @driveEntries_current env b hchecks hstarted.2.rows
  have hchecks := hdrive.checks hchecks
  generalize b.driveEntries env = c at hdriven hcurrent hchecks
  have hclose := @Goes.bookkeepingReview env c (fun k => k = .request || k = .freeze ||
    k = .update) rfl rfl rfl hchecks
  exact (hclose.consenting rfl hdriven.1 hdriven.2).2.pass fun j =>
    hclose.current rfl rfl (hcurrent j)

/-! ## Application data -/

/-- The clock does not go back, and data is sent only while the agent has not failed and the entry
of the selected pair is kept alive. -/
structure Gated (a : Agent) (e : AgentEvent × AgentEnv) : Prop where
  timely : Timely e.2 a
  send : ∀ data i, e.1 = .send data → a.selectedPair = some i →
    a.state ≠ .failed ∧ ∃ d ∈ a.entries, d.pair = some i ∧ d.state = .succeededKeepalive

theorem Runs.consenting (h : Runs Gated a) : Consenting a := by
  refine Runs.invariant (P := Consenting) ?_ ?_ h
  · rintro a ⟨config, ufrag, pwd, tiebreaker, rfl⟩
    exact ⟨fun e he => absurd he List.not_mem_nil, fun e he => absurd he List.not_mem_nil⟩
  · intro a e env hok hc hgoes ha
    by_cases he : e = .onBookkeeping
    · subst he
      exact ha.onBookkeeping hc hok.timely
    · refine (hgoes.consenting ?_ hok.timely ha).2
      cases e <;> first | rfl | exact absurd rfl he

theorem send_logged {data : Bytes} {i : Nat} {route : Route} (hsel : a.selectedPair = some i)
    (hroute : a.dataRoute i = some route) (hsends : env.sends = true) :
    (a.step (.send data, env)).log = a.log ++ [.data i route data] := by
  unfold Agent.step Agent.send
  dsimp only
  split
  · rename_i hnone
    cases hsel.symm.trans hnone
  · rename_i k hk
    cases hsel.symm.trans hk
    split
    · rename_i hnone
      cases hroute.symm.trans hnone
    · rename_i r hr
      cases hroute.symm.trans hr
      rw [if_pos hsends]
      rfl

theorem send_selected {data payload : Bytes} {i : Nat} {route : Route}
    (h : (a.step (.send data, env)).log = a.log ++ [.data i route payload]) :
    a.selectedPair = some i := by
  unfold Agent.step Agent.send at h
  dsimp only at h
  split at h
  · simp at h
  · rename_i k hsel
    split at h
    · simp at h
    · split at h
      · have hitem := List.append_cancel_left h
        cases hitem
        exact hsel
      · simp at h

/-- In every run in which the clock does not go back and data is sent only while the selected
pair is kept alive, data goes by a pair that was answered less than the timeout before every
timer pass so far, and not while the agent has failed. -/
theorem data_has_consent {data payload : Bytes} {i : Nat} {route : Route} (h : Runs Gated a)
    (hok : Gated a (.send data, env))
    (hsent : (a.step (.send data, env)).log = a.log ++ [.data i route payload]) :
    a.state ≠ .failed ∧
    ∃ t, .answered i t ∈ a.log ∧ ∀ T, .pass T ∈ a.log → T < t + consentTimeoutMs := by
  obtain ⟨hstate, d, hd, hpair, hkeep⟩ := hok.send data i rfl (send_selected hsent)
  obtain ⟨t, hmem, _, hpass⟩ := h.consenting.kept d hd hkeep i hpair
  exact ⟨hstate, t, hmem, hpass⟩

/-- No timer pass of a log is later than a time. -/
def passedBy (now : Int) : LogItem → Bool
  | .pass t => t ≤ now
  | _ => true

theorem Timely.of_passed (h : a.log.all (passedBy env.now) = true) : Timely env a := by
  intro T hT
  simpa [passedBy] using List.all_eq_true.mp h _ hT

theorem Gated.of_passed {e : AgentEvent × AgentEnv} (hlog : a.log.all (passedBy e.2.now) = true)
    (he : ∀ data, e.1 ≠ .send data) : Gated a e where
  timely := .of_passed hlog
  send data _ hdata := absurd hdata (he data)

/-- The only check is answered. -/
def consented : Agent := checked.step forgedAnswer

theorem data_has_consent_first :
    (consented.step (.send [1], calmEnv 120)).log = consented.log ++ [.data 0 .udp [1]] ∧
    consented.state ≠ .failed ∧ ∃ t, .answered 0 t ∈ consented.log ∧
      ∀ T, .pass T ∈ consented.log → T < t + consentTimeoutMs := by
  have hgather : Runs Gated ((small {}).step quietGather) :=
    .next _ (.start ⟨_, _, _, _, rfl⟩) ⟨.of_passed rfl fun _ h => (by cases h), rfl⟩
  have harmed : Runs Gated armed :=
    .next quietDescribe hgather ⟨.of_passed (by decide +kernel) fun _ h => (by cases h), rfl⟩
  have hpass : Runs Gated checked :=
    .next (drivePass 100 (oneTid 1)) harmed
      ⟨.of_passed (by decide +kernel) fun _ h => (by cases h), rfl⟩
  have hrun : Runs Gated consented :=
    .next forgedAnswer hpass
      ⟨.of_passed (by decide +kernel) fun _ h => (by cases h), rfl⟩
  have hselected : consented.selectedPair = some 0 := by decide +kernel
  have hroute : consented.dataRoute 0 = some .udp := by decide +kernel
  have hsent := @send_logged (calmEnv 120) consented [1] 0 .udp hselected hroute rfl
  have hgated : Gated consented (.send [1], calmEnv 120) := by
    refine ⟨.of_passed (by decide +kernel), fun data i _ hi => ?_⟩
    cases hselected.symm.trans hi
    exact ⟨by decide +kernel, by decide +kernel⟩
  exact ⟨hsent, data_has_consent hrun hgated hsent⟩

/-- The pair is nominated, and then no answer comes for a while. -/
def expiredEvents : List (AgentEvent × AgentEnv) :=
  [quietGather, quietDescribe, drivePass 100 (oneTid 1), forgedAnswer,
    drivePass 200 (oneTid 2), drivePass 300 (oneTid 2),
    (.udpPacket (peerResponse none (oneTid 2)) (udpAt 2 2000), quietEnv 310),
    (.onBookkeeping, quietEnv 400), (.onBookkeeping, quietEnv 40000)]

def expired : Agent := expiredEvents.foldl step (small {})

/-- Consent has expired and the agent has failed, and it still sends. -/
theorem data_without_consent : Runs (fun _ _ => True) expired ∧ expired.state = .failed ∧
    (expired.pairs.all fun p => p.state = .failed) = true ∧
    .pass 40000 ∈ expired.log ∧
    (∀ t, .answered 0 t ∈ expired.log → t + consentTimeoutMs < 40000) ∧
    (expired.step (.send [1], calmEnv 40001)).log = expired.log ++ [.data 0 .udp [1]] := by
  have hselected : expired.selectedPair = some 0 := by decide +kernel
  have hlast : expired.log.getLast? = some (.pass 40000) := by decide +kernel
  have hroute : expired.dataRoute 0 = some .udp := by decide +kernel
  have hsent := @send_logged (calmEnv 40001) expired [1] 0 .udp hselected hroute rfl
  refine ⟨.of_events _ _ _ _ _, by decide +kernel, by decide +kernel, List.mem_of_getLast? hlast,
    fun t ht => ?_, hsent⟩
  · have hall : (expired.log.all fun x => match x with
        | .answered _ t => decide (t + consentTimeoutMs < 40000)
        | _ => true) = true := by decide +kernel
    simpa using List.all_eq_true.mp hall _ ht

end Agent

end Stice.Ice
