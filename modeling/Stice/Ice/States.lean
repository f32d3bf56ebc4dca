import Stice.Ice.Paths

/-! The state machine of the agent, as its callback sees it. The trail of a run are the states
it reports and the passes of `updateState` between them. -/
namespace Stice.Ice
open Lib Net Stun

/-- The transitions an agent may report. -/
inductive Transition : AgentState → AgentState → Prop
  | gather : Transition .disconnected .gathering
  | gatherAgain : Transition .failed .gathering
  | connect : Transition .gathering .connecting
  | connected : Transition .connecting .connected
  | complete : Transition .connected .completed
  | fail {s : AgentState} (h : s.checking = true) : Transition s .failed

theorem Transition.ne {s t : AgentState} (h : Transition s t) : s ≠ t := by
  cases h with
  | fail h =>
    intro heq
    rw [heq] at h
    cases h
  | _ => decide

/-- What belongs to the trail. -/
def LogItem.isTrail : LogItem → Bool
  | .state _ | .update _ _ _ => true
  | _ => false

def LogItem.state? : LogItem → Option AgentState
  | .state s => some s
  | _ => none

/-- The states a trail reports, from the first one on. -/
def reported (trail : List LogItem) : List AgentState :=
  .disconnected :: trail.filterMap LogItem.state?

/-- The state at the end of a trail. -/
def lastReported (trail : List LogItem) : AgentState :=
  (trail.filterMap LogItem.state?).getLast?.getD .disconnected

/-- The passes of `updateState` in a piece of a trail all find that every pair has failed. -/
def AllFailing (piece : List LogItem) : Prop :=
  ∀ t succeeded failed, .update t succeeded failed ∈ piece → succeeded = false ∧ failed = true

/-- The pass that ends a trail finds every pair failed, and so do all since one that was the
patience of RFC 8863 before. -/
def Patient (trail : List LogItem) : Prop :=
  ∃ before start between stop, trail = before ++ .update start false true ::
      (between ++ [.update stop false true]) ∧
    icePacTimeoutMs ≤ stop - start ∧ AllFailing between

structure Lawful (trail : List LogItem) : Prop where
  chain : (reported trail).IsChain Transition
  connected : ∀ before after, trail = before ++ .state .connected :: after →
    ∃ rest t failed, before = rest ++ [.update t true failed]
  failed : ∀ before after, trail = before ++ .state .failed :: after →
    lastReported before = .connecting → Patient before

/-- A place in a list with one more element is in the list or at its end. -/
theorem split_concat {α : Type} {l before after : List α} {x y : α}
    (h : l ++ [y] = before ++ x :: after) : (after = [] ∧ before = l ∧ x = y) ∨
      ∃ rest, after = rest ++ [y] ∧ l = before ++ x :: rest := by
  rcases List.eq_nil_or_concat after with rfl | ⟨rest, z, rfl⟩
  · obtain ⟨hl, hy⟩ := List.append_inj' h rfl
    cases hy
    exact .inl ⟨rfl, hl.symm, rfl⟩
  · rw [List.concat_eq_append] at h ⊢
    have h' : l ++ [y] = (before ++ x :: rest) ++ [z] := by
      rw [h, List.append_assoc, List.cons_append]
    obtain ⟨hl, hz⟩ := List.append_inj' h' rfl
    cases hz
    exact .inr ⟨rest, rfl, hl⟩

theorem lastReported_state (trail : List LogItem) (s : AgentState) :
    lastReported (trail ++ [.state s]) = s := by
  unfold lastReported
  rw [List.filterMap_append]
  exact congrArg (Option.getD · _) List.getLast?_concat

theorem lastReported_update (trail : List LogItem) (t : Int) (succeeded failed : Bool) :
    lastReported (trail ++ [.update t succeeded failed]) = lastReported trail := by
  unfold lastReported
  rw [List.filterMap_append]
  exact congrArg (fun l => (List.getLast? l).getD _) (List.append_nil _)

theorem getLast?_reported (trail : List LogItem) :
    (reported trail).getLast? = some (lastReported trail) := by
  unfold reported lastReported
  cases h : trail.filterMap LogItem.state? with
  | nil => rfl
  | cons s l => rw [List.getLast?_cons_cons, List.getLast?_eq_getLast_of_ne_nil (by simp)]; rfl

namespace Lawful

variable {trail : List LogItem}

theorem nil : Lawful [] where
  chain := List.isChain_singleton _
  connected before after h := by
    simp at h
  failed before after h := by
    simp at h

theorem update (h : Lawful trail) (t : Int) (succeeded failed : Bool) :
    Lawful (trail ++ [.update t succeeded failed]) where
  chain := by
    unfold reported
    rw [List.filterMap_append]
    exact (List.append_nil (trail.filterMap LogItem.state?)).symm ▸ h.chain
  connected before after hsplit := by
    rcases split_concat hsplit with ⟨_, _, hx⟩ | ⟨rest, _, hl⟩
    · cases hx
    · exact h.connected before rest hl
  failed before after hsplit hlast := by
    rcases split_concat hsplit with ⟨_, _, hx⟩ | ⟨rest, _, hl⟩
    · cases hx
    · exact h.failed before rest hl hlast

/-- A state is reported. -/
theorem state {s : AgentState} (h : Lawful trail) (hstep : Transition (lastReported trail) s)
    (hconnected : s = .connected → ∃ rest t failed, trail = rest ++ [.update t true failed])
    (hfailed : s = .failed → lastReported trail = .connecting → Patient trail) :
    Lawful (trail ++ [.state s]) where
  chain := by
    have hreported : reported (trail ++ [.state s]) = reported trail ++ [s] := by
      unfold reported
      rw [List.filterMap_append]
      rfl
    rw [hreported]
    refine List.isChain_append.mpr ⟨h.chain, List.isChain_singleton _, ?_⟩
    intro x hx y hy
    rw [getLast?_reported] at hx
    cases hx
    cases hy
    exact hstep
  connected before after hsplit := by
    rcases split_concat hsplit with ⟨_, rfl, hx⟩ | ⟨rest, _, hl⟩
    · cases hx
      exact hconnected rfl
    · exact h.connected before rest hl
  failed before after hsplit hlast := by
    rcases split_concat hsplit with ⟨_, rfl, hx⟩ | ⟨rest, _, hl⟩
    · cases hx
      exact hfailed rfl hlast
    · exact h.failed before rest hl hlast

end Lawful

/-- The patience that ends at a deadline began with a pass from which on all pairs had failed. -/
def Waiting (trail : List LogItem) (deadline : Int) : Prop :=
  ∃ before start between, trail = before ++ .update start false true :: between ∧
    deadline = start + icePacTimeoutMs ∧ AllFailing between

theorem Waiting.begin (before : List LogItem) (start : Int) :
    Waiting (before ++ [.update start false true]) (start + icePacTimeoutMs) :=
  ⟨before, start, [], rfl, rfl, fun _ _ _ h => absurd h List.not_mem_nil⟩

theorem Waiting.update {trail : List LogItem} {deadline : Int} (h : Waiting trail deadline)
    (t : Int) : Waiting (trail ++ [.update t false true]) deadline := by
  obtain ⟨before, start, between, rfl, hdeadline, hall⟩ := h
  refine ⟨before, start, between ++ [.update t false true], by simp, hdeadline, ?_⟩
  intro u succeeded failed hmem
  rcases List.mem_append.mp hmem with hmem | hmem
  · exact hall u succeeded failed hmem
  · cases List.mem_singleton.mp hmem
    exact ⟨rfl, rfl⟩

/-- A deadline that has passed has been waited for. -/
theorem Waiting.patient {rest : List LogItem} {stop deadline : Int}
    (h : Waiting (rest ++ [.update stop false true]) deadline) (hpassed : deadline ≤ stop) :
    Patient (rest ++ [.update stop false true]) := by
  obtain ⟨before, start, between, hsplit, hdeadline, hall⟩ := h
  have hpositive : 0 < icePacTimeoutMs := by decide
  rcases split_concat hsplit with ⟨_, _, hx⟩ | ⟨inner, rfl, rfl⟩
  · -- the deadline would be later than the pass that sets it
    cases hx
    omega
  · refine ⟨before, start, inner, stop, by simp, by omega, ?_⟩
    intro t succeeded failed hmem
    exact hall t succeeded failed (List.mem_append_left _ hmem)

namespace Agent

variable {env : AgentEnv} {a b : Agent}

/-- The states an agent has reported and its passes of `updateState`. -/
def trail (a : Agent) : List LogItem := a.log.filter LogItem.isTrail

theorem note_trail {item : LogItem} (h : item.isTrail = false) (a : Agent) :
    (a.note item).trail = a.trail := by
  unfold trail note
  rw [List.filter_append, List.filter_cons_of_neg (by rw [h]; decide), List.filter_nil,
    List.append_nil]

theorem note_update_trail (a : Agent) (t : Int) (succeeded failed : Bool) :
    (a.note (.update t succeeded failed)).trail = a.trail ++ [.update t succeeded failed] := by
  unfold trail note
  rw [List.filter_append]
  rfl

theorem changeState_trail (env : AgentEnv) (a : Agent) {s : AgentState} (h : a.state ≠ s) :
    (a.changeState env s).trail = a.trail ++ [.state s] := by
  have hnote : ({ a with state := s }.note (.state s)).trail = a.trail ++ [.state s] := by
    unfold trail note
    rw [List.filter_append]
    rfl
  unfold changeState
  rw [if_neg h]
  dsimp only
  split <;> exact hnote

theorem changeState_state (env : AgentEnv) (a : Agent) (s : AgentState) :
    (a.changeState env s).state = s := by
  unfold changeState
  split
  · assumption
  · dsimp only
    split <;> rfl

theorem changeState_pacDeadline (env : AgentEnv) (a : Agent) (s : AgentState) :
    (a.changeState env s).pacDeadline = a.pacDeadline := by
  unfold changeState
  split
  · rfl
  · dsimp only
    split <;> rfl

/-- What the agent has reported is lawful and ends with its state. -/
structure Reporting (a : Agent) : Prop where
  lawful : Lawful a.trail
  last : lastReported a.trail = a.state

theorem Reporting.update (h : Reporting a) (t : Int) (succeeded failed : Bool) :
    Reporting (a.note (.update t succeeded failed)) where
  lawful := by
    rw [note_update_trail]
    exact h.lawful.update t succeeded failed
  last := by
    rw [note_update_trail, lastReported_update]
    exact h.last

theorem Reporting.changeState {s : AgentState} (env : AgentEnv) (h : Reporting a)
    (hstep : Transition a.state s)
    (hconnected : s = .connected → ∃ rest t failed, a.trail = rest ++ [.update t true failed])
    (hfailed : s = .failed → a.state = .connecting → Patient a.trail) :
    Reporting (a.changeState env s) where
  lawful := by
    rw [changeState_trail env a hstep.ne]
    exact h.lawful.state (h.last.symm ▸ hstep) hconnected fun hs hlast =>
      hfailed hs (h.last.symm.trans hlast)
  last := by
    rw [changeState_trail env a hstep.ne, lastReported_state, changeState_state]

/-- The deadline is that of the patience of a connecting agent. -/
structure Watched (a : Agent) : Prop extends Reporting a where
  waits : a.state = .connecting → ∀ d, a.pacDeadline = some d → Waiting a.trail d
  clear : a.state = .disconnected ∨ a.state = .gathering → a.pacDeadline = none

theorem Watched.congr (h : Watched a) (ht : b.trail = a.trail) (hs : b.state = a.state)
    (hd : b.pacDeadline = a.pacDeadline) : Watched b where
  lawful := by
    rw [ht]
    exact h.lawful
  last := by
    rw [ht, hs]
    exact h.last
  waits := by
    rw [ht, hs, hd]
    exact h.waits
  clear := by
    rw [hs, hd]
    exact h.clear

theorem Watched.of_clear (h : Reporting a) (hd : a.pacDeadline = none) : Watched a :=
  ⟨h, (fun _ d hsome => by rw [hd] at hsome; cases hsome), fun _ => hd⟩

/-- In the other states the deadline means nothing. -/
theorem Watched.of_state (h : Reporting a)
    (hs : a.state = .connected ∨ a.state = .completed ∨ a.state = .failed) : Watched a := by
  refine ⟨h, ?_, ?_⟩
  · intro hconnecting
    rw [hconnecting] at hs
    rcases hs with hs | hs | hs <;> cases hs
  · intro hearly
    rcases hearly with hearly | hearly <;> rw [hearly] at hs <;> rcases hs with hs | hs | hs <;>
      cases hs

theorem Watched.enterConnected (env : AgentEnv) (best : Nat) (h : Reporting a)
    (hend : ∃ rest t failed, a.trail = rest ++ [.update t true failed])
    (hclear : a.state = .disconnected ∨ a.state = .gathering → a.pacDeadline = none) :
    Watched (a.enterConnected env best) := by
  -- an agent that is neither connecting nor connected goes on as it is
  have hstay : a.state ≠ .connecting → Watched a := by
    intro hne
    exact ⟨h, fun hs => absurd hs hne, hclear⟩
  have hconnect : ∀ b : Agent, Reporting b → b.state = .connecting → b.trail = a.trail →
      Reporting (b.changeState env .connected) := by
    intro b hb hs ht
    refine hb.changeState env (hs ▸ .connected) ?_ fun hf => by cases hf
    rw [ht]
    exact fun _ => hend
  have hcomplete : ∀ b : Agent, Reporting b → b.state = .connected →
      Watched (b.changeState env .completed) := by
    intro b hb hs
    refine .of_state (hb.changeState env (hs ▸ .complete) (fun hf => by cases hf) fun hf => by
      cases hf) (.inr (.inl ?_))
    exact changeState_state env b _
  unfold Agent.enterConnected
  dsimp only
  split
  · split
    · rename_i hs
      refine hcomplete _ (hconnect _ ⟨h.lawful, h.last⟩ hs rfl) (changeState_state env _ _)
    · rename_i hne
      split
      · rename_i hs
        exact hcomplete _ ⟨h.lawful, h.last⟩ hs
      · exact (hstay hne).congr rfl rfl rfl
  · split
    · rename_i hs
      exact .of_state (hconnect _ ⟨h.lawful, h.last⟩ hs rfl) (.inl (changeState_state env _ _))
    · rename_i hne
      exact (hstay hne).congr rfl rfl rfl

theorem Watched.enterFailed (h : Watched a)
    (hend : ∃ rest, a.trail = rest ++ [.update env.now false true]) :
    Watched (a.enterFailed env) := by
  obtain ⟨rest, hend⟩ := hend
  unfold Agent.enterFailed
  split
  · rename_i hs
    split
    · refine ⟨⟨h.lawful, h.last⟩, ?_, ?_⟩
      · intro _ d hd
        cases hd
        exact hend ▸ Waiting.begin rest env.now
      · intro hearly
        have hearly : a.state = .disconnected ∨ a.state = .gathering := hearly
        rw [hs] at hearly
        rcases hearly with hearly | hearly <;> cases hearly
    · rename_i deadline hd
      split
      · exact h
      · rename_i hpassed
        have hpatient : Patient a.trail := by
          have hwait := h.waits hs deadline hd
          rw [hend] at hwait ⊢
          exact hwait.patient (by omega)
        have hcleared : Reporting { a with pacDeadline := none } := ⟨h.lawful, h.last⟩
        refine .of_state (hcleared.changeState env (.fail ?_) (fun hf => by cases hf)
          fun _ _ => hpatient) (.inr (.inr (changeState_state env _ _)))
        rw [hs]
        rfl
  · rename_i hne
    split
    · rename_i hs
      refine .of_state (h.toReporting.changeState env (.fail ?_) (fun hf => by cases hf)
        fun _ hs => absurd hs hne) (.inr (.inr (changeState_state env _ _)))
      rcases hs with hs | hs <;> rw [hs] <;> rfl
    · exact h

theorem Watched.updateState (env : AgentEnv) (h : Watched a) : Watched (a.updateState env) := by
  have hnoted := h.toReporting.update env.now a.selection.isSome a.allFailed
  have htrail := note_update_trail a env.now a.selection.isSome a.allFailed
  unfold Agent.updateState
  dsimp only
  cases hbest : a.selection with
  | some best =>
    rw [hbest] at hnoted htrail
    exact .enterConnected env best hnoted ⟨_, _, _, htrail⟩ h.clear
  | none =>
    rw [hbest] at hnoted htrail
    dsimp only
    split
    · rename_i hall
      have hall : a.allFailed = true := hall
      rw [hall] at hnoted htrail ⊢
      refine .enterFailed ⟨hnoted, ?_, h.clear⟩ ⟨_, htrail⟩
      intro hs d hd
      rw [htrail]
      exact (h.waits hs d hd).update env.now
    · exact .of_clear ⟨hnoted.lawful, hnoted.last⟩ rfl

theorem Watched.startGathering (h : Watched a) (hs : a.state = .disconnected ∨ a.state = .failed)
    (hclear : a.pacDeadline = none) : Watched (a.startGathering env) := by
  have hstep : Transition a.state .gathering := by
    rcases hs with hs | hs <;> rw [hs]
    · exact .gather
    · exact .gatherAgain
  have hreporting := h.toReporting.changeState env hstep (fun hf => by cases hf) fun hf => by
    cases hf
  have hwatched : Watched (a.changeState env .gathering) :=
    .of_clear hreporting ((changeState_pacDeadline env a _).trans hclear)
  exact hwatched.congr rfl rfl rfl

theorem Watched.connect (h : Watched a) (hs : a.state = .gathering ∨ a.state = .connecting) :
    Watched (a.changeState env .connecting) := by
  rcases hs with hs | hs
  · have hclear := h.clear (.inr hs)
    refine .of_clear (h.toReporting.changeState env (hs ▸ .connect) (fun hf => by cases hf)
      fun hf => by cases hf) ((changeState_pacDeadline env a _).trans hclear)
  · unfold changeState
    rwa [if_pos hs]

theorem sendCheck_trail {j : Nat} {e : StunEntry} (env : AgentEnv) (he : a.entries[j]? = some e) :
    (a.sendCheck env j).trail = a.trail ∧ (a.sendCheck env j).state = a.state ∧
      (a.sendCheck env j).pacDeadline = a.pacDeadline := by
  rcases sendCheck_cases env he with heq | ⟨tid, _, ⟨_, _, _, heq⟩ | heq | heq⟩ <;> rw [heq]
  · exact ⟨rfl, rfl, rfl⟩
  · exact ⟨note_trail rfl _, rfl, rfl⟩
  · exact ⟨rfl, rfl, rfl⟩
  · cases e.pair <;> exact ⟨rfl, rfl, rfl⟩

theorem Move.watched {k : Kind} (hm : Move env a k b) (hk : k ≠ .gather) (h : Watched a) :
    Watched b := by
  cases hm with
  | gather => exact absurd rfl hk
  | setup hs => exact h.congr (congrArg (List.filter _) hs.log) hs.state hs.pacDeadline
  | connect hs => exact h.connect hs
  | update => exact h.updateState env
  | announce | pushServer | resend | respond | data | pass =>
      exact h.congr (note_trail rfl _) rfl rfl
  | send j he =>
    obtain ⟨ht, hs, hd⟩ := sendCheck_trail env he
    exact h.congr ht hs hd
  | failPair i => cases i <;> exact h.congr rfl rfl rfl
  | freeze =>
    unfold freezeOthers
    split
    · exact h
    · exact h.congr rfl rfl rfl
  | accept j i =>
    have hanswered := acceptAnswer_answered env a j i
    refine h.congr ?_ hanswered.state hanswered.pacDeadline
    unfold trail
    rw [hanswered.log]
    exact note_trail rfl a
  | request i =>
    have hasked := askNomination_asked env a i
    exact h.congr (congrArg (List.filter _) hasked.log) hasked.state hasked.pacDeadline
  | note item hitem =>
    refine h.congr (note_trail ?_ _) rfl rfl
    cases hitem
    rfl
  | _ => exact h.congr rfl rfl rfl

theorem Goes.watched {K : Kind → Bool} (hg : Goes env K a b)
    (hK : ∀ k, K k = true → k ≠ .gather) (h : Watched a) : Watched b :=
  Goes.invariant (P := Watched) (fun _ k _ hk hm h => hm.watched (hK k hk) h) hg h

/-! ## What `updateState` looks for -/

theorem bestPair_succeeded {keep : Nat → Bool} {i : Nat} (h : a.bestPair keep = some i) :
    a.pairState i = some .succeeded := by
  unfold bestPair at h
  -- whatever the fold has kept so far has succeeded
  have hfold : ∀ (l : List Nat) (best : Option Nat),
      (∀ j, best = some j → a.pairState j = some .succeeded) → ∀ j,
      l.foldl (fun best i => if a.pairState i = some .succeeded && keep i &&
        best.all fun j => a.pairPriority j < a.pairPriority i then some i else best) best = some j →
      a.pairState j = some .succeeded := by
    intro l
    induction l with
    | nil => exact fun best hbest j hj => hbest j hj
    | cons i l ih =>
      intro best hbest
      refine ih _ fun j hj => ?_
      dsimp only at hj
      split at hj
      · rename_i hkept
        cases hj
        simp only [Bool.and_eq_true, decide_eq_true_eq] at hkept
        exact hkept.1.1
      · exact hbest j hj
  exact hfold _ none (fun j hj => by cases hj) i h

theorem selection_succeeded {i : Nat} (h : a.selection = some i) :
    a.pairState i = some .succeeded := by
  unfold selection at h
  dsimp only at h
  split at h
  · cases htcp : a.bestPair fun i => a.pairIsTcpRelay (some i) with
    | some t =>
      rw [htcp] at h
      cases h
      exact bestPair_succeeded htcp
    | none =>
      rw [htcp] at h
      exact bestPair_succeeded h
  · split at h
    · rename_i t u htcp hudp
      split at h
      · cases h
        exact bestPair_succeeded htcp
      · cases h
        exact bestPair_succeeded hudp
    · rename_i t htcp _
      cases h
      exact bestPair_succeeded htcp
    · exact bestPair_succeeded h

/-! ## Runs -/

/-- An agent that has failed gathers again only once its deadline has been taken back. -/
def Restarts (a : Agent) (e : AgentEvent × AgentEnv) : Prop :=
  ∀ hosts, e.1 = .gatherCandidates hosts → a.state = .failed → a.pacDeadline = none

/-- In every run in which an agent that gathers again has no deadline left, the states it
reports follow the state machine; what `updateState` selects has succeeded, and it finds all
pairs failed if there are pairs and all have. -/
theorem state_machine_lawful (h : Runs Restarts a) : Lawful a.trail ∧
    lastReported a.trail = a.state ∧
    (∀ i, a.selection = some i → a.pairState i = some .succeeded) ∧
    (a.allFailed = true ↔ a.pairs ≠ [] ∧ ∀ p ∈ a.pairs, p.state = .failed) := by
  have hwatched : Watched a := by
    refine Runs.invariant (P := Watched) ?_ ?_ h
    · rintro a ⟨config, ufrag, pwd, tiebreaker, rfl⟩
      exact .of_clear ⟨.nil, rfl⟩ rfl
    · intro a e env hok hc hgoes ha
      by_cases he : ∃ hosts, e = .gatherCandidates hosts
      · obtain ⟨hosts, rfl⟩ := he
        rcases @Goes.gatherCandidates_cases env a hosts with heq | ⟨hs, hpath⟩
        · change Watched (a.gatherCandidates env hosts)
          rwa [heq]
        · have hclear : a.pacDeadline = none := by
            rcases hs with hs | hs
            · exact ha.clear (.inl hs)
            · exact hok hosts rfl hs
          refine hpath.watched (fun k hk => ?_) (ha.startGathering hs hclear)
          rintro rfl
          cases hk
      · refine hgoes.watched (fun k hk => ?_) ha
        rintro rfl
        cases e <;> first | exact he ⟨_, rfl⟩ | cases hk
  refine ⟨hwatched.lawful, hwatched.last, fun i => selection_succeeded, ?_⟩
  unfold allFailed
  simp

/-- `Restarts`, as a check. -/
def restarts (a : Agent) (e : AgentEvent × AgentEnv) : Bool :=
  match e.1 with
  | .gatherCandidates _ => a.state ≠ .failed || a.pacDeadline.isNone
  | _ => true

theorem Restarts.of_restarts (a : Agent) (e : AgentEvent × AgentEnv) (h : a.restarts e = true) :
    Restarts a e := by
  intro hosts he hfailed
  simpa [restarts, he, hfailed] using h

/-- The only check is refused and the agent fails. It gathers again, learns another candidate,
and the peer has the first one checked with success. -/
def restartEvents : List (AgentEvent × AgentEnv) :=
  [quietGather, quietDescribe, drivePass 100 (oneTid 1), peerRefuses 110 (oneTid 1),
    (.onBookkeeping, quietEnv 39700), (.gatherCandidates [], quietEnv 39800),
    (.addRemoteCandidate lowerLine, quietEnv 39801),
    (.udpPacket (peerRequest noTransaction []) (udpAt 2 2000), quietEnv 39810),
    drivePass 39900 (oneTid 2), peerAnswers 39910 (oneTid 2), drivePass 40000 (oneTid 3)]

def restartTrail : List LogItem :=
  [.state .gathering, .state .connecting, .update 100 false false,
    .update 110 false true, .update 39700 false true, .state .failed, .state .gathering,
    .state .connecting, .update 39900 false false, .update 40000 true false,
    .state .connected]

theorem state_machine_lawful_restarted :
    ∃ a : Agent, a.trail = restartTrail ∧
      Lawful a.trail ∧ lastReported a.trail = a.state ∧
      (∀ i, a.selection = some i → a.pairState i = some .succeeded) ∧
      (a.allFailed = true ↔ a.pairs ≠ [] ∧ ∀ p ∈ a.pairs, p.state = .failed) := by
  have hrun : (checkedRun restarts step (small {}) restartEvents).map trail =
      some restartTrail := by
    decide +kernel
  obtain ⟨a, ha, htrail⟩ := Option.map_eq_some_iff.mp hrun
  have hreach : Runs Restarts a :=
    Reach.of_checkedRun Fresh Restarts.of_restarts (.start ⟨_, _, _, _, rfl⟩) ha
  exact ⟨a, htrail, state_machine_lawful hreach⟩

/-- Since a pass that found a succeeded pair there has not been time for the patience. -/
theorem not_patient {earlier later : List LogItem} {t stop : Int} {failed : Bool}
    (h : ∀ start, .update start false true ∈ later → stop - start < icePacTimeoutMs) :
    ¬Patient (earlier ++ .update t true failed :: (later ++ [.update stop false true])) := by
  rintro ⟨before, start, between, stop', hsplit, htime, hall⟩
  rcases List.append_eq_append_iff.mp hsplit with ⟨mid, _, hrest⟩ | ⟨mid, _, hrest⟩
  · cases mid with
    | nil => cases hrest
    | cons x mid =>
      obtain ⟨_, hrest⟩ := List.cons_eq_cons.mp hrest
      have hrest : later ++ [.update stop false true] =
          (mid ++ .update start false true :: between) ++ [.update stop' false true] := by
        rw [hrest]
        simp
      obtain ⟨rfl, hstop⟩ := List.append_inj' hrest rfl
      cases hstop
      have hlate := h start (by simp)
      omega
  · cases mid with
    | nil => cases hrest
    | cons x mid =>
      obtain ⟨_, hrest⟩ := List.cons_eq_cons.mp hrest
      have hrest : between ++ [.update stop' false true] =
          (mid ++ .update t true failed :: later) ++ [.update stop false true] := by
        rw [hrest]
        simp
      obtain ⟨rfl, _⟩ := List.append_inj' hrest rfl
      cases (hall t true failed (by simp)).1

/-- The only check is refused, which sets the deadline; the peer has it checked again, and the
first request is answered after all. Once the agent has failed, it gathers again. -/
def impatientEvents : List (AgentEvent × AgentEnv) :=
  [quietGather, quietDescribe, drivePass 100 (oneTid 1), peerRefuses 110 (oneTid 1),
    (.udpPacket (peerRequest noTransaction []) (udpAt 2 2000), quietEnv 120),
    (.udpPacket (peerResponse none (oneTid 1)) (udpAt 2 2000), quietEnv 130),
    drivePass 200 (oneTid 2), drivePass 300 (oneTid 2), peerRefuses 310 (oneTid 2),
    (.gatherCandidates [], quietEnv 400),
    (.addRemoteCandidate (ascii "a=candidate:1 2 UDP 2130706431 10.0.0.3 3000 typ host"),
      { quietEnv 401 with
        parseCandidate := fun _ => some { hostAt (udpAt 3 3000) with component := 2 } }),
    (.onBookkeeping, quietEnv 39700)]

def impatient : Agent := impatientEvents.foldl step (small {})

theorem state_machine_impatient : Runs (fun _ _ => True) impatient ∧ ¬Lawful impatient.trail := by
  refine ⟨.of_events _ _ _ _ _, fun h => ?_⟩
  have htrail : impatient.trail = ([.state .gathering, .state .connecting,
      .update 100 false false, .update 110 false true, .update 200 true false,
      .state .connected] ++ .update 300 true false :: ([.update 310 false true, .state .failed,
      .state .gathering, .state .connecting] ++ [.update 39700 false true])) ++
      .state .failed :: [] := by
    decide +kernel
  refine not_patient ?_ (h.failed _ _ htrail (by decide))
  intro start hstart
  have hstart : start = 310 := by simpa using hstart
  rw [hstart]
  decide

end Agent

end Stice.Ice
