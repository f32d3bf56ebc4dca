import Stice.Ice.Paths

/-! Pairs and the candidates they point to. A pair keeps joining the two candidates it was
created from as long as no description replaces the remote candidates under it and no sort
moves the local ones; `Steady` says so of a step. -/
namespace Stice.Ice
open Lib Net Stun
open Tcp (TcpState)

/-- Two candidates of one address, transport and type. -/
structure Candidate.Same (c d : Candidate) : Prop where
  resolved : c.resolved = d.resolved
  transport : c.transport = d.transport
  type : c.type = d.type

/-- Every pair joins the two candidates it was created from, `L` holds of them, and no two
pairs join the same two. -/
structure Table (L : Candidate → Candidate → Prop) (locals remotes : Deque Candidate)
    (pairs : List PairEnds) : Prop where
  local_at : ∀ p ∈ pairs, locals.at? p.localPtr = some p.origin.1
  remote_at : ∀ p ∈ pairs, remotes.at? p.remotePtr = some p.origin.2
  legal : ∀ p ∈ pairs, L p.origin.1 p.origin.2
  distinct : pairs.Pairwise fun p q => ¬(p.localPtr = q.localPtr ∧ p.remotePtr = q.remotePtr)

namespace Table

variable {L : Candidate → Candidate → Prop} {locals remotes : Deque Candidate}
  {pairs : List PairEnds}

theorem nil : Table L locals remotes [] where
  local_at _ hp := absurd hp List.not_mem_nil
  remote_at _ hp := absurd hp List.not_mem_nil
  legal _ hp := absurd hp List.not_mem_nil
  distinct := .nil

theorem pushLocal (h : Table L locals remotes pairs) (c : Candidate) :
    Table L (locals.pushBack c) remotes pairs where
  local_at p hp := Deque.at?_pushBack (h.local_at p hp)
  remote_at := h.remote_at
  legal := h.legal
  distinct := h.distinct

theorem pushRemote (h : Table L locals remotes pairs) (c : Candidate) :
    Table L locals (remotes.pushBack c) pairs where
  local_at := h.local_at
  remote_at p hp := Deque.at?_pushBack (h.remote_at p hp)
  legal := h.legal
  distinct := h.distinct

theorem append (h : Table L locals remotes pairs) {p : PairEnds}
    (hlocal : locals.at? p.localPtr = some p.origin.1)
    (hremote : remotes.at? p.remotePtr = some p.origin.2) (hlegal : L p.origin.1 p.origin.2)
    (hnew : ∀ q ∈ pairs, ¬(q.localPtr = p.localPtr ∧ q.remotePtr = p.remotePtr)) :
    Table L locals remotes (pairs ++ [p]) where
  local_at := List.forall_mem_append.mpr ⟨h.local_at, List.forall_mem_singleton.mpr hlocal⟩
  remote_at := List.forall_mem_append.mpr ⟨h.remote_at, List.forall_mem_singleton.mpr hremote⟩
  legal := List.forall_mem_append.mpr ⟨h.legal, List.forall_mem_singleton.mpr hlegal⟩
  distinct := List.pairwise_append.mpr ⟨h.distinct, List.pairwise_singleton _ _,
    fun q hq _ hp => List.mem_singleton.mp hp ▸ hnew q hq⟩

end Table

namespace Agent

variable {L : Candidate → Candidate → Prop} {env : AgentEnv} {a b : Agent}
variable {c : Candidate} {cs : List Candidate} {msg : Message} {src : AddrRecord} {j : Nat}
  {transport : CandidateTransport}

def ends (a : Agent) : List PairEnds := a.pairs.map (·.toPairEnds)

/-- The table of an agent. -/
def Paired (L : Candidate → Candidate → Prop) (a : Agent) : Prop :=
  Table L a.localDesc.candidates a.remoteDesc.candidates a.ends

theorem Paired.of_nil (h : a.pairs = []) : Paired L a := by
  unfold Paired ends
  rw [h]
  exact .nil

/-- A pair is entered. -/
theorem Paired.append {l r : Candidate × Nat} (h : Paired L a)
    (hl : l ∈ a.localDesc.candidates.refs) (hr : r ∈ a.remoteDesc.candidates.refs)
    (hlegal : L l.1 r.1) (hnew : ∀ p ∈ a.pairs, p.joins l r = false) :
    Paired L { a with pairs := a.pairs ++ [b.newPair l r] } := by
  have hends : ({ a with pairs := a.pairs ++ [b.newPair l r] } : Agent).ends =
      a.ends ++ [(b.newPair l r).toPairEnds] := List.map_append
  unfold Paired
  rw [hends]
  refine Table.append h (Deque.mem_refs.mp hl) (Deque.mem_refs.mp hr) hlegal ?_
  intro q hq
  obtain ⟨p, hp, rfl⟩ := List.mem_map.mp hq
  intro hsame
  have hjoins : p.joins l r = true := by
    simp only [CandidatePair.joins, Bool.and_eq_true, decide_eq_true_eq]
    exact hsame
  rw [hnew p hp] at hjoins
  cases hjoins

theorem Paired.of_ends (h : Paired L a) (hlocal : b.localDesc.candidates = a.localDesc.candidates)
    (hremote : b.remoteDesc.candidates = a.remoteDesc.candidates) (hends : b.ends = a.ends) :
    Paired L b := by
  unfold Paired
  rw [hlocal, hremote, hends]
  exact h

theorem Paired.fillPairs (h : Paired L a) (hlegal : ∀ l r, pairable l r = true → L l r) :
    Paired L a.fillPairs := by
  -- the order in which the pairs are checked is no part of the table
  suffices hfill : Table L a.localDesc.candidates a.remoteDesc.candidates
      (a.fillPairs.pairs.map (·.toPairEnds)) from hfill
  refine fill_rule (P := fun pairs => Paired L { a with pairs }) ?_ h
  intro pairs l hl r hr hpairable hnew _ hpairs
  exact Paired.append (b := a) hpairs hl hr (hlegal _ _ hpairable) hnew

/-! ## Moves -/

/-- The moves that leave every pair to its candidates. -/
def steadyKind : Kind → Bool
  | .sort | .replace | .append => false
  | _ => true

theorem modifyPair_ends (a : Agent) (i : Nat) (f : PairCheck → PairCheck) :
    (a.modifyPair i f).ends = a.ends := by
  apply map_modify_eq
  intro p
  rfl

/-- The candidates and the ends of the pairs are what they were, and checks have not begun. -/
structure SameTable (a b : Agent) : Prop where
  locals : b.localDesc.candidates = a.localDesc.candidates
  remotes : b.remoteDesc.candidates = a.remoteDesc.candidates
  ends : b.ends = a.ends
  orderedPairs : b.orderedPairs = a.orderedPairs
  checking : b.state.checking = true → a.state.checking = true

theorem SameTable.trans {c : Agent} (h : SameTable a b) (h' : SameTable b c) : SameTable a c :=
  ⟨h'.1.trans h.1, h'.2.trans h.2, h'.3.trans h.3, h'.4.trans h.4, h.5 ∘ h'.5⟩

theorem SameTable.modifyPair (a : Agent) (i : Nat) (f : PairCheck → PairCheck) :
    SameTable a (a.modifyPair i f) :=
  ⟨rfl, rfl, modifyPair_ends a i f, rfl, id⟩

theorem SameTable.setPairState (a : Agent) (i : Option Nat) (s : PairState) :
    SameTable a (a.setPairState i s) := by
  cases i with
  | none => exact ⟨rfl, rfl, rfl, rfl, id⟩
  | some i => exact .modifyPair a i fun c => { c with state := s }

theorem SameTable.sendCheck {e : StunEntry} (he : a.entries[j]? = some e) :
    SameTable a (a.sendCheck env j) := by
  rcases sendCheck_cases env he with heq | ⟨tid, _, ⟨_, _, _, heq⟩ | heq | heq⟩ <;> rw [heq]
  · exact ⟨rfl, rfl, rfl, rfl, id⟩
  · exact ⟨rfl, rfl, rfl, rfl, id⟩
  · exact ⟨rfl, rfl, rfl, rfl, id⟩
  · have h := SameTable.setPairState (a.modifyEntry j fun _ => a.sentEntry e tid) e.pair .failed
    exact ⟨h.1, h.2, h.3, h.4, h.5⟩

theorem enterConnected_checking {best : Nat}
    (h : (a.enterConnected env best).state.checking = true) : a.state.checking = true := by
  unfold enterConnected at h
  dsimp only at h
  by_cases hc : a.state = .connecting
  · rw [hc]
    rfl
  · by_cases hd : a.state = .connected
    · rw [hd]
      rfl
    · simp only [hc, hd, if_false] at h
      split at h <;> exact h

theorem enterFailed_checking (h : (a.enterFailed env).state.checking = true) :
    a.state.checking = true := by
  by_cases hc : a.state = .connecting
  · rw [hc]
    rfl
  · unfold enterFailed at h
    rw [if_neg hc] at h
    split at h
    · rename_i hs
      rcases hs with hs | hs
      · rw [hs]
        rfl
      · rw [hs]
        rfl
    · exact h

theorem updateState_checking (h : (a.updateState env).state.checking = true) :
    a.state.checking = true := by
  have hnoted : (a.note (.update env.now a.selection.isSome a.allFailed)).state = a.state := rfl
  rw [← hnoted]
  unfold updateState at h
  dsimp only at h
  split at h
  · exact enterConnected_checking h
  · split at h
    · exact enterFailed_checking h
    · exact h

/-- The moves that leave the table as it is. -/
def keepsTable : Kind → Bool
  | .pushLocal | .sort | .pushRemote | .replace | .fill | .append | .role | .gather | .connect =>
    false
  | _ => true

theorem Move.sameTable {k : Kind} (hm : Move env a k b) (hk : keepsTable k = true) :
    SameTable a b := by
  have hmapIdx {f : Nat → CandidatePair → CandidatePair}
      (hf : ∀ i p, (f i p).toPairEnds = p.toPairEnds) :
      SameTable a { a with pairs := a.pairs.mapIdx f } := ⟨rfl, rfl, map_mapIdx_eq hf, rfl, id⟩
  cases hm with
  | pushLocal | sort | pushRemote | replace | fill | append | role | gather | connect => cases hk
  | setup hs =>
    exact ⟨by rw [hs.localDesc], hs.remoteCandidates, by unfold ends; rw [hs.pairs],
      hs.orderedPairs, by rw [hs.state]; exact id⟩
  | update =>
    have hframe := @Frame.updateState env a
    exact ⟨by rw [hframe.localDesc], by rw [hframe.remoteDesc], by unfold ends; rw [hframe.pairs],
      hframe.orderedPairs, updateState_checking⟩
  | send j he => exact .sendCheck he
  | failPair i => exact .setPairState a i .failed
  | pend i => exact .setPairState a (some i) .pending
  | failPairs f =>
    refine hmapIdx fun i p => ?_
    split <;> rfl
  | freeze =>
    unfold freezeOthers
    split
    · exact ⟨rfl, rfl, rfl, rfl, id⟩
    · refine hmapIdx fun i p => ?_
      split <;> rfl
  | accept j i =>
    have hanswered := acceptAnswer_answered env a j i
    refine ⟨by rw [hanswered.localDesc], by rw [hanswered.remoteDesc], ?_, hanswered.orderedPairs,
      by rw [hanswered.state]; exact id⟩
    unfold ends
    rw [hanswered.pairs]
    exact modifyPair_ends a i _
  | nominate i msg => exact .modifyPair a i _
  | request i =>
    refine .trans (.modifyPair a i fun c => { c with nominationRequested := true }) ?_
    unfold askNomination
    dsimp only
    cases (a.modifyPair i fun c => { c with nominationRequested := true }).findEntry i <;>
      exact ⟨rfl, rfl, rfl, rfl, id⟩
  | _ => exact ⟨rfl, rfl, rfl, rfl, id⟩

theorem Paired.of_table (h : Paired L a) (ht : SameTable a b) : Paired L b :=
  h.of_ends ht.locals ht.remotes ht.ends

theorem Paired.of_frame (h : Paired L a) (hf : Frame a b) : Paired L b :=
  h.of_ends (by rw [hf.localDesc]) (by rw [hf.remoteDesc]) (by unfold ends; rw [hf.pairs])

theorem Move.paired {k : Kind} (hm : Move env a k b) (hk : steadyKind k = true)
    (hlegal : ∀ l r, pairable l r = true → L l r) (h : Paired L a) : Paired L b := by
  by_cases hkeeps : keepsTable k = true
  · exact h.of_table (hm.sameTable hkeeps)
  cases hm with
  | sort | replace | append => exact absurd hk (by decide)
  | pushLocal c => exact Table.pushLocal h c
  | pushRemote c => exact Table.pushRemote h c
  | fill => exact h.fillPairs hlegal
  | role => exact h
  | gather =>
    have hstarted : Paired L (a.changeState env .gathering) := h.of_frame (.changeState a _)
    exact hstarted
  | connect => exact h.of_frame (Frame.changeState a _)
  | _ => exact absurd rfl hkeeps

theorem Goes.paired {K : Kind → Bool} (hg : Goes env K a b)
    (hK : ∀ k, K k = true → steadyKind k = true) (hlegal : ∀ l r, pairable l r = true → L l r)
    (h : Paired L a) : Paired L b :=
  Goes.invariant (fun _ k _ hk hm h => hm.paired (hK k hk) hlegal h) hg h

/-! ## Local candidates -/

/-- Candidates can be added and sorted without moving one that a pair points to: there is no
pair, or they stand in order behind the stored ones. -/
def Undisturbed (a : Agent) (cs : List Candidate) : Prop :=
  a.pairs = [] ∨ (a.localDesc.candidates.elems ++ cs).Pairwise Description.NotBelow

theorem Paired.sortCandidates (h : Paired L a) (hc : Undisturbed a []) :
    Paired L { a with localDesc := a.localDesc.sortCandidates } := by
  rcases hc with hnil | hsorted
  · exact .of_nil hnil
  · rw [List.append_nil] at hsorted
    have hsame : a.localDesc.sortCandidates = a.localDesc := by
      unfold Description.sortCandidates
      rw [hsorted.insertionSort_eq]
    rw [hsame]
    exact h

theorem Undisturbed.pushLocal (h : Undisturbed a (c :: cs)) : Undisturbed (a.pushLocal c) cs :=
  h.imp id fun hsorted => by
    simpa only [Agent.pushLocal, Deque.pushBack, List.append_assoc, List.singleton_append]
      using hsorted

/-- While gathering, a candidate is sorted in if there is room. -/
theorem addLocalCandidate_sorting (env : AgentEnv) (hs : a.state.sorting = true) (c : Candidate) :
    a.addLocalCandidate env c = a ∨ a.addLocalCandidate env c =
      { a.pushLocal c with localDesc := (a.pushLocal c).localDesc.sortCandidates } := by
  have hs' : (a.pushLocal c).state.sorting = true := hs
  unfold addLocalCandidate
  split
  · exact .inl rfl
  · exact .inr (if_pos hs')

theorem addLocalCandidate_gathering (hs : a.state.sorting = true) (c : Candidate) :
    (a.addLocalCandidate env c).state = a.state ∧ (a.addLocalCandidate env c).pairs = a.pairs := by
  rcases addLocalCandidate_sorting env hs c with heq | heq
  · rw [heq]
    exact ⟨rfl, rfl⟩
  · rw [heq]
    exact ⟨rfl, rfl⟩

theorem Paired.addLocalCandidate (h : Paired L a) (hlegal : ∀ l r, pairable l r = true → L l r)
    (hc : a.state.sorting = true → Undisturbed a [c]) : Paired L (a.addLocalCandidate env c) := by
  have hpush : Paired L (a.pushLocal c) := Table.pushLocal h c
  unfold Agent.addLocalCandidate
  split
  · exact h
  · dsimp only
    split
    · rename_i hs
      exact hpush.sortCandidates (hc hs).pushLocal
    · split
      · exact (Goes.formPairs _).paired (by decide) hlegal hpush
      · exact hpush

theorem Undisturbed.addLocalCandidate (hs : a.state.sorting = true) (h : Undisturbed a (c :: cs)) :
    Undisturbed (a.addLocalCandidate env c) cs := by
  rcases h with hnil | hsorted
  · exact .inl ((addLocalCandidate_gathering hs c).2.trans hnil)
  · right
    rcases addLocalCandidate_sorting env hs c with heq | heq
    · rw [heq]
      exact hsorted.sublist ((List.sublist_cons_self c cs).append_left _)
    · rw [heq]
      have hpushed : (a.localDesc.candidates.elems ++ [c] ++ cs).Pairwise Description.NotBelow := by
        rwa [List.append_assoc]
      have hsame := (List.pairwise_append.mp hpushed).1.insertionSort_eq
      change (List.insertionSort _ (a.localDesc.candidates.elems ++ [c]) ++ cs).Pairwise _
      rwa [hsame]

/-- The candidates that `gatherHostCandidates` adds one by one. -/
theorem Paired.addLocalCandidates (h : Paired L a)
    (hlegal : ∀ l r, pairable l r = true → L l r) (hs : a.state.sorting = true)
    (hcs : Undisturbed a cs) : Paired L (cs.foldl (Agent.addLocalCandidate env) a) := by
  induction cs generalizing a with
  | nil => exact h
  | cons c cs ih =>
    have hc : Undisturbed a [c] :=
      hcs.imp id fun hsorted => hsorted.sublist (by simp)
    refine ih (h.addLocalCandidate hlegal fun _ => hc) ?_ (hcs.addLocalCandidate hs)
    rw [(addLocalCandidate_gathering hs c).1]
    exact hs

/-! ## Connects to passive candidates -/

theorem dialPassive_gathering (hs : a.state.sorting = true) (r : Candidate) :
    (a.dialPassive env r).state = a.state ∧ (a.dialPassive env r).pairs = a.pairs := by
  unfold dialPassive addRemotePassiveTcpCandidate
  split
  · split
    · exact ⟨rfl, rfl⟩
    · split
      · exact ⟨rfl, rfl⟩
      · rename_i transport c _
        exact addLocalCandidate_gathering (a := { a with tcpTransport := some transport }) hs c
  · exact ⟨rfl, rfl⟩

theorem Paired.dialPassive {r : Candidate} (h : Paired L a)
    (hlegal : ∀ l r, pairable l r = true → L l r)
    (hr : a.state.sorting = true → a.dials r = true → ∀ transport c,
      dial env r = some (transport, c) → Undisturbed a [c]) : Paired L (a.dialPassive env r) := by
  unfold Agent.dialPassive Agent.addRemotePassiveTcpCandidate
  split
  · rename_i hdials
    split
    · exact h
    · split
      · exact h
      · rename_i transport c hdial
        exact Paired.addLocalCandidate (a := { a with tcpTransport := some transport }) h hlegal
          fun hs => hr hs hdials transport c hdial
  · exact h

/-- New candidates never take an agent back to gathering. -/
theorem Goes.not_sorting (h : Goes env Kind.adding a b) (ha : a.state.sorting = false) :
    b.state.sorting = false := by
  refine Goes.invariant (P := fun a => a.state.sorting = false) ?_ h ha
  intro a k b hk hm ha
  cases hm with
  | setup h => rwa [h.state]
  | connect h =>
    rcases h with h | h
    · rw [h] at ha
      cases ha
    · unfold changeState
      rw [if_pos h]
      exact ha
  | pushLocal | sort | fill | announce | armPair | pushRelay | countRelay | relay => exact ha
  | _ => exact absurd hk (by decide)

theorem Paired.dialAll {rs : List Candidate} (h : Paired L a)
    (hlegal : ∀ l r, pairable l r = true → L l r) (hnil : a.state.sorting = true → a.pairs = []) :
    Paired L (rs.foldl (Agent.dialPassive env) a) := by
  induction rs generalizing a with
  | nil => exact h
  | cons r rs ih =>
    refine ih (h.dialPassive hlegal fun hs _ _ _ _ => .inl (hnil hs)) ?_
    intro hs
    cases hsorting : a.state.sorting with
    | true => exact (dialPassive_gathering hsorting r).2.trans (hnil hsorting)
    | false => exact absurd hs (by rw [(Goes.dialPassive a r).not_sorting hsorting]; decide)

/-! ## Calls -/

theorem Paired.gatherCandidates {hosts : List Candidate} (h : Paired L a)
    (hlegal : ∀ l r, pairable l r = true → L l r)
    (hhosts : a.state = .disconnected ∨ a.state = .failed → Undisturbed a hosts) :
    Paired L (a.gatherCandidates env hosts) := by
  unfold Agent.gatherCandidates
  split
  · exact h
  · rename_i hstate
    have hstate : a.state = .disconnected ∨ a.state = .failed := by
      by_contra hne
      exact hstate (not_or.mp hne)
    have hframe := @Frame.changeState env a .gathering
    have hstart : Paired L (a.startGathering env) :=
      Move.paired (.gather hstate) rfl hlegal h
    have hsorting : (a.startGathering env).state.sorting = true := by
      unfold startGathering changeState
      rcases hstate with hs | hs <;> simp [hs] <;> rfl
    have hundisturbed : Undisturbed (a.startGathering env) hosts := by
      unfold Undisturbed startGathering
      dsimp only
      rw [hframe.pairs, hframe.localDesc]
      exact hhosts hstate
    have hadded := @Paired.addLocalCandidates L env _ hosts hstart hlegal hsorting hundisturbed
    have hplanned : Paired L ((hosts.foldl (Agent.addLocalCandidate env)
        (a.startGathering env)).planGathering env) := hadded
    dsimp only
    split
    · exact (Goes.settleGathering _).paired (by decide) hlegal hplanned
    · exact hplanned

theorem Paired.setRemoteDescription {sdp : Bytes} (h : Paired L a)
    (hlegal : ∀ l r, pairable l r = true → L l r)
    (hnil : (Description.parse env.parseCandidate sdp).isSome = true → a.pairs = []) :
    Paired L (a.setRemoteDescription env sdp) := by
  unfold Agent.setRemoteDescription
  cases hparse : Description.parse env.parseCandidate sdp with
  | none => exact h
  | some d =>
    rw [hparse] at hnil
    have hnil := hnil rfl
    have hreplaced : Paired L (a.replaceRemote d) := .of_nil hnil
    have hdialled : Paired L (d.candidates.elems.foldl (Agent.dialPassive env)
      (a.replaceRemote d)) :=
      hreplaced.dialAll hlegal fun _ => hnil
    have hformed := (@Goes.formPairs env (d.candidates.elems.foldl (Agent.dialPassive env)
      (a.replaceRemote d))).paired (by decide) hlegal hdialled
    dsimp only
    split
    · split
      · exact hformed.of_frame (.changeState _ _)
      · exact hformed
    · exact hdialled

theorem Paired.addRemoteCandidate {line : Bytes} (h : Paired L a)
    (hlegal : ∀ l r, pairable l r = true → L l r)
    (hdial : a.state.sorting = true → ∀ r, env.parseCandidate line = some r → a.dials r = true →
      ∀ transport c, dial env r = some (transport, c) → Undisturbed a [c]) :
    Paired L (a.addRemoteCandidate env line) := by
  rcases addRemoteCandidate_cases env a line with heq | ⟨r, hr, heq⟩
  · rw [heq]
    exact h
  · rw [heq]
    have hpush : Paired L (a.pushRemote r) := Table.pushRemote h r
    exact (Goes.pairTrickled _).paired (by decide) hlegal
      (hpush.dialPassive hlegal fun hs => hdial hs r hr)

theorem Paired.onAllocated {relayed : AddrRecord} (h : Paired L a)
    (hlegal : ∀ l r, pairable l r = true → L l r)
    (hc : ∀ r, a.entries[j]?.bind (·.relay) = some r → a.state.sorting = true →
      Undisturbed a [relayCandidate env relayed r]) : Paired L (a.onAllocated env j relayed) := by
  unfold Agent.onAllocated
  split
  · exact h
  · rename_i r hr
    have hset : Paired L (a.setRelayed j relayed) := h
    exact (Goes.countRelay _ j).paired (by decide) hlegal
      (hset.addLocalCandidate hlegal (hc r hr))

theorem Paired.settleServer {s : StunEntryState} (h : Paired L a)
    (hlegal : ∀ l r, pairable l r = true → L l r) : Paired L (a.settleServer env j s) := by
  have hmarked : Paired L (a.markServer j s) := h
  exact (Goes.checkGatheringComplete _).paired (by decide) hlegal hmarked

/-- The address that a response of a STUN server brings. -/
def gathers (a : Agent) (msg : Message) (src : AddrRecord) (j : Nat) : Option AddrRecord :=
  a.entries[j]?.bind fun e =>
    if e.type = .server ∧ e.state = .pending ∧ e.record.any (·.isEqual src false) = true ∧
        msg.cls ≠ .errorResponse then
      readXorAddress msg .xorMappedAddress msg.transactionID <|> readMappedAddress msg
    else none

theorem Paired.handleServerReflexiveResponse
    (h : Paired L a) (hlegal : ∀ l r, pairable l r = true → L l r)
    (htype : a.entries[j]?.any (·.type = .server) = true)
    (hc : ∀ addr, a.gathers msg src j = some addr → a.state.sorting = true →
      Undisturbed a [reflexiveCandidate env addr]) :
    Paired L (a.handleServerReflexiveResponse env msg src j) := by
  unfold Agent.handleServerReflexiveResponse
  split
  · exact h
  · rename_i e he
    split
    · exact h
    · rename_i hguard
      split
      · exact h.settleServer hlegal
      · rename_i hcls
        split
        · exact h.settleServer hlegal
        · rename_i addr haddr
          refine (h.addLocalCandidate hlegal (hc addr ?_)).settleServer hlegal
          simp only [not_or, not_not, Bool.not_eq_false] at hguard
          have htype : e.type = .server := by simpa [he] using htype
          unfold gathers
          rw [he, Option.bind_some, if_pos ⟨htype, hguard.1, hguard.2, hcls⟩]
          exact haddr

/-! ## Binding requests -/

/-- The candidate a request comes from: the one stored at its source, or a peer-reflexive one
if none is. -/
def RequestFrom (env : AgentEnv) (a : Agent) (msg : Message) (src : AddrRecord)
    (transport : CandidateTransport) (r : Candidate) : Prop :=
  r ∈ a.remoteDesc.candidates.elems ∧ remoteAt src transport r = true ∨
    (∀ c ∈ a.remoteDesc.candidates.elems, remoteAt src transport c = false) ∧
      r = peerReflexive env src ((readPriority msg).getD 0) transport

theorem Paired.pairRemote {r : Candidate × Nat} {transport : CandidateTransport}
    (h : Paired L a) (hr : r ∈ a.remoteDesc.candidates.refs)
    (hlegal : ∀ l ∈ a.localDesc.candidates.elems, localFor r.1 transport l = true → L l r.1) :
    Paired L (a.pairRemote r transport).2 := by
  unfold Agent.pairRemote
  split
  · exact h
  · rename_i l hl
    split
    · exact h
    · rename_i hnew
      split
      · exact h
      · have hmem := List.mem_of_find?_eq_some hl
        have hfor : localFor r.1 transport l.1 = true := by simpa using List.find?_some hl
        refine Paired.append (b := a) h hmem hr
          (hlegal l.1 (Deque.fst_mem_of_mem_refs hmem) hfor) ?_
        intro p hp
        exact List.findIdx?_eq_none_iff.mp hnew p hp

theorem Paired.findOrCreatePair (h : Paired L a)
    (hlegal : addrIsLinkLocal src.ip = false → ∀ r, RequestFrom env a msg src transport r →
      ∀ l ∈ a.localDesc.candidates.elems, localFor r transport l = true → L l r) :
    Paired L (a.findOrCreatePair env src ((readPriority msg).getD 0) transport).2 := by
  unfold Agent.findOrCreatePair
  split
  · exact h
  · rename_i hlink
    have hlegal := hlegal (Bool.eq_false_of_not_eq_true hlink)
    split
    · rename_i r hr
      have hmem := List.mem_of_find?_eq_some hr
      have hat : remoteAt src transport r.1 = true := by simpa using List.find?_some hr
      exact h.pairRemote hmem (hlegal r.1 (.inl ⟨Deque.fst_mem_of_mem_refs hmem, hat⟩))
    · rename_i hnone
      split
      · exact h
      · have hnew : ∀ c ∈ a.remoteDesc.candidates.elems, remoteAt src transport c = false := by
          intro c hc
          obtain ⟨p, hp⟩ := Deque.exists_mem_refs hc
          simpa using List.find?_eq_none.mp hnone (c, p) hp
        have hpush : Paired L (a.pushRemote (peerReflexive env src ((readPriority msg).getD 0)
            transport)) := Table.pushRemote h _
        refine hpush.pairRemote ?_ (hlegal _ (.inr ⟨hnew, rfl⟩))
        exact Deque.mem_refs.mpr (Deque.at?_pushBack_stop _ _)

theorem SameTable.triggerCheck (a : Agent) (i : Nat) : SameTable a (a.triggerCheck env i) := by
  unfold Agent.triggerCheck
  split
  · refine .trans (.setPairState a (some i) .pending) ?_
    dsimp only
    split
    · exact ⟨rfl, rfl, rfl, rfl, id⟩
    · split <;> exact ⟨rfl, rfl, rfl, rfl, id⟩
  · exact ⟨rfl, rfl, rfl, rfl, id⟩

/-- The answer to a request leaves the table as `findOrCreatePair` does. -/
theorem SameTable.answerRequest (env : AgentEnv) (a : Agent) (msg : Message) (src : AddrRecord)
    (transport : CandidateTransport) :
    SameTable (a.findOrCreatePair env src ((readPriority msg).getD 0) transport).2
      (a.answerRequest env msg src transport) := by
  unfold Agent.answerRequest
  split
  · rename_i hpair
    rw [hpair]
    exact ⟨rfl, rfl, rfl, rfl, id⟩
  · rename_i i b hpair
    rw [hpair]
    refine .trans (.modifyPair b i (nominate msg)) (.trans (b := (b.modifyPair i
      (nominate msg)).sendBindingResponse msg src 0) ?_ (.triggerCheck _ i))
    exact ⟨rfl, rfl, rfl, rfl, id⟩

theorem setMode_tables (a : Agent) (mode : AgentMode) :
    (a.setMode mode).localDesc = a.localDesc ∧ (a.setMode mode).remoteDesc = a.remoteDesc ∧
      (a.setMode mode).pairs = a.pairs := by
  unfold setMode
  split <;> exact ⟨rfl, rfl, rfl⟩

theorem Paired.handleBindingRequest (h : Paired L a)
    (hlegal : a.verifyBindingRequest msg = true → addrIsLinkLocal src.ip = false →
      ∀ r, RequestFrom env a msg src transport r →
        ∀ l ∈ a.localDesc.candidates.elems, localFor r transport l = true → L l r) :
    Paired L (a.handleBindingRequest env msg src transport) := by
  unfold Agent.handleBindingRequest
  split
  · exact h
  · split
    · exact h
    · rename_i hverify
      have hlegal := hlegal (Bool.eq_true_of_not_eq_false hverify)
      split
      · exact h
      · rename_i mode _
        obtain ⟨hlocal, hremote, hpairs⟩ := setMode_tables a mode
        have hmode : Paired L (a.setMode mode) :=
          h.of_ends (by rw [hlocal]) (by rw [hremote]) (by unfold ends; rw [hpairs])
        refine (hmode.findOrCreatePair ?_).of_table (.answerRequest ..)
        unfold RequestFrom
        rw [hlocal, hremote]
        exact hlegal

/-! ## Runs -/

/-- The address that a message of a STUN server brings. -/
def gathered (a : Agent) (msg : Message) (src : AddrRecord) : Option AddrRecord :=
  if msg.method = .binding ∧ isResponseType msg.cls = true then
    (a.entries.findIdx? (·.transactionID = msg.transactionID)).bind (a.gathers msg src)
  else none

/-- A request is only matched with candidates for which `L` holds. -/
def Matches (L : Candidate → Candidate → Prop) (a : Agent) (e : AgentEvent × AgentEnv) : Prop :=
  ∀ msg src transport, a.inbound e.1 = some (msg, src, transport) → msg.cls = .request →
    a.verifyBindingRequest msg = true → addrIsLinkLocal src.ip = false →
      ∀ r, RequestFrom e.2 a msg src transport r →
        ∀ l ∈ a.localDesc.candidates.elems, localFor r transport l = true → L l r

/-- A step moves no candidate that a pair points to: a description arrives before there are
pairs, and a local candidate that is sorted in comes before there are pairs or belongs
behind the others. -/
def Steady (a : Agent) : AgentEvent × AgentEnv → Prop
  | (.gatherCandidates hosts, _) =>
      a.state = .disconnected ∨ a.state = .failed → Undisturbed a hosts
  | (.onAllocated j relayed, env) =>
      ∀ r, a.entries[j]?.bind (·.relay) = some r → a.state.sorting = true →
        Undisturbed a [relayCandidate env relayed r]
  | (.setRemoteDescription sdp, env) =>
      (Description.parse env.parseCandidate sdp).isSome = true → a.pairs = []
  | (.addRemoteCandidate line, env) =>
      a.state.sorting = true → ∀ r, env.parseCandidate line = some r → a.dials r = true →
        ∀ transport c, dial env r = some (transport, c) → Undisturbed a [c]
  | (e, env) =>
      ∀ msg src transport, a.inbound e = some (msg, src, transport) →
        ∀ addr, a.gathered msg src = some addr → a.state.sorting = true →
          Undisturbed a [reflexiveCandidate env addr]

theorem Paired.handleStunMessage (h : Paired L a) (hlegal : ∀ l r, pairable l r = true → L l r)
    (hgathered : ∀ addr, a.gathered msg src = some addr → a.state.sorting = true →
      Undisturbed a [reflexiveCandidate env addr])
    (hmatch : msg.cls = .request → a.verifyBindingRequest msg = true →
      addrIsLinkLocal src.ip = false → ∀ r, RequestFrom env a msg src transport r →
        ∀ l ∈ a.localDesc.candidates.elems, localFor r transport l = true → L l r) :
    Paired L (a.handleStunMessage env msg src transport) := by
  unfold Agent.handleStunMessage
  split
  · exact h
  · rename_i hmethod
    split
    · rename_i hcls
      exact h.handleBindingRequest (hmatch hcls)
    · split
      · rename_i hresponse
        split
        · exact h
        · rename_i j hj
          split
          · rename_i htype
            refine h.handleServerReflexiveResponse hlegal htype fun addr haddr => ?_
            refine hgathered addr ?_
            unfold gathered
            rw [if_pos ⟨not_not.mp hmethod, hresponse⟩, hj]
            exact haddr
          · rename_i htype
            exact (Goes.handleBindingResponse a msg src j
              (Bool.eq_false_of_not_eq_true htype)).paired (by decide) hlegal h
      · exact h

theorem Paired.step {e : AgentEvent} (hc : Checks a) (h : Paired L a)
    (hlegal : ∀ l r, pairable l r = true → L l r) (hsteady : Steady a (e, env))
    (hmatch : Matches L a (e, env)) : Paired L (a.step (e, env)) := by
  have hgoes := @Goes.step env a hc e
  have hpacket : isPacket e = true → (∀ msg src transport,
      a.inbound e = some (msg, src, transport) → ∀ addr, a.gathered msg src = some addr →
        a.state.sorting = true → Undisturbed a [reflexiveCandidate env addr]) →
      Paired L (a.step (e, env)) := by
    intro he hgathered
    cases hin : a.inbound e with
    | none =>
      refine (Goes.packet_quiet hin he).paired (fun k hk => ?_) hlegal h
      cases k <;> first | rfl | exact absurd hk (by decide)
    | some m =>
      obtain ⟨msg, src, transport⟩ := m
      rw [step_inbound hin]
      exact h.handleStunMessage hlegal (hgathered msg src transport hin)
        (hmatch msg src transport hin)
  cases e with
  | gatherCandidates hosts => exact h.gatherCandidates hlegal hsteady
  | onAllocated j relayed => exact h.onAllocated hlegal hsteady
  | setRemoteDescription sdp => exact h.setRemoteDescription hlegal hsteady
  | addRemoteCandidate line => exact h.addRemoteCandidate hlegal hsteady
  | udpPacket | tcpPacket | turnDataPacket => exact hpacket rfl hsteady
  | _ =>
    -- no other event moves a candidate or takes a request
    refine hgoes.paired (fun k hk => ?_) hlegal h
    cases k <;> first | rfl | cases hk

theorem Runs.paired (h : Runs (fun a e => Steady a e ∧ Matches L a e) a)
    (hlegal : ∀ l r, pairable l r = true → L l r) : Paired L a := by
  refine Runs.invariant (P := Paired L) ?_ ?_ h
  · rintro a ⟨config, ufrag, pwd, tiebreaker, rfl⟩
    exact .of_nil rfl
  · rintro a e env ⟨hsteady, hmatch⟩ hc _ ha
    exact ha.step hc hlegal hsteady hmatch

theorem Runs.paired_of_steady (h : Runs Steady a) : Paired (fun _ _ => True) a :=
  Runs.paired (h.mono fun _ _ hok => ⟨hok, fun _ _ _ _ _ _ _ _ _ _ _ _ => trivial⟩)
    fun _ _ _ => trivial

/-- In every run of steady steps each pair points to a stored local and a stored remote
candidate that are what they were when the pair was created. -/
theorem pairs_keep_candidates (h : Runs Steady a) :
    ∀ p ∈ a.pairs, ∃ l r, a.localDesc.candidates.at? p.localPtr = some l ∧
      a.remoteDesc.candidates.at? p.remotePtr = some r ∧
      Candidate.Same l p.origin.1 ∧ Candidate.Same r p.origin.2 := by
  have hpaired := h.paired_of_steady
  intro p hp
  have hends : p.toPairEnds ∈ a.ends := List.mem_map_of_mem hp
  exact ⟨p.origin.1, p.origin.2, hpaired.local_at _ hends, hpaired.remote_at _ hends,
    ⟨rfl, rfl, rfl⟩, ⟨rfl, rfl, rfl⟩⟩

def gatherHost : AgentEvent × AgentEnv := (.gatherCandidates [hostAt (udpAt 1 1000)], calmEnv 1)

/-- The peer is described with two candidates. -/
def describePeer : AgentEvent × AgentEnv :=
  (.setRemoteDescription peerSdpWithCandidates, calmEnv 2)

def described : Agent := ((small {}).step gatherHost).step describePeer

theorem pairs_keep_candidates_described : Runs Steady described ∧ described.pairs ≠ [] ∧
    ∀ p ∈ described.pairs, ∃ l r, described.localDesc.candidates.at? p.localPtr = some l ∧
      described.remoteDesc.candidates.at? p.remotePtr = some r ∧
      Candidate.Same l p.origin.1 ∧ Candidate.Same r p.origin.2 := by
  have hfresh : Runs Steady (small {}) := .start ⟨{}, localUfrag, localPwd, 7, rfl⟩
  have hgather : Steady (small {}) gatherHost := fun _ => .inl rfl
  have hnone : ((small {}).step gatherHost).pairs = [] := by decide +kernel
  have hdescribe : Steady ((small {}).step gatherHost) describePeer := fun _ => hnone
  have hrun : Runs Steady described :=
    .next describePeer (.next gatherHost hfresh ⟨hgather, rfl⟩) ⟨hdescribe, rfl⟩
  exact ⟨hrun, by decide +kernel, pairs_keep_candidates hrun⟩

/-- A request makes a pair while a STUN server is still asked; then the description arrives. -/
def danglingEvents : List (AgentEvent × AgentEnv) :=
  [(.gatherCandidates [hostAt (udpAt 1 1000)], calmEnv 1),
    (.udpPacket (peerRequest noTransaction []) (udpAt 2 2000), calmEnv 2),
    (.setRemoteDescription peerSdp, calmEnv 3)]

def dangling : Agent := danglingEvents.foldl step (small { stunServers := [(ascii "s", 3478)] })

/-- Two TURN servers are asked. The second answers first, a request pairs its candidate, and
then the first one answers. -/
def resortedEvents : List (AgentEvent × AgentEnv) :=
  [(.gatherCandidates [], calmEnv 1),
    (.gatherCandidatesWorker, { calmEnv 2 with resolveServer := fun _ _ _ => some (udpAt 9 3478) }),
    (.onAllocated 1 (udpAt 9 5001), calmEnv 3),
    (.udpPacket (peerRequest noTransaction []) (udpAt 2 2000), calmEnv 4),
    (.onAllocated 0 (udpAt 9 5000), calmEnv 5)]

def resorted : Agent :=
  resortedEvents.foldl step
    (small { turnServers := [⟨ascii "t", 3478, false⟩, ⟨ascii "u", 3478, false⟩] })

/-- A description moves the remote candidates away from under a pair, and a sort puts another
local candidate in the place a pair points to. -/
theorem pairs_lose_candidates :
    (∃ a, Runs (fun _ _ => True) a ∧ ∃ p ∈ a.pairs,
      a.remoteDesc.candidates.at? p.remotePtr = none) ∧
    ∃ a, Runs (fun _ _ => True) a ∧ ∃ p ∈ a.pairs,
      (a.localDesc.candidates.at? p.localPtr).map (·.resolved) ≠ some p.origin.1.resolved := by
  have hdangling : ∃ p ∈ dangling.pairs, dangling.remoteDesc.candidates.at? p.remotePtr = none := by
    decide +kernel
  have hresorted : ∃ p ∈ resorted.pairs,
      (resorted.localDesc.candidates.at? p.localPtr).map (·.resolved) ≠
        some p.origin.1.resolved := by
    decide +kernel
  exact ⟨⟨dangling, .of_events _ _ _ _ _, hdangling⟩, ⟨resorted, .of_events _ _ _ _ _, hresorted⟩⟩

end Agent

end Stice.Ice
