import Stice.Ice.Run
import Stice.Lib.Rows

/-! The moves a step of an agent is made of. Each changes one thing and carries what its callers
have checked; every function of the agent is a path of moves, so that an invariant is shown
move by move. A `Kind` names the moves, to say which of them a function can make. -/
namespace Stice.Ice
open Lib Net Stun
open Tcp (TcpState)

inductive Kind
  | setup | credentials | pushLocal | sort | pushRemote | replace | fill | append
  | role | gather | seed | connect | announce | reset | update | worker
  | armPair | pushServer | pushRelay | settleServer | countRelay | relay
  | arm | timer | flush | send | resend | keepalive | failEntry | cancel | erase
  | failPair | pend | freeze | accept | nominate | request | select | respond | note | pass
  deriving DecidableEq, Repr

/-- Every kind, so that an inclusion of kinds can be evaluated. -/
def Kind.all : List Kind :=
  [.setup, .credentials, .pushLocal, .sort, .pushRemote, .replace, .fill, .append, .role, .gather,
    .seed, .connect, .announce, .reset, .update, .worker, .armPair, .pushServer, .pushRelay,
    .settleServer, .countRelay, .relay, .arm, .timer, .flush, .send, .resend, .keepalive,
    .failEntry, .cancel, .erase, .failPair, .pend, .freeze, .accept, .nominate, .request, .select,
    .respond, .note, .pass]

instance {P : Kind → Prop} [DecidablePred P] : Decidable (∀ k, P k) :=
  decidable_of_iff (∀ k ∈ Kind.all, P k)
    ⟨fun h k => h k (by cases k <;> decide), fun h k _ => h k⟩

/-- Only the configuration and the connections differ. -/
structure Setup (a b : Agent) : Prop where
  state : b.state = a.state
  mode : b.mode = a.mode
  tiebreaker : b.tiebreaker = a.tiebreaker
  localDesc : b.localDesc = a.localDesc
  remoteUfrag : b.remoteDesc.iceUfrag = a.remoteDesc.iceUfrag
  remotePwd : b.remoteDesc.icePwd = a.remoteDesc.icePwd
  remoteCandidates : b.remoteDesc.candidates = a.remoteDesc.candidates
  pairs : b.pairs = a.pairs
  orderedPairs : b.orderedPairs = a.orderedPairs
  selectedPair : b.selectedPair = a.selectedPair
  nominatedPair : b.nominatedPair = a.nominatedPair
  entries : b.entries = a.entries
  gatheringDone : b.gatheringDone = a.gatheringDone
  pendingServerReflexive : b.pendingServerReflexive = a.pendingServerReflexive
  pendingRelayAllocations : b.pendingRelayAllocations = a.pendingRelayAllocations
  gatherStartedAt : b.gatherStartedAt = a.gatherStartedAt
  gatherWorker : b.gatherWorker = a.gatherWorker
  pacDeadline : b.pacDeadline = a.pacDeadline
  log : b.log = a.log
  tally : b.tally = a.tally

/-- An entry goes on with other timers. -/
structure SameEntry (e f : StunEntry) : Prop where
  type : f.type = e.type
  state : f.state = e.state
  mode : f.mode = e.mode
  pair : f.pair = e.pair
  record : f.record = e.record
  transactionID : f.transactionID = e.transactionID
  transactionIdExpired : f.transactionIdExpired = e.transactionIdExpired
  counted : f.relay.map (·.relayCounted) = e.relay.map (·.relayCounted)
  serial : f.serial = e.serial
  arms : f.arms = e.arms

theorem SameEntry.refl (e : StunEntry) : SameEntry e e :=
  (by constructor <;> rfl)

/-- What the agent reports, apart from its states and what it sends. -/
inductive Reported : LogItem → Prop
  | recv (data : Bytes) : Reported (.recv data)

namespace Agent

/-- The nomination of a pair is requested, and its entry is to be sent at once. -/
def askNomination (env : AgentEnv) (a : Agent) (i : Nat) : Agent :=
  let a := a.modifyPair i fun c => { c with nominationRequested := true }
  (a.findEntry i).elim a fun j => a.modifyEntry j (a.armTransmission env 0)

/-- Unless the table is full, every two candidates that can be paired are. -/
def Full (a : Agent) : Prop :=
  a.pairs.length < maxCandidatePairs → ∀ l ∈ a.localDesc.candidates.refs,
    ∀ r ∈ a.remoteDesc.candidates.refs, pairable l.1 r.1 = true → ∃ p ∈ a.pairs, p.joins l r = true

inductive Move (env : AgentEnv) (a : Agent) : Kind → Agent → Prop
  | setup {b : Agent} (h : Setup a b) : Move env a .setup b
  | credentials (ufrag pwd : Bytes) : Move env a .credentials
      { a with localDesc := { a.localDesc with iceUfrag := ufrag, icePwd := pwd } }
  | pushLocal (c : Candidate) : Move env a .pushLocal (a.pushLocal c)
  | sort (h : a.state.sorting = true) :
      Move env a .sort { a with localDesc := a.localDesc.sortCandidates }
  | pushRemote (c : Candidate) : Move env a .pushRemote (a.pushRemote c)
  | replace (d : Description) : Move env a .replace (a.replaceRemote d)
  | fill : Move env a .fill a.fillPairs
  | append (l r : Candidate × Nat) (hl : l ∈ a.localDesc.candidates.refs)
      (hr : r ∈ a.remoteDesc.candidates.refs) (hnew : ∀ p ∈ a.pairs, p.joins l r = false)
      (hroom : a.pairs.length < maxCandidatePairs) :
      Move env a .append { a with pairs := a.pairs ++ [a.newPair l r] }.updateOrderedPairs
  | role (mode : AgentMode) : Move env a .role { a with mode }.updateOrderedPairs
  | gather (h : a.state = .disconnected ∨ a.state = .failed) :
      Move env a .gather (a.startGathering env)
  | seed (hs : a.state = .gathering) (hn : a.gatherStartedAt = none) :
      Move env a .seed { a with gatherStartedAt := some env.now }
  | connect (h : a.state = .gathering ∨ a.state = .connecting) (hfull : Full a) :
      Move env a .connect (a.changeState env .connecting)
  | announce (hr : a.pendingRelayAllocations ≤ 0) (hs : a.pendingServerReflexive ≤ 0)
      (hd : a.gatheringDone = false) : Move env a .announce a.announceGathering
  | reset (hd : a.gatheringDone = false)
      (ht : a.gatherStartedAt.any (gatherTimeoutMs < env.now - ·) = true) :
      Move env a .reset { a with pendingRelayAllocations := 0, pendingServerReflexive := 0 }
  | update : Move env a .update (a.updateState env)
  | worker (items : Option (List GatherItem)) :
      Move env a .worker { a with gatherWorker := items }
  | armPair (i : Nat) (h : a.findEntry i = none) (hi : a.pairState i ≠ some .succeeded)
      (hrow : i < a.pairs.length) : Move env a .armPair (a.armPair env i)
  | pushServer (resolved : AddrRecord) (h : env.transmits a.entries.length = true) :
      Move env a .pushServer (a.pushServer env resolved)
  | pushRelay (srv : TurnServer) (index : Int) (resolved : AddrRecord) :
      Move env a .pushRelay (a.pushRelay env srv index resolved)
  | settleServer (j : Nat) (s : StunEntryState) {e : StunEntry} (he : a.entries[j]? = some e)
      (htype : e.type = .server) (hpending : e.state = .pending)
      (hs : s = .failed ∨ s = .succeeded) : Move env a .settleServer (a.markServer j s)
  | countRelay (j : Nat) (h : a.entries[j]?.any (fun e => e.relay.any (!·.relayCounted)) = true) :
      Move env a .countRelay (a.markCounted j)
  | relay (j : Nat) (f : Relay → Relay) (hf : ∀ r, (f r).relayCounted = r.relayCounted) :
      Move env a .relay (a.modifyEntry j fun e => { e with relay := e.relay.map f })
  | arm (j : Nat) (delay : Int) {e : StunEntry} (he : a.entries[j]? = some e)
      (htype : e.type ≠ .server) : Move env a .arm (a.modifyEntry j (a.armTransmission env delay))
  | timer (j : Nat) (f : StunEntry → StunEntry) (hf : ∀ e, SameEntry e (f e))
      (hdue : ∀ e, a.entries[j]? = some e → (f e).nextTransmission ≤ env.now →
        e.nextTransmission ≤ env.now)
      (hkept : ∀ e, a.entries[j]? = some e → e.state = .succeededKeepalive →
        (f e).nextTransmission = e.nextTransmission) : Move env a .timer (a.modifyEntry j f)
  | flush (j : Nat) (f : StunEntry → StunEntry) (hf : ∀ e, SameEntry e (f e))
      (hkept : ∀ e, a.entries[j]? = some e → e.state = .succeededKeepalive →
        (f e).nextTransmission = e.nextTransmission) : Move env a .flush (a.modifyEntry j f)
  | flushes (f : StunEntry → StunEntry) (hf : ∀ e, SameEntry e (f e))
      (hkept : ∀ e, e.state = .succeededKeepalive →
        (f e).nextTransmission = e.nextTransmission) :
      Move env a .flush { a with entries := a.entries.map f }
  | send (j : Nat) {e : StunEntry} (he : a.entries[j]? = some e) (htype : e.type ≠ .server)
      (hlive : e.state = .pending ∨ e.state = .succeededKeepalive)
      (hdue : e.nextTransmission ≤ env.now) : Move env a .send (a.sendCheck env j)
  | resend (j : Nat) {e : StunEntry} (he : a.entries[j]? = some e) (htype : e.type = .server)
      (h : env.transmits j = true) : Move env a .resend
        (a.noteRequest e none .udp (buildBindingRequest e.transactionID))
  | keepalive (j : Nat) {e : StunEntry} (he : a.entries[j]? = some e)
      (hs : e.state = .succeededKeepalive) (hdue : e.nextTransmission ≤ env.now) :
      Move env a .keepalive (a.modifyEntry j (a.armKeepalive env (env.randomU32 j)))
  | failEntry (j : Nat) {e : StunEntry} (he : a.entries[j]? = some e)
      (h : e.type = .server → e.state ≠ .pending) :
      Move env a .failEntry (a.setEntryState j .failed)
  | cancel (f : StunEntry → Bool) : Move env a .cancel (a.cancelEntries f)
  | erase (keeps : StunEntry → Bool)
      (h : ∀ e, keeps e = false → e.type = .check ∧ ∃ i, e.pair = some i ∧
        a.pairState i = some .failed) :
      Move env a .erase { a with entries := a.entries.filter keeps }
  | failPair (i : Option Nat) : Move env a .failPair (a.setPairState i .failed)
  | failPairs (f : Nat → Bool) : Move env a .failPair (a.failPairs f)
  | pend (i : Nat) (h : a.pairState i ≠ some .succeeded) :
      Move env a .pend (a.setPairState (some i) .pending)
  | freeze : Move env a .freeze a.freezeOthers
  | accept (j i : Nat) {e : StunEntry} (he : a.entries[j]? = some e) (htype : e.type ≠ .server)
      (hpair : e.pair = some i) (hfailed : ¬(e.type = .check ∧ a.pairState i = some .failed)) :
      Move env a .accept (a.acceptAnswer env j i)
  | nominate (i : Nat) (msg : Message) (h : hasUseCandidate msg = true) :
      Move env a .nominate (a.modifyPair i (nominate msg))
  | request (i : Nat) (hmode : a.mode = .controlling) (hsel : a.selectedPair = some i)
      (hnew : a.pairs[i]?.any (fun p => !p.nominated && !p.nominationRequested) = true)
      (htype : ∀ e ∈ a.entries, e.pair = some i → e.type ≠ .server) :
      Move env a .request (a.askNomination env i)
  | select (i : Nat) (h : a.pairState i = some .succeeded) :
      Move env a .select { a with selectedPair := some i }
  | respond (req : Message) (dst : AddrRecord) (code : Nat) :
      Move env a .respond (a.sendBindingResponse req dst code)
  | note (item : LogItem) (h : Reported item) : Move env a .note (a.note item)
  | data (i : Nat) (route : Route) (payload : Bytes) (h : a.selectedPair = some i) :
      Move env a .note (a.note (.data i route payload))
  | pass : Move env a .pass (a.note (.pass env.now))

/-- A path of moves of some kinds. -/
def Goes (env : AgentEnv) (K : Kind → Bool) : Agent → Agent → Prop :=
  Relation.ReflTransGen fun a b => ∃ k, K k = true ∧ Move env a k b

namespace Goes

variable {env : AgentEnv} {K K' : Kind → Bool} {a b c : Agent}

theorem refl (a : Agent) : Goes env K a a := Relation.ReflTransGen.refl

theorem move {k : Kind} (h : Move env a k b) (hk : K k = true) : Goes env K a b :=
  Relation.ReflTransGen.single ⟨k, hk, h⟩

theorem trans (h : Goes env K a b) (h' : Goes env K b c) : Goes env K a c :=
  Relation.ReflTransGen.trans h h'

theorem tail {k : Kind} (h : Goes env K a b) (h' : Move env b k c) (hk : K k = true) :
    Goes env K a c :=
  h.trans (move h' hk)

theorem mono (hK : ∀ k, K k = true → K' k = true) (h : Goes env K a b) : Goes env K' a b := by
  induction h with
  | refl => exact refl _
  | tail _ hm ih =>
    obtain ⟨k, hk, hm⟩ := hm
    exact ih.tail hm (hK k hk)

theorem foldl {α : Type} {f : Agent → α → Agent} (hf : ∀ a x, Goes env K a (f a x)) (l : List α)
    (a : Agent) : Goes env K a (l.foldl f a) := by
  induction l generalizing a with
  | nil => exact refl a
  | cons x l ih => exact (hf a x).trans (ih (f a x))

/-- What every move keeps, a path keeps. -/
theorem invariant {P : Agent → Prop}
    (hP : ∀ a k b, K k = true → Move env a k b → P a → P b) (h : Goes env K a b) (ha : P a) :
    P b := by
  induction h with
  | refl => exact ha
  | tail _ hm ih =>
    obtain ⟨k, hk, hm⟩ := hm
    exact hP _ k _ hk hm ih

end Goes

/-! ## What the state machine leaves alone -/

/-- The tables and the counters are the same. -/
structure Frame (a b : Agent) : Prop where
  mode : b.mode = a.mode
  tiebreaker : b.tiebreaker = a.tiebreaker
  localDesc : b.localDesc = a.localDesc
  remoteDesc : b.remoteDesc = a.remoteDesc
  pairs : b.pairs = a.pairs
  orderedPairs : b.orderedPairs = a.orderedPairs
  entries : b.entries = a.entries
  gatheringDone : b.gatheringDone = a.gatheringDone
  pendingServerReflexive : b.pendingServerReflexive = a.pendingServerReflexive
  pendingRelayAllocations : b.pendingRelayAllocations = a.pendingRelayAllocations
  gatherStartedAt : b.gatherStartedAt = a.gatherStartedAt
  gatherWorker : b.gatherWorker = a.gatherWorker
  tally : b.tally = a.tally

namespace Frame

variable {env : AgentEnv} {a b c : Agent}

theorem refl (a : Agent) : Frame a a :=
  (by constructor <;> rfl)

theorem trans (h : Frame a b) (h' : Frame b c) : Frame a c :=
  ⟨h'.mode.trans h.mode, h'.tiebreaker.trans h.tiebreaker, h'.localDesc.trans h.localDesc,
    h'.remoteDesc.trans h.remoteDesc, h'.pairs.trans h.pairs,
    h'.orderedPairs.trans h.orderedPairs, h'.entries.trans h.entries,
    h'.gatheringDone.trans h.gatheringDone,
    h'.pendingServerReflexive.trans h.pendingServerReflexive,
    h'.pendingRelayAllocations.trans h.pendingRelayAllocations,
    h'.gatherStartedAt.trans h.gatherStartedAt, h'.gatherWorker.trans h.gatherWorker,
    h'.tally.trans h.tally⟩

theorem changeState (a : Agent) (s : AgentState) : Frame a (a.changeState env s) := by
  unfold Agent.changeState
  split
  · exact refl a
  · dsimp only
    split <;> exact (by constructor <;> rfl)

theorem enterConnected (a : Agent) (best : Nat) : Frame a (a.enterConnected env best) := by
  have hsel : Frame a { a with selectedPair := some best } :=
    (by constructor <;> rfl)
  have hnom : Frame a { a with selectedPair := some best, nominatedPair := some best } :=
    (by constructor <;> rfl)
  unfold Agent.enterConnected
  dsimp only
  split
  · split
    · exact (hnom.trans (changeState _ _)).trans (changeState _ _)
    · split
      · exact hnom.trans (changeState _ _)
      · exact hnom
  · split
    · exact hsel.trans (changeState _ _)
    · exact hsel

theorem pacDeadline (a : Agent) (d : Option Int) : Frame a { a with pacDeadline := d } :=
  (by constructor <;> rfl)

theorem enterFailed (a : Agent) : Frame a (a.enterFailed env) := by
  unfold Agent.enterFailed
  split
  · split
    · exact pacDeadline a _
    · split
      · exact refl a
      · exact (pacDeadline a none).trans (changeState _ _)
  · split
    · exact changeState a _
    · exact refl a

theorem note (a : Agent) (item : LogItem) : Frame a (a.note item) :=
  (by constructor <;> rfl)

theorem updateState (a : Agent) : Frame a (a.updateState env) := by
  unfold Agent.updateState
  dsimp only
  split
  · exact (note a _).trans (enterConnected _ _)
  · split
    · exact (note a _).trans (enterFailed _)
    · exact (note a _).trans (pacDeadline _ _)

end Frame

/-! ## Checks sent and answered -/

/-- The entry of a check as it is sent. -/
def sentEntry (a : Agent) (e : StunEntry) (tid : TransactionID) : StunEntry :=
  { e with transactionID := tid, transactionIdExpired := false, mode := a.mode }

section
variable {env : AgentEnv} {a : Agent} {j i : Nat} {e : StunEntry}

/-- A check is not sent for want of an id; or it takes a route, is lost on it, or would loop. -/
theorem sendCheck_cases (env : AgentEnv) (he : a.entries[j]? = some e) :
    a.sendCheck env j = a ∨ ∃ tid, transactionFor env j e = some tid ∧
      let b := a.modifyEntry j fun _ => a.sentEntry e tid
      ((∃ route, b.checkRoute (a.sentEntry e tid) = some route ∧ env.transmits j = true ∧
          a.sendCheck env j =
            b.noteRequest (a.sentEntry e tid) e.pair route
              (b.bindingRequest env (a.sentEntry e tid))) ∨
        a.sendCheck env j = b ∨ a.sendCheck env j = b.setPairState e.pair .failed) := by
  unfold sendCheck
  rw [he]
  dsimp only
  cases htid : transactionFor env j e with
  | none => exact .inl rfl
  | some tid =>
    right
    refine ⟨tid, rfl, ?_⟩
    dsimp only
    split
    · rename_i route hroute
      split
      · rename_i htransmits
        exact .inl ⟨route, hroute, htransmits, rfl⟩
      · exact .inr (.inl rfl)
    · split
      · exact .inr (.inr rfl)
      · exact .inr (.inl rfl)

@[simp] theorem setPairState_entries (i : Option Nat) (s : PairState) :
    (a.setPairState i s).entries = a.entries := by
  cases i <;> rfl

theorem sendCheck_entries (env : AgentEnv) (he : a.entries[j]? = some e) :
    (a.sendCheck env j).entries = a.entries ∨ ∃ tid, transactionFor env j e = some tid ∧
      (a.sendCheck env j).entries = a.entries.modify j fun _ => a.sentEntry e tid := by
  rcases sendCheck_cases env he with heq | ⟨tid, htid, ⟨_, _, _, heq⟩ | heq | heq⟩
  · exact .inl (by rw [heq])
  · exact .inr ⟨tid, htid, by rw [heq]; rfl⟩
  · exact .inr ⟨tid, htid, by rw [heq]; rfl⟩
  · exact .inr ⟨tid, htid, by rw [heq, setPairState_entries]; rfl⟩

theorem askNomination_entries (env : AgentEnv) (a : Agent) (i : Nat) :
    (a.askNomination env i).entries = a.entries ∨ ∃ j b, a.findEntry i = some j ∧
      (a.askNomination env i).entries = a.entries.modify j (armTransmission env b 0) := by
  unfold askNomination
  dsimp only
  cases hentry : (a.modifyPair i fun c => { c with nominationRequested := true }).findEntry i with
  | none => exact .inl rfl
  | some j => exact .inr ⟨j, _, hentry, rfl⟩

theorem askNomination_pairs (env : AgentEnv) (a : Agent) (i : Nat) :
    (a.askNomination env i).pairs =
      (a.modifyPair i fun c => { c with nominationRequested := true }).pairs := by
  unfold askNomination
  dsimp only
  cases (a.modifyPair i fun c => { c with nominationRequested := true }).findEntry i <;> rfl

/-- Nothing but a pair and an entry differ. -/
structure Asked (a b : Agent) : Prop where
  state : b.state = a.state
  mode : b.mode = a.mode
  tiebreaker : b.tiebreaker = a.tiebreaker
  localDesc : b.localDesc = a.localDesc
  remoteDesc : b.remoteDesc = a.remoteDesc
  selectedPair : b.selectedPair = a.selectedPair
  nominatedPair : b.nominatedPair = a.nominatedPair
  gatheringDone : b.gatheringDone = a.gatheringDone
  pendingServerReflexive : b.pendingServerReflexive = a.pendingServerReflexive
  pendingRelayAllocations : b.pendingRelayAllocations = a.pendingRelayAllocations
  gatherStartedAt : b.gatherStartedAt = a.gatherStartedAt
  gatherWorker : b.gatherWorker = a.gatherWorker
  pacDeadline : b.pacDeadline = a.pacDeadline
  log : b.log = a.log
  tally : b.tally = a.tally

theorem askNomination_asked (env : AgentEnv) (a : Agent) (i : Nat) :
    Asked a (a.askNomination env i) := by
  unfold askNomination
  dsimp only
  cases (a.modifyPair i fun c => { c with nominationRequested := true }).findEntry i <;>
    exact (by constructor <;> rfl)

/-- Only the selection and the nominated pair differ. -/
structure Reviewed (a b : Agent) : Prop extends Frame a b where
  state : b.state = a.state
  pacDeadline : b.pacDeadline = a.pacDeadline
  log : b.log = a.log

theorem preferBest_reviewed (a : Agent) : Reviewed a a.preferBest := by
  unfold preferBest
  split
  · exact ⟨.refl a, rfl, rfl, rfl⟩
  · split
    · exact ⟨(by constructor <;> rfl), rfl, rfl, rfl⟩
    · exact ⟨.refl a, rfl, rfl, rfl⟩

theorem nameNominated_reviewed (a : Agent) (i : Nat) : Reviewed a (a.nameNominated i) := by
  unfold nameNominated
  split
  · exact ⟨(by constructor <;> rfl), rfl, rfl, rfl⟩
  · exact ⟨.refl a, rfl, rfl, rfl⟩

theorem reviewPairs_reviewed (a : Agent) (i : Nat) : Reviewed a (a.reviewPairs i) := by
  unfold reviewPairs
  split
  · have hbest := preferBest_reviewed a
    have hname := nameNominated_reviewed a.preferBest i
    exact ⟨hbest.toFrame.trans hname.toFrame, hname.state.trans hbest.state,
      hname.pacDeadline.trans hbest.pacDeadline, hname.log.trans hbest.log⟩
  · exact nameNominated_reviewed a i

/-- What an answer does: the pair has succeeded, the entry is kept alive. -/
structure Answered (env : AgentEnv) (a : Agent) (j i : Nat) (b : Agent) : Prop where
  mode : b.mode = a.mode
  tiebreaker : b.tiebreaker = a.tiebreaker
  state : b.state = a.state
  localDesc : b.localDesc = a.localDesc
  remoteDesc : b.remoteDesc = a.remoteDesc
  pairs : b.pairs = (a.modifyPair i (accept env)).pairs
  orderedPairs : b.orderedPairs = a.orderedPairs
  entries : ∃ time : StunEntry → Int, b.entries = a.entries.modify j fun e =>
    { e with
      state := .succeededKeepalive, transactionIdExpired := true, nextTransmission := time e
      arms := e.arms + 1 }
  gatheringDone : b.gatheringDone = a.gatheringDone
  pendingServerReflexive : b.pendingServerReflexive = a.pendingServerReflexive
  pendingRelayAllocations : b.pendingRelayAllocations = a.pendingRelayAllocations
  gatherStartedAt : b.gatherStartedAt = a.gatherStartedAt
  gatherWorker : b.gatherWorker = a.gatherWorker
  pacDeadline : b.pacDeadline = a.pacDeadline
  log : b.log = a.log ++ [.answered i env.now]
  tally : b.tally = a.tally

theorem acceptAnswer_answered (env : AgentEnv) (a : Agent) (j i : Nat) :
    Answered env a j i (a.acceptAnswer env j i) := by
  have h := reviewPairs_reviewed ((a.modifyPair i (accept env)).note (.answered i env.now)) i
  refine ⟨h.mode, h.tiebreaker, h.state, h.localDesc, h.remoteDesc, h.pairs, h.orderedPairs,
    ⟨fun e => env.now + (((a.modifyPair i (accept env)).note
      (.answered i env.now)).reviewPairs i).consentPeriod env (env.randomU32 j) e, ?_⟩,
    h.gatheringDone, h.pendingServerReflexive, h.pendingRelayAllocations, h.gatherStartedAt,
    h.gatherWorker, h.pacDeadline, h.log, h.tally⟩
  exact congrArg (List.modify · j _) h.entries

end

end Agent

end Stice.Ice
