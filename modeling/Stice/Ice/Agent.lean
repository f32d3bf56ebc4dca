import Stice.Ice.Candidate
import Stice.Ice.Strategy
import Stice.Lib.Fill
import Stice.Net.Tcp

/-! The state of an agent (`ice/agent.hpp`) and the parts of `ice/agent.cpp` that every call
ends in: the state machine, the schedule of the checks and the table of pairs. A pair is named
by its position in `pairs`, which only grows; an entry by its position in `entries`. Times are
those of the steady clock in milliseconds, and `none` is its epoch.

The clients of the TURN entries are left to the surroundings: what they report comes as events,
and an entry keeps what the agent asks them. `log` is a history variable: what the agent
reported and sent, and what its evaluations found. No function reads it. -/
namespace Stice.Ice
open Lib Net Stun
open Tcp (TcpState)

def maxCandidatePairs : Nat := 90
def maxStunEntries : Nat := 92
def minStunRetransmissionTimeoutMs : Int := 500
def lastStunRetransmissionTimeoutMs : Int := 8000
def maxStunCheckRetransmissions : Int := 6
def stunTcpTimeoutMs : Int := 8000
def gatherTimeoutMs : Int := 15000
def stunPacingTimeMs : Int := 50
def icePacTimeoutMs : Int := 39500
def consentTimeoutMs : Int := 30000
def defaultConsentCheckPeriodMs : Int := 5000
def minConsentCheckPeriodMs : Int := 4000
def idleConsentCheckMs : Int := 10000
def idleThresholdMs : Int := 30000
def nominationTimeoutMs : Int := 2000
def nominationDelayHostMs : Int := 0
def nominationDelaySrflxMs : Int := 500
def nominationDelayPrflxMs : Int := 1000
def nominationDelayRelayMs : Int := 2000

inductive AgentState
  | disconnected | gathering | connecting | connected | completed | failed
  deriving DecidableEq, Repr

inductive AgentMode
  | unknown | controlling | controlled
  deriving DecidableEq, Repr

inductive IceTcpMode
  | none | active | passive | so
  deriving DecidableEq, Repr

/-- Whether connectivity checks run. -/
def AgentState.checking : AgentState → Bool
  | .connecting | .connected | .completed => true
  | _ => false

/-- Whether `addLocalCandidate` sorts. -/
def AgentState.sorting : AgentState → Bool
  | .disconnected | .gathering => true
  | _ => false

inductive StunEntryType
  | server | relay | check
  deriving DecidableEq, Repr

inductive StunEntryState
  | pending | cancelled | failed | succeeded | succeededKeepalive | idle
  deriving DecidableEq, Repr

/-- What the agent knows of the TURN client of an entry. `allocated` is that client's state. -/
structure Relay where
  tcpTurn : Bool
  rfc6062 : Bool
  serverIndex : Int
  allocStart : Option Int
  allocated : Bool := false
  /-- The address of its allocation. -/
  relayed : Option AddrRecord := none
  relayCounted : Bool := false
  deriving DecidableEq, Repr

/-- The id of an entry for which none has been drawn. -/
def noTransaction : TransactionID := ⟨List.replicate 12 0, rfl⟩

structure StunEntry where
  type : StunEntryType
  state : StunEntryState
  mode : AgentMode := .unknown
  pair : Option Nat := none
  record : Option AddrRecord := none
  transactionID : TransactionID := noTransaction
  nextTransmission : Int := 0
  retransmissionTimeout : Int := minStunRetransmissionTimeoutMs
  retransmissions : Nat := 0
  transactionIdExpired : Bool := true
  relay : Option Relay := none
  /-- The number of the entry and how often it has been armed, which the source does not count:
  they tell which entry a request was for, and what happened to it in between. -/
  serial : Nat := 0
  arms : Nat := 0
  deriving DecidableEq, Repr

def StunEntry.allocated (e : StunEntry) : Bool := e.type = .relay && e.relay.any (·.allocated)

structure TurnServer where
  host : Bytes
  port : UInt16
  useTcp : Bool
  deriving DecidableEq, Repr

inductive GatherItem
  | stun (host : Bytes) (port : UInt16)
  | turn (srv : TurnServer) (index : Int)
  deriving DecidableEq, Repr

structure AgentConfig where
  disableActiveTcp : Bool := false
  disableUdpGathering : Bool := false
  relayOnlyLocal : Bool := false
  stunServers : List (Bytes × UInt16) := []
  turnServers : List TurnServer := []
  /-- A TCPMux is set. -/
  tcpMux : Bool := false
  deriving DecidableEq, Repr

/-- The data connection of an RFC 6062 allocation, with the address of that allocation. -/
structure TurnDataConn where
  peer : AddrRecord
  bound : Bool
  relayed : Option AddrRecord
  deriving DecidableEq, Repr

/-- The way a message takes: `relay` names the entry. -/
inductive Route
  | turnData | tcpMux | tcp | relay (entry : Nat) | udp
  deriving DecidableEq, Repr

inductive LogItem
  /-- A callback of `changeState`. -/
  | state (s : AgentState)
  | gatheringDone
  /-- A Binding request that a transport took. -/
  | request (pair : Option Nat) (route : Route) (m : Message)
  | response (dst : AddrRecord) (m : Message)
  /-- A success response taken for a pair. -/
  | answered (pair : Nat) (time : Int)
  | data (pair : Nat) (route : Route) (payload : Bytes)
  | recv (payload : Bytes)
  /-- What `updateState` found: some pair has succeeded; there are pairs and all have failed. -/
  | update (time : Int) (succeeded allFailed : Bool)
  /-- A pass of `onBookkeeping`. -/
  | pass (time : Int)
  deriving DecidableEq, Repr

/-- A Binding request that a transport took: the number of its entry, how often that had been
armed, and whether it is one for consent. -/
structure Sent where
  serial : Nat
  arms : Nat
  consent : Bool
  id : TransactionID
  deriving DecidableEq, Repr

/-- How many entries there have been, and the requests of the log with their entries. -/
structure Tally where
  created : Nat := 0
  sent : List Sent := []
  deriving DecidableEq, Repr

/-- What the agent asks of its surroundings. -/
structure AgentEnv where
  now : Int
  /-- `Candidate::parse`, which resolves host names. -/
  parseCandidate : Bytes → Option Candidate
  /-- The first record of `resolveServer`. -/
  resolveServer : Bytes → Bytes → SockType → Option AddrRecord
  /-- `beginConnect`: the state of the transport, and the address of its socket if known. -/
  beginConnect : AddrRecord → Option (TcpState × Option AddrRecord)
  /-- `beginConnect` of a connection to a TURN server. -/
  turnConnects : AddrRecord → Bool
  /-- `getnameinfo` with numeric host and service. -/
  nameInfo : AddrRecord → Bytes × Bytes
  boundAddr : Option AddrRecord
  tcpPriorityOffset : UInt32
  /-- The variable `STICE_TURN_TCP_RFC6062`. -/
  rfc6062 : Bool
  /-- `randomBytes` for the id of an entry. -/
  randomTid : Nat → Option TransactionID
  randomU32 : Nat → UInt32
  /-- Whether the transport takes the request of an entry. -/
  transmits : Nat → Bool
  /-- Whether the transport takes application data. -/
  sends : Bool
  /-- `connectTimedOut` of the ICE-TCP transport, if it is connecting. -/
  tcpTimedOut : Bool
  /-- `connectTimedOut` of the TURN connection of an entry. -/
  turnTimedOut : Nat → Bool
  /-- Whether `turnTcp` of an entry has not been reset. -/
  turnTcp : Nat → Bool
  /-- `tick` of the client of an entry ends its allocation. -/
  tickFails : Nat → Bool

structure Agent where
  config : AgentConfig
  pairing : IcePairingConfig
  state : AgentState
  mode : AgentMode
  tiebreaker : UInt64
  iceTcpMode : IceTcpMode
  localDesc : Description
  remoteDesc : Description
  pairs : List CandidatePair
  /-- Positions in `pairs`. -/
  orderedPairs : List Nat
  selectedPair : Option Nat
  nominatedPair : Option Nat
  nominationValue : UInt32
  entries : List StunEntry
  tcpTransport : Option TcpState
  turnDataConn : Option TurnDataConn
  gatheringDone : Bool
  pendingServerReflexive : Int
  pendingRelayAllocations : Int
  gatherStartedAt : Option Int
  /-- What a running worker was given. -/
  gatherWorker : Option (List GatherItem)
  deferredTcpTurnServers : List (TurnServer × Int)
  checkingStartTime : Int
  relayOnlyMode : Bool
  pacDeadline : Option Int
  lastAppDataAt : Option Int
  log : List LogItem
  tally : Tally

namespace Agent

variable (env : AgentEnv) (a : Agent)

def note (item : LogItem) : Agent := { a with log := a.log ++ [item] }

/-- A request for an entry has been sent. -/
def noteRequest (e : StunEntry) (pair : Option Nat) (route : Route) (m : Message) : Agent :=
  let sent : Sent := ⟨e.serial, e.arms, e.state = .succeededKeepalive, m.transactionID⟩
  { a.note (.request pair route m) with
    tally := { a.tally with sent := a.tally.sent ++ [sent] } }

/-! ## Pairs and entries -/

def localOf (i : Nat) : Option Candidate :=
  a.pairs[i]?.bind fun p => a.localDesc.candidates.at? p.localPtr

def remoteOf (i : Nat) : Option Candidate :=
  a.pairs[i]?.bind fun p => a.remoteDesc.candidates.at? p.remotePtr

def pairState (i : Nat) : Option PairState := a.pairs[i]?.map (·.state)

def pairPriority (i : Nat) : UInt64 := (a.pairs[i]?.map (·.priority)).getD 0

def pairIsTcp (i : Option Nat) : Bool :=
  i.any fun i => (a.localOf i).any (·.transport.isTcp) && (a.remoteOf i).any (·.transport.isTcp)

/-- `pairIsTcpRelay` and `pairIsTurnTcpRelay`, which are the same. -/
def pairIsTcpRelay (i : Option Nat) : Bool :=
  i.any fun i => (a.localOf i).any fun c => c.transport = .tcpPassive && c.type = .relayed

def modifyPair (i : Nat) (f : PairCheck → PairCheck) : Agent :=
  { a with pairs := a.pairs.modify i fun p => ⟨p.toPairEnds, f p.toPairCheck⟩ }

def setPairState (i : Option Nat) (s : PairState) : Agent :=
  i.elim a fun i => a.modifyPair i fun c => { c with state := s }

def modifyEntry (j : Nat) (f : StunEntry → StunEntry) : Agent :=
  { a with entries := a.entries.modify j f }

def setEntryState (j : Nat) (s : StunEntryState) : Agent :=
  a.modifyEntry j fun e => { e with state := s }

def pushEntry (e : StunEntry) : Agent :=
  { a with
    entries := a.entries ++ [{ e with serial := a.tally.created }]
    tally := { a.tally with created := a.tally.created + 1 } }

def findEntry (i : Nat) : Option Nat := a.entries.findIdx? fun e => e.pair = some i

def newPair (l r : Candidate × Nat) : CandidatePair where
  localPtr := l.2
  remotePtr := r.2
  priority := CandidatePair.computePriority l.1.priority r.1.priority (a.mode = .controlling)
  origin := (l.1, r.1)

def updateOrderedPairs : Agent :=
  { a with
    orderedPairs := (List.range a.pairs.length).insertionSort fun i j =>
      a.pairPriority j ≤ a.pairPriority i }

/-- The succeeded pair of the highest priority among those to keep, the first of its equals. -/
def bestPair (keep : Nat → Bool) : Option Nat :=
  (List.range a.pairs.length).foldl (fun best i =>
    if a.pairState i = some .succeeded && keep i &&
        best.all fun j => a.pairPriority j < a.pairPriority i then some i
    else best) none

/-! ## The state machine -/

def changeState (s : AgentState) : Agent :=
  if a.state = s then a
  else
    let a := { a with state := s }.note (.state s)
    if s = .connecting then
      { a with
        checkingStartTime := env.now
        pairing := { a.pairing with
          checkingStart := some env.now
          earlyPhaseActive := 0 < a.pairing.earlyPhaseMaxConcurrent &&
            0 < a.pairing.earlyPhaseDuration }
        relayOnlyMode := !a.localDesc.candidates.elems.any fun c =>
          c.type = .host || c.type = .serverReflexive }
    else a

/-- The pair `updateState` selects. -/
def selection : Option Nat :=
  let tcp := a.bestPair fun i => a.pairIsTcpRelay (some i)
  let udp := a.bestPair fun i => !a.pairIsTcpRelay (some i)
  if a.pairing.reselectPolicy = .stickySelected && a.pairIsTcpRelay a.selectedPair then tcp <|> udp
  else
    match tcp, udp with
    | some t, some u => if a.pairPriority u < a.pairPriority t then some t else some u
    | some t, none => some t
    | none, u => u

def allFailed : Bool := !a.pairs.isEmpty && a.pairs.all (·.state = .failed)

/-- The branch of `updateState` in which a pair has succeeded. -/
def enterConnected (best : Nat) : Agent :=
  let a := { a with selectedPair := some best }
  if a.pairs[best]?.any (·.nominated) then
    let a := { a with nominatedPair := some best }
    if a.state = .connecting then (a.changeState env .connected).changeState env .completed
    else if a.state = .connected then a.changeState env .completed
    else a
  else if a.state = .connecting then a.changeState env .connected
  else a

/-- The branch in which all pairs have failed. A connecting agent is patient (RFC 8863). -/
def enterFailed : Agent :=
  if a.state = .connecting then
    match a.pacDeadline with
    | none => { a with pacDeadline := some (env.now + icePacTimeoutMs) }
    | some deadline =>
        if env.now < deadline then a
        else { a with pacDeadline := none }.changeState env .failed
  else if a.state = .connected ∨ a.state = .completed then a.changeState env .failed
  else a

def updateState : Agent :=
  let best := a.selection
  let a := a.note (.update env.now best.isSome a.allFailed)
  match best with
  | some best => a.enterConnected env best
  | none => if a.allFailed then a.enterFailed env else { a with pacDeadline := none }

/-! ## The schedule of the checks -/

def armTransmission (delay : Int) (e : StunEntry) : StunEntry :=
  { e with
    nextTransmission := env.now + delay
    retransmissions := 0
    retransmissionTimeout :=
      if a.pairIsTcp e.pair then stunTcpTimeoutMs
      else if 0 < a.pairing.rtoInitial then a.pairing.rtoInitial
      else minStunRetransmissionTimeoutMs
    transactionIdExpired := true
    state := .pending
    arms := e.arms + 1 }

/-- The entry of a pair that has none. -/
def checkEntry (i : Nat) : StunEntry where
  type := .check
  state := .pending
  pair := some i
  record := (a.remoteOf i).bind (·.resolved)
  mode := a.mode

/-- A new entry for a pair, to be sent after the pacing time. -/
def armPair (i : Nat) : Agent :=
  a.pushEntry (a.armTransmission env stunPacingTimeMs (a.checkEntry i))

def countInProgressChecks : Nat :=
  a.entries.countP fun e => e.type = .check && e.state = .pending

/-- How many pairs one call of `armNextFrozenPair` arms at most. -/
def armBudget : Nat :=
  match a.pairing.scheduleMode with
  | .rfc8445Strict => maxStunEntries
  | .serial => 1
  | .limitedConcurrent | .phasedUdpFirst =>
      a.pairing.concurrency maxStunEntries - a.countInProgressChecks

/-- The strategy keeps TCP relays back. -/
def heldBack (i : Nat) : Bool :=
  a.pairIsTcpRelay (some i) &&
    ((a.pairing.scheduleMode = .phasedUdpFirst && !a.pairing.tcpPhaseEntered) ||
      a.pairing.tcpRelayFallback = .disable)

/-- The loop of `armNextFrozenPair`, with what is left of its budget. -/
def armLoop : List Nat → Nat → Agent → Agent
  | [], _, a => a
  | _, 0, a => a
  | i :: rest, budget + 1, a =>
      if a.pairState i ≠ some .frozen ∨ a.heldBack i = true then armLoop rest (budget + 1) a
      else if (a.findEntry i).isNone ∧ a.entries.length < maxStunEntries then
        let a := a.armPair env i
        if a.pairing.scheduleMode = .serial then a else armLoop rest budget a
      else if a.pairing.scheduleMode = .serial then a
      else armLoop rest (budget + 1) a

/-- `armNextFrozenPair` once the TCP phase has been looked at. -/
def armFrozenPairs : Agent :=
  let a := { a with pairing := a.pairing.refreshEarlyPhase env.now }
  a.armLoop env a.orderedPairs a.armBudget

/-! ## The table of pairs -/

/-- The checks of `formPairs` before it looks for an existing pair. -/
def pairable (l r : Candidate) : Bool :=
  l.component = r.component && l.family = r.family && !r.isLinkLocal &&
    l.transport.isTcp == r.transport.isTcp &&
    !(l.transport = .tcpActive && r.transport = .tcpActive) &&
    !(l.transport = .tcpPassive && r.transport = .tcpPassive &&
      !(l.type = .relayed && r.type = .relayed))

/-- `formPairs` before it arms: every local candidate meets every remote one. -/
def fillPairs : Agent :=
  let pairs := fill maxCandidatePairs (fun (l r : Candidate × Nat) => pairable l.1 r.1)
    CandidatePair.joins a.newPair a.localDesc.candidates.refs a.remoteDesc.candidates.refs a.pairs
  { a with pairs }.updateOrderedPairs

/-! The calls from here on run in two settings: `arm` is `armNextFrozenPair`, or what remains of
it inside `maybeEnterTcpPhase`, which does not enter the phase twice. -/

section
variable (arm : Agent → Agent)

def formPairsWith : Agent := arm a.fillPairs

def announceGathering : Agent :=
  { a with gatheringDone := true, localDesc := { a.localDesc with finished := true } }.note
    .gatheringDone

def checkGatheringCompleteWith : Agent :=
  if a.pendingRelayAllocations > 0 ∨ a.pendingServerReflexive > 0 ∨ a.gatheringDone = true then a
  else
    let a := a.announceGathering
    if a.remoteDesc.iceUfrag ≠ [] ∧ a.remoteDesc.icePwd ≠ [] ∧ a.state = .gathering then
      (a.formPairsWith arm).changeState env .connecting
    else a

def markCounted (j : Nat) : Agent :=
  let count (r : Relay) : Relay := { r with relayCounted := true }
  let a := a.modifyEntry j fun e => { e with relay := e.relay.map count }
  { a with pendingRelayAllocations := a.pendingRelayAllocations - 1 }

/-- The first result of a relay entry is counted. -/
def countRelayWith (j : Nat) : Agent :=
  if a.entries[j]?.any fun e => e.relay.any (!·.relayCounted) then
    (a.markCounted j).checkGatheringCompleteWith env arm
  else a

def setAllocated (j : Nat) (allocated : Bool) : Agent :=
  a.modifyEntry j fun e => { e with relay := e.relay.map fun r => { r with allocated } }

def setRelayed (j : Nat) (relayed : AddrRecord) : Agent :=
  a.modifyEntry j fun e => { e with relay := e.relay.map fun r =>
    { r with allocated := true, relayed := some relayed } }

/-- `onFailed` of a relay entry. -/
def relayFailedWith (j : Nat) : Agent := (a.setAllocated j false).countRelayWith env arm j

def relayEntry (srv : TurnServer) (index : Int) (resolved : AddrRecord) : StunEntry where
  type := .relay
  state := .idle
  record := some resolved
  relay := some
    { tcpTurn := srv.useTcp, rfc6062 := srv.useTcp && env.rfc6062, serverIndex := index
      allocStart := if srv.useTcp then none else some env.now }

def pushRelay (srv : TurnServer) (index : Int) (resolved : AddrRecord) : Agent :=
  { a with pendingRelayAllocations := a.pendingRelayAllocations + 1 }.pushEntry
    (relayEntry env srv index resolved)

/-- A connect that fails at once ends the allocation at once. -/
def createRelayEntryWith (srv : TurnServer) (index : Int) (resolved : AddrRecord) : Agent :=
  if maxStunEntries ≤ a.entries.length then a
  else if srv.useTcp && !env.turnConnects resolved then
    (a.pushRelay env srv index resolved).relayFailedWith env arm a.entries.length
  else a.pushRelay env srv index resolved

def serverPort (port : UInt16) : Bytes :=
  ascii (toString (if port = 0 then 3478 else port.toNat))

def gatherRelayWith (srv : TurnServer × Int) : Agent :=
  match env.resolveServer srv.1.host (serverPort srv.1.port)
      (if srv.1.useTcp then .stream else .dgram) with
  | none => a
  | some resolved => a.createRelayEntryWith env arm srv.1 srv.2 resolved

end

def createDeferredTcpRelayAllocations : Agent :=
  if a.pairing.tcpRelayAllocationCreated then a
  else
    let a := { a with pairing := { a.pairing with tcpRelayAllocationCreated := true } }
    a.deferredTcpTurnServers.foldl (fun a srv => a.gatherRelayWith env (armFrozenPairs env) srv) a

/-- The UDP phase is over: its time is, there is no UDP pair, or all of them have failed. -/
def udpPhaseOver : Bool :=
  (0 < a.pairing.udpPhaseTimeout &&
    a.pairing.udpPhaseStart.any (a.pairing.udpPhaseTimeout ≤ env.now - ·)) ||
    (List.range a.pairs.length).all fun i =>
      a.pairIsTcpRelay (some i) || a.pairState i = some .failed

def maybeEnterTcpPhase : Agent :=
  if a.pairing.scheduleMode ≠ .phasedUdpFirst ∨ a.pairing.tcpPhaseEntered = true ∨
      a.udpPhaseOver env = false then a
  else
    let a := { a with pairing := { a.pairing with tcpPhaseEntered := true } }
    if a.pairing.tcpRelayFallback = .onAllUdpFail then a.createDeferredTcpRelayAllocations env
    else a

def armNextFrozenPair : Agent := (a.maybeEnterTcpPhase env).armFrozenPairs env

def formPairs : Agent := a.formPairsWith (armNextFrozenPair env)

def checkGatheringComplete : Agent := a.checkGatheringCompleteWith env (armNextFrozenPair env)

def countRelay (j : Nat) : Agent := a.countRelayWith env (armNextFrozenPair env) j

def relayFailed (j : Nat) : Agent := a.relayFailedWith env (armNextFrozenPair env) j

end Agent

end Stice.Ice
