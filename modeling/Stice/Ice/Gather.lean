import Stice.Ice.Agent

/-! Candidates of both sides (`ice/agent.cpp`): local candidates as they are gathered, from the
interfaces, the STUN servers and the TURN servers, and the remote ones of a description or
trickled one by one. The candidates of `gatherHostCandidates`, which depend on interfaces,
filters and address rules, are given as a list. -/
namespace Stice.Ice
open Lib Net Stun
open Tcp (TcpState)

namespace Agent

variable (env : AgentEnv) (a : Agent)

/-! ## Local candidates -/

def pushLocal (c : Candidate) : Agent :=
  { a with localDesc := { a.localDesc with candidates := a.localDesc.candidates.pushBack c } }

def addLocalCandidate (c : Candidate) : Agent :=
  if maxCandidates ≤ a.localDesc.candidates.elems.length then a
  else
    let a := a.pushLocal c
    if a.state.sorting then { a with localDesc := a.localDesc.sortCandidates }
    else if a.state.checking then a.formPairs env
    else a

/-- The candidate of a STUN response. -/
def reflexiveCandidate (reflexive : AddrRecord) : Candidate :=
  let hostname := (env.nameInfo reflexive).1
  { type := .serverReflexive, resolved := some reflexive, hostname,
    service := (env.nameInfo reflexive).2, related := env.boundAddr,
    priority := Candidate.computePriority env.tcpPriorityOffset .serverReflexive
      reflexive.ip.family 1 0 .udp,
    foundation := Candidate.computeFoundation .serverReflexive hostname .udp }

/-- What the round trip of an allocation takes off its preference. -/
def rttPenalty (allocStart : Option Int) : Int :=
  allocStart.elim 0 fun start => min 200 ((env.now - start) / 50)

/-- The candidate of a TURN allocation. -/
def relayCandidate (relayed : AddrRecord) (r : Relay) : Candidate :=
  let hostname := (env.nameInfo relayed).1
  let transport := if r.rfc6062 then .tcpPassive else .udp
  { type := .relayed, transport, resolved := some relayed, hostname,
    service := (env.nameInfo relayed).2, related := env.boundAddr,
    priority := Candidate.computePriority env.tcpPriorityOffset .relayed relayed.ip.family 1
      (r.serverIndex + rttPenalty env r.allocStart) transport,
    foundation := Candidate.computeFoundation .relayed hostname transport }

/-- The candidate of a connect to a passive remote candidate. -/
def activeCandidate (remote : AddrRecord) (sockname : Option AddrRecord) : Candidate :=
  let resolved := sockname.getD remote
  let (hostname, service) :=
    match sockname with
    | some addr => env.nameInfo addr
    | none => (ascii "0.0.0.0", ascii "0")
  { type := .host, transport := .tcpActive, resolved := some resolved, hostname, service,
    priority := Candidate.computePriority env.tcpPriorityOffset .host resolved.ip.family 1 0
      .tcpActive,
    foundation := Candidate.computeFoundation .host hostname .tcpActive }

/-- A connect to a passive remote candidate that could begin: the state of the transport and
the local candidate. -/
def dial (remote : Candidate) : Option (TcpState × Candidate) :=
  (remote.resolved <|> env.resolveServer remote.hostname remote.service .stream).bind fun addr =>
    (env.beginConnect addr).map fun (transport, sockname) =>
      (transport, activeCandidate env addr sockname)

def addRemotePassiveTcpCandidate (remote : Candidate) : Agent :=
  if a.tcpTransport = some .connected then a
  else
    match dial env remote with
    | none => { a with tcpTransport := none }
    | some (transport, c) => { a with tcpTransport := some transport }.addLocalCandidate env c

/-- Whether a remote candidate is dialled. -/
def dials (remote : Candidate) : Bool :=
  remote.transport = .tcpPassive && a.iceTcpMode ≠ .none && !a.config.disableActiveTcp

def dialPassive (remote : Candidate) : Agent :=
  if a.dials remote then a.addRemotePassiveTcpCandidate env remote else a

/-! ## Gathering -/

/-- The agent that gathers first controls. -/
def startGathering : Agent :=
  let a := a.changeState env .gathering
  { a with
    gatherStartedAt := some env.now
    mode := if a.mode = .unknown then .controlling else a.mode }

/-- The TURN servers over TCP whose allocation waits for the UDP phase to end. -/
def deferredServers : List (TurnServer × Int) :=
  if a.config.disableUdpGathering || a.pairing.tcpRelayFallback ≠ .onAllUdpFail ||
      a.pairing.preAllocateTcpRelay then []
  else (a.config.turnServers.zipIdx.filter (·.1.useTcp)).map fun s => (s.1, (s.2 : Int))

/-- A TURN server over TCP is asked with the others. -/
def asksTcpRelay : Bool :=
  a.pairing.tcpRelayFallback = .alwaysEnable ||
    a.pairing.tcpRelayFallback = .onAllUdpFail && a.pairing.preAllocateTcpRelay

def gatherItems : List GatherItem :=
  let stun := if a.config.disableUdpGathering || a.config.relayOnlyLocal then []
    else a.config.stunServers.map fun s => GatherItem.stun s.1 s.2
  let turn := if a.config.disableUdpGathering then []
    else (a.config.turnServers.zipIdx.filter fun s => !s.1.useTcp || a.asksTcpRelay).map fun s =>
      GatherItem.turn s.1 s.2
  stun ++ turn

/-- What gathering does to the strategy. -/
def gatherPhase : IcePairingConfig :=
  let c := a.pairing
  let c :=
    if c.tcpRelayFallback = .onAllUdpFail && c.preAllocateTcpRelay &&
        !a.config.disableUdpGathering && a.config.turnServers.any (·.useTcp) then
      { c with tcpRelayAllocationCreated := true }
    else c
  if c.scheduleMode = .phasedUdpFirst then
    { c with
      udpPhaseStart := some env.now, tcpPhaseEntered := false
      tcpRelayAllocationCreated := c.tcpRelayFallback = .alwaysEnable }
  else c

/-- The servers are told apart, and a worker is given those that are asked now. -/
def planGathering : Agent :=
  { a with
    deferredTcpTurnServers := a.deferredTcpTurnServers ++ a.deferredServers
    pairing := a.gatherPhase env
    gatherWorker := if a.gatherItems = [] then a.gatherWorker else some a.gatherItems }

/-- Nothing is pending, so gathering may be over. -/
def settleGathering : Agent :=
  if a.pendingRelayAllocations = 0 ∧ a.pendingServerReflexive = 0 then a.checkGatheringComplete env
  else a

def gatherCandidates (hosts : List Candidate) : Agent :=
  if a.state ≠ .disconnected ∧ a.state ≠ .failed then a
  else
    let a := hosts.foldl (addLocalCandidate env) (a.startGathering env)
    if a.gatherItems = [] then (a.planGathering env).settleGathering env
    else a.planGathering env

def buildBindingRequest (tid : TransactionID) : Message :=
  { method := .binding, cls := .request, transactionID := tid, attributes := [], raw := [] : Message
    }.encode none none (some (ascii "stice"))

/-- The number of the entry to come stands for what is drawn and sent for it. -/
def serverEntry (resolved : AddrRecord) : StunEntry where
  type := .server
  state := .pending
  record := some resolved
  transactionID := (env.randomTid a.entries.length).getD noTransaction
  nextTransmission := env.now + minStunRetransmissionTimeoutMs
  serial := a.tally.created

def pushServer (resolved : AddrRecord) : Agent :=
  let e := a.serverEntry env resolved
  let a := a.noteRequest e none .udp (buildBindingRequest e.transactionID)
  { a with pendingServerReflexive := a.pendingServerReflexive + 1 }.pushEntry e

def createServerReflexiveEntry (resolved : AddrRecord) : Agent :=
  if maxStunEntries ≤ a.entries.length ∨ env.transmits a.entries.length = false then a
  else a.pushServer env resolved

def gatherItem : GatherItem → Agent
  | .stun host port =>
      match env.resolveServer host (serverPort port) .dgram with
      | none => a
      | some resolved => a.createServerReflexiveEntry env resolved
  | .turn srv index => a.gatherRelayWith env (armNextFrozenPair env) (srv, index)

/-- The worker, once it has resolved its servers and has the lock. -/
def gatherCandidatesWorker : Agent :=
  match a.gatherWorker with
  | none => a
  | some items => (items.foldl (gatherItem env) { a with gatherWorker := none }).settleGathering env

def markServer (j : Nat) (s : StunEntryState) : Agent :=
  { a with pendingServerReflexive := a.pendingServerReflexive - 1 }.setEntryState j s

/-- A server entry has its answer, or will have none. -/
def settleServer (j : Nat) (s : StunEntryState) : Agent :=
  (a.markServer j s).checkGatheringComplete env

def handleServerReflexiveResponse (msg : Message) (src : AddrRecord) (j : Nat) : Agent :=
  match a.entries[j]? with
  | none => a
  | some e =>
      if e.state ≠ .pending ∨ (e.record.any (·.isEqual src false)) = false then a
      else if msg.cls = .errorResponse then a.settleServer env j .failed
      else
        match readXorAddress msg .xorMappedAddress msg.transactionID <|> readMappedAddress msg with
        | none => a.settleServer env j .failed
        | some addr =>
            (a.addLocalCandidate env (reflexiveCandidate env addr)).settleServer env j .succeeded

/-- `onAllocated` of a relay entry. -/
def onAllocated (j : Nat) (relayed : AddrRecord) : Agent :=
  match a.entries[j]?.bind (·.relay) with
  | none => a
  | some r =>
      ((a.setRelayed j relayed).addLocalCandidate env (relayCandidate env relayed r)).countRelay env
        j

/-- `onTurnTcpConnected` of a relay entry. -/
def onTurnTcpConnected (j : Nat) : Agent :=
  a.modifyEntry j fun e => { e with relay := e.relay.map fun r =>
    { r with allocStart := some env.now } }

/-! ## The remote side -/

def pushRemote (c : Candidate) : Agent :=
  { a with remoteDesc := { a.remoteDesc with candidates := a.remoteDesc.candidates.pushBack c } }

/-- The description is moved into its place; the agent that is given one first is
controlled. -/
def replaceRemote (d : Description) : Agent :=
  { a with
    remoteDesc := { d with candidates := a.remoteDesc.candidates.assign d.candidates.elems }
    mode := if a.mode = .unknown then .controlled else a.mode }

def setRemoteDescription (sdp : Bytes) : Agent :=
  match Description.parse env.parseCandidate sdp with
  | none => a
  | some d =>
      let a := d.candidates.elems.foldl (dialPassive env) (a.replaceRemote d)
      if a.state = .gathering then
        let formed := a.formPairs env
        if formed.gatheringDone = true ∨ a.pairs.length < formed.pairs.length then
          formed.changeState env .connecting
        else formed
      else a

/-- The end of `addRemoteCandidate`. -/
def pairTrickled : Agent :=
  if a.state.checking then a.formPairs env
  else if a.state = .gathering ∧ a.localDesc.candidates.elems ≠ [] then
    (a.formPairs env).changeState env .connecting
  else a

def addRemoteCandidate (line : Bytes) : Agent :=
  match a.remoteDesc.addCandidateFromSdp env.parseCandidate line with
  | none => a
  | some d =>
      match d.candidates.elems.getLast? with
      | none => { a with remoteDesc := d }.pairTrickled env
      | some rc =>
          if rc.transport = .tcpActive then
            { a with remoteDesc := { d with candidates := d.candidates.popBack } }
          else (dialPassive env { a with remoteDesc := d } rc).pairTrickled env

/-! ## Settings -/

def validIceString (s : Bytes) (minLen : Nat) : Bool :=
  minLen ≤ s.length && s.length ≤ maxUfragLen &&
    s.all fun b => (48 ≤ b && b ≤ 57) || (65 ≤ b && b ≤ 90) || (97 ≤ b && b ≤ 122) ||
      b = 43 || b = 47

def setLocalIceAttributes (ufrag pwd : Option Bytes) : Agent :=
  if ufrag.all (validIceString · 4) && pwd.all (validIceString · 22) then
    { a with localDesc := { a.localDesc with
      iceUfrag := ufrag.getD a.localDesc.iceUfrag, icePwd := pwd.getD a.localDesc.icePwd } }
  else a

def maxServers : Nat := 8

def addStunServer (host : Bytes) (port : UInt16) : Agent :=
  if maxServers ≤ a.config.stunServers.length then a
  else { a with config := { a.config with stunServers := a.config.stunServers ++ [(host, port)] } }

def addTurnServer (srv : TurnServer) : Agent :=
  if maxServers ≤ a.config.turnServers.length then a
  else { a with config := { a.config with turnServers := a.config.turnServers ++ [srv] } }

end Agent

end Stice.Ice
