import Stice.Ice.Gather
import Stice.Turn.ChannelData

/-! Connectivity checks (`ice/agent.cpp`): Binding requests and responses, the timer pass that
sends them, and the application data that takes the selected pair. An entry that is pushed
during a pass is not visited by it. -/
namespace Stice.Ice
open Lib Net Stun
open Tcp (TcpState)

namespace Agent

variable (env : AgentEnv) (a : Agent)

/-! ## Binding requests -/

def verifyBindingRequest (msg : Message) : Bool :=
  let username := getString msg .username
  match username.dropWhile (· ≠ 58) with
  | [] => false
  | _ :: remoteUfrag =>
      username.takeWhile (· ≠ 58) = a.localDesc.iceUfrag &&
        (a.remoteDesc.iceUfrag = [] || remoteUfrag = a.remoteDesc.iceUfrag) &&
        msg.checkIntegrity a.localDesc.icePwd false

/-- The role after a request; `none` is the answer 487. -/
def resolveRole (msg : Message) : Option AgentMode :=
  if (msg.find .iceControlling).isSome then
    if a.mode = .controlling then
      if (readIceControlling msg).getD 0 ≤ a.tiebreaker then none else some .controlled
    else some a.mode
  else if (msg.find .iceControlled).isSome then
    if a.mode = .controlled then
      if (readIceControlled msg).getD 0 ≤ a.tiebreaker then some .controlling else none
    else some a.mode
  else some a.mode

def setMode (mode : AgentMode) : Agent :=
  if a.mode = mode then a else { a with mode }.updateOrderedPairs

def peerReflexive (src : AddrRecord) (priority : UInt32) (transport : CandidateTransport) :
    Candidate :=
  let hostname := (env.nameInfo src).1
  { type := .peerReflexive, transport, component := 1, resolved := some src, priority, hostname,
    service := (env.nameInfo src).2,
    foundation := Candidate.computeFoundation .peerReflexive hostname transport }

/-- The remote candidate at the source of a request, of the transport class it came by. -/
def remoteAt (src : AddrRecord) (transport : CandidateTransport) (c : Candidate) : Bool :=
  c.isAt src && c.transport.isTcp == transport.isTcp

/-- A local candidate of the family of a remote one and of a transport class. -/
def localFor (r : Candidate) (transport : CandidateTransport) (c : Candidate) : Bool :=
  c.family = r.family && c.transport.isTcp == transport.isTcp

/-- The second half of `findOrCreatePair`: the position of the pair in `pairs`. -/
def pairRemote (r : Candidate × Nat) (transport : CandidateTransport) : Option Nat × Agent :=
  match a.localDesc.candidates.refs.find? (fun l => localFor r.1 transport l.1) with
  | none => (none, a)
  | some l =>
      match a.pairs.findIdx? (·.joins l r) with
      | some i => (some i, a)
      | none =>
          if maxCandidatePairs ≤ a.pairs.length then (none, a)
          else
            (some a.pairs.length,
              { a with pairs := a.pairs ++ [a.newPair l r] }.updateOrderedPairs)

def findOrCreatePair (src : AddrRecord) (priority : UInt32) (transport : CandidateTransport) :
    Option Nat × Agent :=
  if addrIsLinkLocal src.ip then (none, a)
  else
    match a.remoteDesc.candidates.refs.find? (fun r => remoteAt src transport r.1) with
    | some r => a.pairRemote r transport
    | none =>
        if maxCandidates ≤ a.remoteDesc.candidates.elems.length then (none, a)
        else
          let c := peerReflexive env src priority transport
          (a.pushRemote c).pairRemote (c, a.remoteDesc.candidates.stop) transport

def nominate (msg : Message) (check : PairCheck) : PairCheck :=
  let apply (check : PairCheck) : PairCheck :=
    if check.state = .succeeded then { check with nominated := true }
    else { check with nominationRequested := true }
  if hasUseCandidate msg then
    match readNomination msg with
    | some value =>
        if check.nominationValue < value then apply { check with nominationValue := value }
        else check
    | none => apply check
  else check

/-- The response to a request, signed with the local password. -/
def bindingResponse (req : Message) (dst : AddrRecord) (errorCode : Nat) : Message :=
  let m : Message :=
    { method := .binding, cls := if errorCode = 0 then .successResponse else .errorResponse
      transactionID := req.transactionID, attributes := [], raw := [] }
  let m := if errorCode = 0 then writeXorAddress m .xorMappedAddress dst m.transactionID
    else addErrorCode m errorCode
  m.encode (some a.localDesc.icePwd) none (some (ascii "stice"))

def sendBindingResponse (req : Message) (dst : AddrRecord) (errorCode : Nat) : Agent :=
  a.note (.response dst (a.bindingResponse req dst errorCode))

/-- A pair is checked in return: its entry is armed, or a new one. -/
def triggerCheck (i : Nat) : Agent :=
  if a.pairState i ≠ some .succeeded ∧ a.remoteDesc.iceUfrag ≠ [] then
    let a := a.setPairState (some i) .pending
    match a.findEntry i with
    | some j => a.modifyEntry j (a.armTransmission env stunPacingTimeMs)
    | none => if a.entries.length < maxStunEntries then a.armPair env i else a
  else a

/-- The request is authentic and the roles agree. -/
def answerRequest (msg : Message) (src : AddrRecord) (transport : CandidateTransport) : Agent :=
  match a.findOrCreatePair env src ((readPriority msg).getD 0) transport with
  | (none, a) => a.sendBindingResponse msg src 500
  | (some i, a) =>
      ((a.modifyPair i (nominate msg)).sendBindingResponse msg src 0).triggerCheck env i

def handleBindingRequest (msg : Message) (src : AddrRecord) (transport : CandidateTransport) :
    Agent :=
  if a.localDesc.candidates.elems.any fun c => c.type = .relayed && c.isAt src then a
  else if a.verifyBindingRequest msg = false then
    a.sendBindingResponse msg src (if (msg.find .messageIntegrity).isSome then 400 else 401)
  else
    match a.resolveRole msg with
    | none => a.sendBindingResponse msg src 487
    | some mode => (a.setMode mode).answerRequest env msg src transport

/-! ## Sending checks -/

/-- `static_cast<int>`; a sum that overflows is read the same way. -/
def toInt32 (n : Int) : Int := n.bmod (2 ^ 32)

/-- The consent period that is configured for an entry. -/
def keepaliveOf (e : StunEntry) : Int :=
  if a.pairIsTcpRelay e.pair then a.pairing.keepaliveTcpRelay else a.pairing.keepaliveUdp

/-- The period around which consent checks are spread. -/
def consentBase (configured : Int) : Int :=
  if 0 < configured then toInt32 configured else defaultConsentCheckPeriodMs

/-- The period with its jitter, before it is cut off. -/
def jittered (base : Int) (random : UInt32) : Int :=
  let span := max 1 (base.tdiv 5)
  base + ((random.toNat : Int) % (2 * span + 1) - span)

/-- The period of consent checks of an entry. -/
def consentPeriod (random : UInt32) (e : StunEntry) : Int :=
  if a.lastAppDataAt.any (idleThresholdMs < env.now - ·) then idleConsentCheckMs
  else max minConsentCheckPeriodMs (toInt32 (jittered (consentBase (a.keepaliveOf e)) random))

def armKeepalive (random : UInt32) (e : StunEntry) : StunEntry :=
  { e with
    state := .succeededKeepalive
    transactionIdExpired := true
    nextTransmission := env.now + a.consentPeriod env random e
    arms := e.arms + 1 }

def tcpTypeValue : CandidateTransport → UInt32
  | .tcpPassive => 5
  | .tcpSimultaneousOpen => 2
  | _ => 6

/-- USE-CANDIDATE goes with the check. -/
def nominates (e : StunEntry) : Bool :=
  a.mode = .controlling &&
    (e.pair.bind (a.pairs[·]?)).any fun p => p.nominationRequested && !p.nominated

/-- The attributes of a check, in the order they are added. -/
def requestAttributes (e : StunEntry) (m : Message) : Message :=
  let l := e.pair.bind a.localOf
  let m := m.addAttribute .username (a.remoteDesc.iceUfrag ++ [58] ++ a.localDesc.iceUfrag)
  let m := l.elim m fun c =>
    addPriority m (Candidate.computePriority env.tcpPriorityOffset .peerReflexive c.family 1 0 .udp)
  let m := if a.mode = .controlling then addIceControlling m a.tiebreaker
    else addIceControlled m a.tiebreaker
  let m := if a.nominates e then
      let m := addUseCandidate m
      if 1 < a.nominationValue then addNomination m a.nominationValue else m
    else m
  l.elim m fun c => if c.transport.isTcp then addTcpType m (tcpTypeValue c.transport) else m

/-- A Binding request, signed with the remote password. -/
def bindingRequest (e : StunEntry) : Message :=
  (a.requestAttributes env e
    { method := .binding, cls := .request, transactionID := e.transactionID, attributes := []
      raw := [] }).encode (some a.remoteDesc.icePwd) none (some (ascii "stice"))

def allocatedRelay : Option Nat := a.entries.findIdx? (·.allocated)

/-- The check goes to a local relayed address. -/
def selfLoop (e : StunEntry) : Bool :=
  a.localDesc.candidates.elems.any fun c => c.type = .relayed && e.record.any (c.isAt ·)

/-- A check wants to take a relay: its local candidate is relayed, or there is an allocation and
the remote candidate is relayed or one at that address is. -/
def wantsRelay (e : StunEntry) : Bool :=
  (e.pair.bind a.localOf).any (·.type = .relayed) ||
    a.allocatedRelay.isSome &&
      ((e.pair.bind a.remoteOf).any (·.type = .relayed) ||
        a.remoteDesc.candidates.elems.any fun c => c.type = .relayed && e.record.any (c.isAt ·))

/-- The way of a message of a pair over TCP. -/
def tcpRoute (pair : Option Nat) : Option Route :=
  if a.config.tcpMux && (pair.bind a.localOf).any (·.transport = .tcpPassive) then some .tcpMux
  else if a.tcpTransport = some .connected then some .tcp
  else none

/-- The way of a check. `none` is one that is not sent. -/
def checkRoute (e : StunEntry) : Option Route :=
  if a.pairIsTcpRelay e.pair then if a.turnDataConn.any (·.bound) then some .turnData else none
  else if a.pairIsTcp e.pair then a.tcpRoute e.pair
  else if a.wantsRelay e then
    match a.allocatedRelay with
    | some j => if a.selfLoop e then none else some (.relay j)
    | none => some .udp
  else some .udp

/-- A check is blocked because it would loop through the own relay. -/
def blocked (e : StunEntry) : Bool :=
  !a.pairIsTcpRelay e.pair && !a.pairIsTcp e.pair && a.wantsRelay e && a.allocatedRelay.isSome &&
    a.selfLoop e

/-- The id of the next request of an entry; `none` if none could be drawn. -/
def transactionFor (j : Nat) (e : StunEntry) : Option TransactionID :=
  if e.transactionIdExpired then env.randomTid j else some e.transactionID

/-- `sendStunBinding` of a request. -/
def sendCheck (j : Nat) : Agent :=
  match a.entries[j]? with
  | none => a
  | some e =>
      match transactionFor env j e with
      | none => a
      | some tid =>
          let e := { e with transactionID := tid, transactionIdExpired := false, mode := a.mode }
          let a := a.modifyEntry j fun _ => e
          match a.checkRoute e with
          | some route =>
              if env.transmits j then a.noteRequest e e.pair route (a.bindingRequest env e) else a
          | none => if a.blocked e then a.setPairState e.pair .failed else a

/-! ## Binding responses -/

/-- The controlling side selects a better pair and will nominate it. -/
def preferBest : Agent :=
  match a.bestPair fun _ => true with
  | none => a
  | some best =>
      if a.selectedPair.all fun i => best ≠ i && a.pairPriority i < a.pairPriority best then
        { a with selectedPair := some best, nominationValue := a.nominationValue + 1 }
      else a

def accept (check : PairCheck) : PairCheck :=
  { check with
    state := .succeeded
    consentExpiry := env.now + consentTimeoutMs
    nominated := check.nominated || check.nominationRequested }

def nameNominated (i : Nat) : Agent :=
  if a.pairs[i]?.any (·.nominated) then { a with nominatedPair := some i } else a

/-- The selected and the nominated pair after a pair has succeeded. -/
def reviewPairs (i : Nat) : Agent :=
  if a.mode = .controlling then a.preferBest.nameNominated i else a.nameNominated i

/-- A success response for the pair of an entry. -/
def acceptAnswer (j i : Nat) : Agent :=
  let a := ((a.modifyPair i (accept env)).note (.answered i env.now)).reviewPairs i
  a.modifyEntry j (a.armKeepalive env (env.randomU32 j))

def switchedMode : AgentMode := if a.mode = .controlling then .controlled else .controlling

/-- The answer 487 to an entry sent in the present role. -/
def switchRole (j : Nat) (e : StunEntry) : Agent :=
  let a := { a with mode := a.switchedMode }.updateOrderedPairs
  if e.state = .idle then a else a.modifyEntry j (a.armTransmission env 0)

/-- An entry fails, and its pair with it. -/
def failEntry (j : Nat) (e : StunEntry) : Agent :=
  (a.setEntryState j .failed).setPairState e.pair .failed

/-- Any other error. -/
def failCheck (j : Nat) (e : StunEntry) : Agent :=
  let a := a.failEntry j e
  (if e.type = .check then a.armNextFrozenPair env else a).updateState env

def handleBindingResponse (msg : Message) (src : AddrRecord) (j : Nat) : Agent :=
  match a.entries[j]? with
  | none => a
  | some e =>
      if e.record.any (·.isEqual src true) = false then a
      else if msg.cls = .errorResponse then
        if ((readErrorCode msg).map (·.1)).getD 0 = 487 then
          if e.mode = a.mode then a.switchRole env j e else a
        else a.failCheck env j e
      else
        match e.pair with
        | none => a
        | some i =>
            if e.type = .check ∧ a.pairState i = some .failed then a else a.acceptAnswer env j i

/-! ## Inbound packets -/

def isResponseType : Stun.Class → Bool
  | .successResponse | .errorResponse => true
  | _ => false

def handleStunMessage (msg : Message) (src : AddrRecord) (transport : CandidateTransport) : Agent :=
  if msg.method ≠ .binding then a
  else if msg.cls = .request then a.handleBindingRequest env msg src transport
  else if isResponseType msg.cls then
    match a.entries.findIdx? (·.transactionID = msg.transactionID) with
    | none => a
    | some j =>
        if a.entries[j]?.any (·.type = .server) then
          a.handleServerReflexiveResponse env msg src j
        else a.handleBindingResponse env msg src j
  else a

def emitRecv (data : Bytes) : Agent := { a with lastAppDataAt := some env.now }.note (.recv data)

/-- The succeeded pair that data came by. -/
def pairOf (src : AddrRecord) : Option Nat :=
  (List.range a.pairs.length).find? fun i =>
    a.pairState i = some .succeeded && (a.remoteOf i).any (·.isAt src)

/-- Packets from a TURN server go to its client. -/
def handleInboundUdp (data : Bytes) (src : AddrRecord) (transport : CandidateTransport) : Agent :=
  if data = [] then a
  else if isMessage data then
    (decode data).elim a fun msg => a.handleStunMessage env msg src transport
  else if Turn.isChannelData data &&
      a.entries.any fun e => e.type = .relay && e.record.any (·.isEqual src true) then a
  else { a with selectedPair := a.pairOf src <|> a.selectedPair }.emitRecv env data

def handleInboundTcpPacket (data : Bytes) (src : AddrRecord) : Agent :=
  if isMessage data then (decode data).elim a fun msg => a.handleStunMessage env msg src .tcpActive
  else a.emitRecv env data

/-! ## Connections -/

/-- Some pairs fail. -/
def failPairs (f : Nat → Bool) : Agent :=
  let fail (i : Nat) (p : CandidatePair) : CandidatePair :=
    if f i then ⟨p.toPairEnds, { p.toPairCheck with state := .failed }⟩ else p
  { a with pairs := a.pairs.mapIdx fail }

/-- Some checks that are in progress fail. -/
def cancelEntries (f : StunEntry → Bool) : Agent :=
  let cancel (e : StunEntry) : StunEntry :=
    if e.type = .check && f e && e.state = .pending then { e with state := .failed } else e
  { a with entries := a.entries.map cancel }

/-- Checks that waited for the connection are sent at once. -/
def flushChecks : Agent :=
  let flush (e : StunEntry) : StunEntry :=
    if e.type = .check && e.state = .pending && a.pairIsTcp e.pair && e.retransmissions = 0 then
      { e with nextTransmission := env.now, retransmissionTimeout := stunTcpTimeoutMs }
    else e
  { a with entries := a.entries.map flush }

/-- `onTcpEvents`, with the state the transport is in afterwards. -/
def onTcpEvents (s : TcpState) : Agent :=
  if a.tcpTransport = none then a
  else if s = .connected then { a with tcpTransport := some s }.flushChecks env
  else if s = .failed ∨ s = .disconnected then
    (({ a with tcpTransport := none }.failPairs fun i => a.pairIsTcp (some i)).cancelEntries
      fun e => a.pairIsTcp e.pair).updateState env
  else { a with tcpTransport := some s }

/-- The checks of failed pairs go. -/
def eraseFailed : Agent :=
  let keeps (e : StunEntry) : Bool :=
    !(e.type = .check && e.pair.any fun i => a.pairState i = some .failed)
  { a with entries := a.entries.filter keeps }

/-- `onConnectFailed` when no retry is left. -/
def onConnectFailed (peer : AddrRecord) : Agent :=
  let a := a.failPairs fun i => (a.remoteOf i).any fun c => c.type = .relayed && c.isAt peer
  (a.eraseFailed.armNextFrozenPair env).updateState env

/-- The entry of the first TURN server over TCP. -/
def findTcpTurnEntry : Option StunEntry :=
  (a.entries.zipIdx.find? fun (e, j) =>
    e.type = .relay && e.relay.any (·.tcpTurn) && env.turnTcp j).map Prod.fst

/-- A data connection is opened to the server of the first TURN entry over TCP, whichever client
asks for it. -/
def beginTurnDataConnect (peer : AddrRecord) : Agent :=
  { a with turnDataConn := (a.findTcpTurnEntry env).map fun e =>
      { peer := { peer with socktype := .stream }, bound := false
        relayed := e.relay.bind (·.relayed) } }

/-- CONNECTION-BIND has succeeded. -/
def onTurnDataBound : Agent :=
  match a.turnDataConn with
  | none => a
  | some conn =>
      let waits (e : StunEntry) : Bool :=
        e.state = .pending && e.type = .check && a.pairIsTcpRelay e.pair
      let a := { a with turnDataConn := some { conn with bound := true } }
      match a.entries.findIdx? waits with
      | none => a
      | some j =>
          a.modifyEntry j fun e => { e with nextTransmission := env.now, retransmissions := 0 }

/-! ## Bookkeeping -/

/-- A gathering agent without a start is given one. -/
def seedGatherStart : Agent :=
  if a.gatheringDone = false ∧ a.state = .gathering ∧ a.gatherStartedAt = none then
    { a with gatherStartedAt := some env.now }
  else a

def forceGathering : Agent :=
  if a.gatheringDone = false ∧ a.gatherStartedAt.any (gatherTimeoutMs < env.now - ·) = true then
    { a with pendingRelayAllocations := 0, pendingServerReflexive := 0 }.checkGatheringComplete env
  else a

/-- The soft timeout of gathering. -/
def gatherTimeout : Agent := (a.seedGatherStart env).forceGathering env

/-- Connects that take too long. -/
def connectTimeouts : Agent :=
  let connecting := a.tcpTransport = some .connecting ∨ a.tcpTransport = some .tlsHandshaking
  let a := if env.tcpTimedOut = true ∧ connecting then
      { a with tcpTransport := some .disconnected }
    else a
  (List.range a.entries.length).foldl (fun a j =>
    if a.entries[j]?.any (fun e => e.relay.any (·.tcpTurn)) && env.turnTimedOut j then
      a.relayFailed env j
    else a) a

def maxRetransmissions (e : StunEntry) : Int :=
  if a.pairIsTcpRelay e.pair then 3
  else if a.pairIsTcp e.pair then 1
  else if 0 < a.pairing.maxCheckRetransmit then a.pairing.maxCheckRetransmit
  else maxStunCheckRetransmissions

/-- An entry has used up its transmissions. -/
def giveUp (j : Nat) (e : StunEntry) : Agent :=
  if e.type = .server then (a.settleServer env j .failed).setPairState e.pair .failed
  else if e.type = .check then (a.failEntry j e).armNextFrozenPair env
  else a.failEntry j e

/-- The transmission of an entry that is due. -/
def transmit (j : Nat) (e : StunEntry) : Agent :=
  let a := if e.type = .server then
      if env.transmits j then a.noteRequest e none .udp (buildBindingRequest e.transactionID)
      else a
    else a.sendCheck env j
  let timeout := if a.pairIsTcp e.pair then e.retransmissionTimeout
    else min (e.retransmissionTimeout * 2) lastStunRetransmissionTimeoutMs
  a.modifyEntry j fun e =>
    { e with
      retransmissions := e.retransmissions + 1, retransmissionTimeout := timeout
      nextTransmission := env.now + timeout }

def drivePending (j : Nat) (e : StunEntry) : Agent :=
  if a.pairIsTcpRelay e.pair && !a.turnDataConn.any (·.bound) then
    a.modifyEntry j fun e => { e with nextTransmission := env.now + stunTcpTimeoutMs }
  else if a.maxRetransmissions e ≤ e.retransmissions then a.giveUp env j e
  else a.transmit env j e

/-- Consent has expired, or a consent check is due. -/
def driveKeepalive (j : Nat) (e : StunEntry) : Agent :=
  if (e.pair.bind (a.pairs[·]?)).any fun p => p.consentExpiry ≤ env.now then
    a.failEntry j e
  else if e.nextTransmission ≤ env.now then
    let a := a.sendCheck env j
    a.modifyEntry j (a.armKeepalive env (env.randomU32 j))
  else a

def driveEntry (j : Nat) : Agent :=
  match a.entries[j]? with
  | none => a
  | some e =>
      let a := if e.state = .pending ∧ e.nextTransmission ≤ env.now then a.drivePending env j e
        else if e.state = .succeededKeepalive then a.driveKeepalive env j e
        else a
      if e.type = .relay ∧ e.state ≠ .cancelled ∧ env.tickFails j = true then a.relayFailed env j
      else a

/-- The wait before a candidate is nominated. -/
def acceptanceMinWaitMs : CandidateType → Int
  | .host => nominationDelayHostMs
  | .serverReflexive => nominationDelaySrflxMs
  | .peerReflexive => nominationDelayPrflxMs
  | .relayed => if a.relayOnlyMode then 0 else nominationDelayRelayMs
  | .unknown => nominationTimeoutMs

def isNominatable (i : Nat) : Bool :=
  let waited (c : Candidate) : Bool :=
    a.acceptanceMinWaitMs c.type ≤ env.now - a.checkingStartTime
  (a.localOf i).any waited && (a.remoteOf i).any waited

/-- A TCP relay is nominated once it has been stable, or has carried data. -/
def stable (p : CandidatePair) : Bool :=
  let succeeded := p.consentExpiry - consentTimeoutMs
  a.pairing.tcpNominationPrecheck ≤ env.now - succeeded || a.lastAppDataAt.any (succeeded ≤ ·)

/-- No other check can still find a better pair. -/
def allSettled (i : Nat) : Bool :=
  a.entries.zipIdx.all fun (e, j) =>
    e.type ≠ .check || a.findEntry i = some j || (e.state ≠ .pending && e.state ≠ .idle)

def shouldNominate (i : Nat) : Bool :=
  if a.pairing.nominationMode = .regularStableCheck && a.pairIsTcpRelay (some i) then
    a.isNominatable env i && a.pairs[i]?.any (a.stable env)
  else a.isNominatable env i || a.allSettled i

/-- The controlling side asks for the nomination of the selected pair. -/
def requestNomination : Agent :=
  match a.selectedPair with
  | none => a
  | some i =>
      if a.mode = .controlling ∧
          a.pairs[i]?.any (fun p => !p.nominated && !p.nominationRequested) = true ∧
          a.shouldNominate env i = true then
        let a := a.modifyPair i fun c => { c with nominationRequested := true }
        (a.findEntry i).elim a fun j => a.modifyEntry j (a.armTransmission env 0)
      else a

/-- A nominated pair freezes the others that are still checked. -/
def freezeOthers : Agent :=
  match a.nominatedPair with
  | none => a
  | some k =>
      let freeze (i : Nat) (p : CandidatePair) : CandidatePair :=
        if i ≠ k ∧ p.state = .pending then
          ⟨p.toPairEnds, { p.toPairCheck with state := .frozen }⟩
        else p
      { a with pairs := a.pairs.mapIdx freeze }

def driveEntries : Agent := (List.range a.entries.length).foldl (driveEntry env) a

def onBookkeeping : Agent :=
  let a := ((a.gatherTimeout env).connectTimeouts env).driveEntries env
  (((a.requestNomination env).freezeOthers).updateState env).note (.pass env.now)

/-! ## Application data -/

/-- The way of application data on a pair. -/
def dataRoute (i : Nat) : Option Route :=
  if a.pairIsTcpRelay (some i) then if a.turnDataConn.any (·.bound) then some .turnData else none
  else if a.pairIsTcp (some i) then a.tcpRoute (some i)
  else if (a.localOf i).any (·.type = .relayed) then a.allocatedRelay.map .relay
  else if (a.remoteOf i).any (·.type = .relayed) then
    some (a.allocatedRelay.elim .udp .relay)
  else some .udp

def send (data : Bytes) : Agent :=
  let a := { a with lastAppDataAt := some env.now }
  match a.selectedPair with
  | none => a
  | some i =>
      match a.dataRoute i with
      | none => a
      | some route => if env.sends then a.note (.data i route data) else a

end Agent

end Stice.Ice
