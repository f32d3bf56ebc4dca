import Stice.Stun.Attributes
import Stice.Turn.ChannelData

/-! The TURN client (`turn/turn.hpp`, `turn/turn.cpp`): allocation, permissions,
channels and the transaction timer. Every call is a function of the client and of
what the call draws from outside; what the client hands to its sink is recorded in
`out`, a callback that is not set drops what is recorded. Times are milliseconds
of the steady clock, read once in a call. -/
namespace Stice.Turn
open Std Net Stun

def turnRtoMs : Int := 200
def turnMaxRtxIntervalMs : Int := 1600
def turnMaxRtxCount : Nat := 7
def maxNonceRetries : Nat := 3
def maxPendingDataPkts : Nat := 512

inductive TurnTransport
  | udp | tcp | tls
  deriving DecidableEq, Repr

inductive AllocState
  | idle | allocating | allocated | deallocated | failed
  deriving DecidableEq, Repr

structure TurnConfig where
  username : Bytes
  password : Bytes
  transport : TurnTransport
  requestedLifetime : UInt32
  tcpAllocation : Bool

/-- A peer with its permission and its channel, 0 if there is none. -/
structure PeerBinding where
  peer : AddrRecord
  channel : UInt16
  permissionPermitted : Bool
  channelReady : Bool
  permissionRefreshAt : Int
  channelRefreshAt : Int
  permissionTidFresh : Bool
  channelTidFresh : Bool
  pendingData : List Bytes

def PeerBinding.new (peer : AddrRecord) : PeerBinding :=
  ⟨peer, 0, false, false, 0, 0, false, false, []⟩

/-- The transaction for the permission has ended. -/
def PeerBinding.clearPermissionTid (b : PeerBinding) : PeerBinding :=
  { b with permissionTidFresh := false }

def PeerBinding.clearChannelTid (b : PeerBinding) : PeerBinding :=
  { b with channelTidFresh := false }

/-- Buffer a packet until the permission is there, at the price of the oldest. -/
def PeerBinding.buffer (data : Bytes) (b : PeerBinding) : PeerBinding :=
  { b with pendingData :=
      (if maxPendingDataPkts ≤ b.pendingData.length then b.pendingData.tail else b.pendingData) ++
        [data] }

/-- `PendingTx::Kind`, with the peer where there is one. -/
inductive TxKind
  | allocate | refresh
  | createPermission (peer : AddrRecord)
  | channelBind (peer : AddrRecord)
  | connect (peer : AddrRecord)
  deriving DecidableEq

/-- `rawBytes` is the encoding `request.raw`. -/
structure PendingTx where
  kind : TxKind
  nextRetransmitAt : Int
  retries : Nat
  request : Message

/-- What the client hands to its sink: a STUN message or a ChannelData frame for
`sendRaw`, and the calls of the other callbacks. -/
inductive Effect
  | send (m : Message)
  | sendFrame (frame : Bytes)
  | onAllocated (relayed : AddrRecord) (lifetime : UInt32)
  | onFailed (code : Nat) (reason : Bytes)
  | onData (peer : AddrRecord) (data : Bytes)
  | onConnectSuccess (connId : UInt32) (peer : AddrRecord)
  | onConnectionAttempt (connId : UInt32) (peer : AddrRecord)
  | onConnectFailed (code : Nat) (reason : Bytes) (peer : AddrRecord)
  deriving DecidableEq

/-- `hasSend` tells whether `sendRaw` is set. `drawn` counts the transaction ids
drawn so far, so that a call can draw several. -/
structure Client where
  cfg : TurnConfig
  hasSend : Bool
  state : AllocState
  creds : Option Credentials
  nonceRetries : Nat
  failedEmitted : Bool
  lifetime : UInt32
  refreshAt : Int
  refreshTidFresh : Bool
  pending : TreeMap Bytes PendingTx
  bindings : List PeerBinding
  out : List Effect
  drawn : Nat

/-- What one call draws from outside: the clock, transaction ids, random numbers
and what `sendRaw` returns. -/
structure ClientEnv where
  now : Int
  tid : Nat → TransactionID
  random : Nat → Nat → UInt32
  sendRaw : Nat → Int

namespace Client

/-- A new client after `init`. -/
def init (cfg : TurnConfig) (hasSend : Bool) : Client :=
  ⟨cfg, hasSend, .idle, none, 0, false, 0, 0, false, ∅, [], [], 0⟩

def effect (c : Client) (e : Effect) : Client := { c with out := c.out ++ [e] }

/-! ## Credentials -/

def software : Bytes := ascii "stice"

/-- Re-derive the long-term key. -/
def applyCredentials (c : Client) : Client :=
  { c with creds := c.creds.map fun k =>
      if k.username.isEmpty then k
      else { k with key := Crypto.longTermKey k.username k.realm c.cfg.password } }

/-- Encode with the credentials, if there is a username. -/
def encodeRequest (c : Client) (m : Message) : Message :=
  match c.creds with
  | none => m.encode none none (some software)
  | some k =>
      if k.username.isEmpty then m.encode none none (some software)
      else m.encode (some c.cfg.password) (some k) (some software)

def prepareRequest (c : Client) (m : Message) : Client × Message :=
  (c.applyCredentials, c.applyCredentials.encodeRequest m)

/-- 401 and 438: the client with new credentials if the request should be sent
again, and otherwise what is left of the retry budget. -/
def handleAuthError (c : Client) (msg : Message) (code : Nat) (retryAuthed : Bool) :
    Bool × Client :=
  if code = 401 then
    if c.creds.isSome && !retryAuthed then (false, c)
    else
      let c := { c with nonceRetries := c.nonceRetries + 1 }
      if maxNonceRetries < c.nonceRetries then (false, c)
      else
        let k := c.creds.getD ⟨[], [], [], []⟩
        (true, { c with creds := some { k with
          username := c.cfg.username
          realm := getString msg .realm
          nonce := getString msg .nonce } })
  else if code = 438 then
    let c := { c with nonceRetries := c.nonceRetries + 1 }
    if maxNonceRetries < c.nonceRetries then (false, c)
    else (true, { c with creds := c.creds.map fun k => { k with nonce := getString msg .nonce } })
  else (false, c)

/-- Terminal, and reported at most once. -/
def failAllocation (c : Client) (code : Nat) (reason : Bytes) : Client :=
  if c.failedEmitted then c
  else { c with failedEmitted := true, state := .failed, pending := ∅ }.effect
    (.onFailed code reason)

/-! ## Requests -/

def sendPrepared (c : Client) (m : Message) : Client :=
  if c.hasSend then c.effect (.send m) else c

def request (method : Method) (tid : TransactionID) : Message := ⟨method, .request, tid, [], []⟩

/-- Draw a transaction id, encode a request, register it and send it. -/
def startTx (env : ClientEnv) (c : Client) (kind : TxKind) (build : TransactionID → Message) :
    Client :=
  let tid := env.tid c.drawn
  let (c, m) := { c with drawn := c.drawn + 1 }.prepareRequest (build tid)
  { c with pending := c.pending.insert tid.1 ⟨kind, env.now + turnRtoMs, 0, m⟩ }.sendPrepared m

def allocate (env : ClientEnv) (c : Client) : Client :=
  if c.state ≠ .idle then c
  else startTx env { c with state := .allocating } .allocate fun tid =>
    addRequestedTransport (request .allocate tid) (if c.cfg.tcpAllocation then 6 else 17)

def sendRefresh (env : ClientEnv) (c : Client) (lifetime : UInt32) : Client :=
  if c.refreshTidFresh then c
  else startTx env { c with refreshTidFresh := true, refreshAt := env.now + turnRtoMs } .refresh
    fun tid => addLifetime (request .refresh tid) lifetime

def deallocate (env : ClientEnv) (c : Client) : Client :=
  if c.state ≠ .allocated then c
  else { sendRefresh env { c with refreshTidFresh := false } 0 with state := .deallocated }

/-! ## Bindings -/

def samePeer (peer : AddrRecord) (b : PeerBinding) : Bool := b.peer.isEqual peer true

/-- The binding `getBinding` refers to. -/
def getBinding (c : Client) (peer : AddrRecord) : PeerBinding :=
  (c.bindings.find? (samePeer peer)).getD (.new peer)

/-- `getBinding` adds a binding where there is none. -/
def withBinding (c : Client) (peer : AddrRecord) : Client :=
  if c.bindings.any (samePeer peer) then c
  else { c with bindings := c.bindings ++ [.new peer] }

/-- Change the first binding of the peer. -/
def modifyBinding (peer : AddrRecord) (f : PeerBinding → PeerBinding) :
    List PeerBinding → List PeerBinding
  | [] => []
  | b :: bs => if samePeer peer b then f b :: bs else b :: modifyBinding peer f bs

def updateBinding (c : Client) (peer : AddrRecord) (f : PeerBinding → PeerBinding) : Client :=
  { c with bindings := modifyBinding peer f c.bindings }

/-- Permissions go by IP. -/
def hasPermission (c : Client) (peer : AddrRecord) : Bool :=
  c.bindings.any fun b => b.peer.isEqual peer false && b.permissionPermitted

def sendCreatePermission (env : ClientEnv) (c : Client) (peer : AddrRecord) : Client :=
  let c := c.withBinding peer
  if (c.getBinding peer).permissionTidFresh then c
  else startTx env (c.updateBinding peer fun b => { b with permissionTidFresh := true })
    (.createPermission peer)
    fun tid => writeXorAddress (request .createPermission tid) .xorPeerAddress peer tid

/-- Eight attempts at a number that no other binding has, then any number. -/
def pickChannel (env : ClientEnv) (c : Client) (peer : AddrRecord) : UInt16 :=
  let draw (attempt : Nat) : UInt16 := randomChannelNumber (env.random c.drawn attempt)
  let others := c.bindings.eraseP (samePeer peer)
  (((List.range 8).map draw).find? fun ch => !others.any fun ob => ob.channel = ch).getD (draw 8)

def sendChannelBind (env : ClientEnv) (c : Client) (peer : AddrRecord) : Client :=
  let c := c.withBinding peer
  let b := c.getBinding peer
  if b.channelTidFresh then c
  else
    let channel := if b.channel = 0 then c.pickChannel env peer else b.channel
    startTx env
      (c.updateBinding peer fun b => { b with channel := channel, channelTidFresh := true })
      (.channelBind peer) fun tid =>
        addChannelNumber (writeXorAddress (request .channelBind tid) .xorPeerAddress peer tid)
          channel

/-! ## Application data -/

/-- A Send indication: no credentials. -/
def sendIndication (tid : TransactionID) (peer : AddrRecord) (data : Bytes) : Message :=
  (addData (writeXorAddress ⟨.send, .indication, tid, [], []⟩ .xorPeerAddress peer tid) data).encode
    none none (some software)

/-- `prepareChannelData`: the return value, and the frame if it is 1. -/
def prepareChannelData (c : Client) (peer : AddrRecord) (data : Bytes) : Int × Option Bytes :=
  if c.state ≠ .allocated then (-1, none)
  else
    match c.bindings.find? (samePeer peer) with
    | none => (0, none)
    | some b =>
        if !b.channelReady then (0, none)
        else
          match wrapChannelData b.channel data with
          | none => (-1, none)
          | some frame => (1, some frame)

def sendData (env : ClientEnv) (c : Client) (peer : AddrRecord) (data : Bytes) : Int × Client :=
  if c.state ≠ .allocated then (-1, c)
  else
    let c := c.withBinding peer
    let b := c.getBinding peer
    if !c.hasPermission peer then
      let c := if b.permissionTidFresh then c else c.sendCreatePermission env peer
      (data.length, c.updateBinding peer (PeerBinding.buffer data))
    else if b.channelReady then
      match wrapChannelData b.channel data with
      | none => (-1, c)
      | some frame =>
          if c.hasSend then (env.sendRaw c.out.length, c.effect (.sendFrame frame)) else (-1, c)
    else if 0xFFFF - 40 < data.length then (-1, c)
    else
      let m := sendIndication (env.tid c.drawn) peer data
      let ret := if c.hasSend then env.sendRaw c.out.length else -1
      let c := { c with drawn := c.drawn + 1 }.sendPrepared m
      (ret, if b.channel = 0 then c.sendChannelBind env peer else c)

/-- The loop of `flushPendingData`: the client and the packets left. -/
def flushPackets (env : ClientEnv) (b : PeerBinding) (c : Client) : List Bytes → Client × List Bytes
  | [] => (c, [])
  | pkt :: rest =>
      if b.channelReady then
        match wrapChannelData b.channel pkt with
        | none => (c, pkt :: rest)
        | some frame =>
            let r := env.sendRaw c.out.length
            let c := c.effect (.sendFrame frame)
            if r < 0 then (c, pkt :: rest) else flushPackets env b c rest
      else
        let r := env.sendRaw c.out.length
        let m := sendIndication (env.tid c.drawn) b.peer pkt
        let c := { c with drawn := c.drawn + 1 }.effect (.send m)
        if r < 0 then (c, pkt :: rest) else flushPackets env b c rest

/-- Drain a binding in order until the transport refuses. -/
def flushPendingData (env : ClientEnv) (c : Client) (b : PeerBinding) : Client × PeerBinding :=
  if c.hasSend then
    let (c, left) := flushPackets env b c b.pendingData
    (c, { b with pendingData := left })
  else (c, b)

/-! ## Responses -/

/-- Half the lifetime and a random tenth, in milliseconds. -/
def refreshDelay (env : ClientEnv) (c : Client) (lt : UInt32) : Int :=
  let baseSecs := max 1 (lt / 2)
  let jitterSecs := if 10 < lt then env.random c.drawn 0 % (lt / 10 + 1) else 0
  (baseSecs + jitterSecs).toNat * 1000

def errorOf (msg : Message) : Nat × Bytes := (readErrorCode msg).getD (0, [])

def handleAllocateResponse (env : ClientEnv) (c : Client) (msg : Message) (isError : Bool) :
    Client :=
  if isError then
    let (code, reason) := errorOf msg
    if code = 401 ∨ code = 438 then
      match c.handleAuthError msg code false with
      | (true, c) => allocate env { c with state := .idle }
      | (false, c) =>
          c.failAllocation code (if code = 401 ∧ c.creds.isSome
            then ascii "authentication failed: " ++ reason
            else ascii "allocate failed: " ++ reason)
    else c.failAllocation code reason
  else
    let c := { c with nonceRetries := 0 }
    match readXorAddress msg .xorRelayedAddress msg.transactionID with
    | none => c.failAllocation 0 (ascii "missing relayed address")
    | some relayed =>
        let lt := (readLifetime msg).getD c.cfg.requestedLifetime
        { c with
          lifetime := lt
          state := .allocated
          refreshAt := env.now + c.refreshDelay env lt }.effect (.onAllocated relayed lt)

def handleRefreshResponse (env : ClientEnv) (c : Client) (msg : Message) (isError : Bool) :
    Client :=
  if isError then
    let (code, reason) := errorOf msg
    match c.handleAuthError msg code true with
    | (true, c) => c.sendRefresh env c.lifetime
    | (false, c) => c.failAllocation code (ascii "refresh failed: " ++ reason)
  else
    let c := { c with nonceRetries := 0 }
    if c.state = .deallocated then c
    else
      let lt := (readLifetime msg).getD c.cfg.requestedLifetime
      { c with lifetime := lt, refreshAt := env.now + c.refreshDelay env lt }

/-- The success of a CreatePermission request: flush what was buffered for it. -/
def permit (env : ClientEnv) (c : Client) (peer : AddrRecord) : Client :=
  let c := { c with nonceRetries := 0 }.updateBinding peer fun b =>
    { b with permissionPermitted := true, permissionRefreshAt := env.now + 120000 }
  let b := c.getBinding peer
  if b.pendingData.isEmpty then c
  else
    let (c, b) := c.flushPendingData env b
    let c := c.updateBinding peer fun _ => b
    if b.channel = 0 then c.sendChannelBind env peer else c

def handleCreatePermissionResponse (env : ClientEnv) (c : Client) (msg : Message) (isError : Bool)
    (peer : AddrRecord) : Client :=
  let c := c.withBinding peer
  if !isError then c.permit env peer
  else
    let (code, _) := errorOf msg
    match c.handleAuthError msg code true with
    | (true, c) => (c.updateBinding peer .clearPermissionTid).sendCreatePermission env peer
    | (false, c) => c.updateBinding peer fun b => { b with pendingData := [] }

def handleChannelBindResponse (env : ClientEnv) (c : Client) (msg : Message) (isError : Bool)
    (peer : AddrRecord) : Client :=
  let c := c.withBinding peer
  if !isError then
    { c with nonceRetries := 0 }.updateBinding peer fun b =>
      { b with channelReady := true, channelRefreshAt := env.now + 300000 }
  else
    let (code, reason) := errorOf msg
    match c.handleAuthError msg code true with
    | (true, c) => (c.updateBinding peer .clearChannelTid).sendChannelBind env peer
    | (false, c) =>
        if code = 400 then
          if (c.getBinding peer).channelReady then
            c.updateBinding peer fun b => { b with channelRefreshAt := env.now + 300000 }
          else
            { c with state := .failed }.effect
              (.onFailed code (ascii "ChannelBind bad request: " ++ reason))
        else c

def handleConnectResponse (c : Client) (msg : Message) (isError : Bool) (peer : AddrRecord) :
    Client :=
  if isError then
    let (code, reason) := errorOf msg
    c.effect (.onConnectFailed code reason peer)
  else
    match readConnectionId msg with
    | none => c
    | some connId => c.effect (.onConnectSuccess connId peer)

def handleStunResponse (env : ClientEnv) (c : Client) (m : Message) : Client :=
  match c.pending[m.transactionID.1]? with
  | none => c
  | some tx =>
      let isError := m.cls = .errorResponse
      let c := { c with pending := c.pending.erase m.transactionID.1 }
      match tx.kind with
      | .allocate => c.handleAllocateResponse env m isError
      | .refresh => { c with refreshTidFresh := false }.handleRefreshResponse env m isError
      | .createPermission peer =>
          (c.updateBinding peer .clearPermissionTid).handleCreatePermissionResponse env m
            isError peer
      | .channelBind peer =>
          (c.updateBinding peer .clearChannelTid).handleChannelBindResponse env m isError peer
      | .connect peer => c.handleConnectResponse m isError peer

/-! ## Indications and ChannelData -/

def handleDataIndication (c : Client) (msg : Message) : Client :=
  match readXorAddress msg .xorPeerAddress msg.transactionID, msg.find .data with
  | some peer, some data => c.effect (.onData peer data)
  | _, _ => c

/-- A channel that is not in the table is taken for the one of the sole binding. -/
def handleChannelData (c : Client) (data : Bytes) : Client :=
  match unwrapChannelData data with
  | none => c
  | some (channel, payload) =>
      match c.bindings.find? fun b => b.channel = channel with
      | some b => c.effect (.onData b.peer payload)
      | none =>
          match c.bindings with
          | [b] => c.effect (.onData b.peer payload)
          | _ => c

def sendConnect (env : ClientEnv) (c : Client) (peer : AddrRecord) : Client :=
  if c.state ≠ .allocated then c
  else startTx env c (.connect peer) fun tid =>
    writeXorAddress (request .connect tid) .xorPeerAddress peer tid

/-- The request for a new data connection; the client does not send it itself. -/
def buildConnectionBindRequest (env : ClientEnv) (c : Client) (connectionId : UInt32) :
    Client × Message :=
  { c with drawn := c.drawn + 1 }.prepareRequest
    (addConnectionId (request .connectionBind (env.tid c.drawn)) connectionId)

def handleConnectionAttempt (c : Client) (msg : Message) : Client :=
  match readXorAddress msg .xorPeerAddress msg.transactionID, readConnectionId msg with
  | some peer, some connId => c.effect (.onConnectionAttempt connId peer)
  | _, _ => c

/-- `none` is the null pointer: the transport failed. -/
def handleInbound (env : ClientEnv) (c : Client) : Option Bytes → Client
  | none =>
      if c.state ≠ .failed then c.failAllocation 0 (ascii "transport failure") else c
  | some data =>
      if isChannelData data then c.handleChannelData data
      else
        match decode data with
        | none => c
        | some m =>
            match m.cls, m.method with
            | .successResponse, _ | .errorResponse, _ => c.handleStunResponse env m
            | .indication, method =>
                if method = .data then c.handleDataIndication m
                else if method = .connectionAttempt then c.handleConnectionAttempt m
                else c
            | .request, _ => c

/-! ## The timer -/

/-- A transaction whose retransmissions are used up; `true` where `tick` returns. -/
def timeoutTx (c : Client) : TxKind → Bool × Client
  | .allocate => (true, c.failAllocation 0 (ascii "allocate timeout"))
  | .refresh =>
      (true, { c with refreshTidFresh := false }.failAllocation 0 (ascii "refresh timeout"))
  | .createPermission peer =>
      (false, c.updateBinding peer fun b =>
        { b with permissionTidFresh := false, pendingData := [] })
  | .channelBind peer =>
      (false, c.updateBinding peer fun b =>
        { b with
          channelTidFresh := false
          pendingData := if c.hasPermission b.peer then b.pendingData else [] })
  | .connect _ => (false, c)

/-- `TurnRtoMs << retries`, capped. -/
def rtxInterval (retries : Nat) : Int := min (turnRtoMs * 2 ^ retries) turnMaxRtxIntervalMs

/-- One transaction in the loop of the transaction timer: only UDP retransmits. -/
def tickTx (env : ClientEnv) (c : Client) (key : Bytes) : Bool × Client :=
  match c.pending[key]? with
  | none => (false, c)
  | some tx =>
      if env.now < tx.nextRetransmitAt then (false, c)
      else if turnMaxRtxCount ≤ tx.retries then
        { c with pending := c.pending.erase key }.timeoutTx tx.kind
      else
        let c := if c.cfg.transport = .udp ∧ !tx.request.raw.isEmpty
          then c.sendPrepared tx.request else c
        (false, { c with pending := c.pending.insert key { tx with
          retries := tx.retries + 1
          nextRetransmitAt := env.now + rtxInterval (tx.retries + 1) } })

/-- The transaction timer over the keys of the map, `true` where `tick` returns early. -/
def tickPending (env : ClientEnv) (c : Client) : List Bytes → Bool × Client
  | [] => (false, c)
  | key :: rest =>
      match c.tickTx env key with
      | (true, c) => (true, c)
      | (false, c) => tickPending env c rest

/-- Refresh the permission and the channel of a binding if due. What is read of the
binding here is not changed by the refresh of another. -/
def refreshBinding (env : ClientEnv) (c : Client) (b : PeerBinding) : Client :=
  let c := if b.permissionPermitted ∧ b.permissionRefreshAt ≤ env.now
    then c.sendCreatePermission env b.peer else c
  if b.channelReady ∧ b.channelRefreshAt ≤ env.now then c.sendChannelBind env b.peer else c

/-- Retry what is buffered, binding by binding. -/
def flushBindings (env : ClientEnv) (c : Client) : List PeerBinding → Client × List PeerBinding
  | [] => (c, [])
  | b :: bs =>
      let (c, b) := if b.permissionPermitted then c.flushPendingData env b else (c, b)
      let (c, bs) := flushBindings env c bs
      (c, b :: bs)

/-- Without permission and channel for five minutes after the last refresh was due. -/
def stale (env : ClientEnv) (b : PeerBinding) : Bool :=
  !b.permissionPermitted && !b.channelReady && !b.permissionTidFresh && !b.channelTidFresh &&
    b.permissionRefreshAt + 300000 < env.now

/-- When `tick` wants to be called again, `none` for never. -/
def nextTick (c : Client) : Option Int :=
  (c.pending.toList.map (·.2.nextRetransmitAt) ++
    c.bindings.flatMap (fun b =>
      (if b.permissionPermitted then [b.permissionRefreshAt] else []) ++
      (if b.channelReady then [b.channelRefreshAt] else [])) ++
    (if c.state = .allocated then [c.refreshAt] else [])).min?

/-- The loops over the bindings: refresh, retry, garbage collection. -/
def tickLoops (env : ClientEnv) (c : Client) : Client :=
  let c := c.bindings.foldl (refreshBinding env) c
  let (c, bindings) := flushBindings env c c.bindings
  { c with bindings := bindings.filter fun b => !stale env b }

/-- The parts of `tick` after the transaction timer. -/
def tickBindings (env : ClientEnv) (c : Client) : Client :=
  let c := if c.state = .allocated ∧ c.refreshAt ≤ env.now then c.sendRefresh env c.lifetime else c
  c.tickLoops env

def tick (env : ClientEnv) (c : Client) : Option Int × Client :=
  match c.tickPending env c.pending.keys with
  | (true, c) => (none, c)
  | (false, c) => let c := c.tickBindings env; (c.nextTick, c)

/-! ## Runs -/

/-- The calls of the public interface that change the client. -/
inductive Call
  | allocate
  | deallocate
  | ensurePermission (peer : AddrRecord)
  | sendData (peer : AddrRecord) (data : Bytes)
  | sendConnect (peer : AddrRecord)
  | buildConnectionBindRequest (connectionId : UInt32)
  | handleInbound (data : Option Bytes)
  | tick

def call (env : ClientEnv) (c : Client) : Call → Client
  | .allocate => c.allocate env
  | .deallocate => c.deallocate env
  | .ensurePermission peer => c.sendCreatePermission env peer
  | .sendData peer data => (c.sendData env peer data).2
  | .sendConnect peer => c.sendConnect env peer
  | .buildConnectionBindRequest connectionId => (c.buildConnectionBindRequest env connectionId).1
  | .handleInbound data => c.handleInbound env data
  | .tick => (c.tick env).2

end Client
end Stice.Turn
