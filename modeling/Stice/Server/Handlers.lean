import Stice.Server.Alloc

/-! The request handlers of the TURN server (`TurnServer::authenticate` to
`handleConnectionBind`). `conn` is the connection a request came on, `none` for
the UDP listener. -/
namespace Stice.Server
open Std Net Stun Turn

/-! ## Lookups of connections -/

/-- `tcpConnRef`: the connection on a socket, unless it is dying. -/
def Conns.tcpConnRef (c : Conns) (sock : Socket) : Option Ptr :=
  match c.tcpBySock[sock]? with
  | none => none
  | some p =>
      match c.heap[p]? with
      | some conn => if conn.dying then none else some p
      | none => none

/-- The connection `tcpConnRef` returns, with what it points to. -/
def Conns.live (c : Conns) (sock : Socket) : Option (Ptr × TcpConn) :=
  (c.tcpConnRef sock).bind fun p => c.heap[p]?.map fun conn => (p, conn)

/-- `dataPipePeerRef`: the connection paired with the one on a socket. -/
def Conns.dataPipePeerRef (c : Conns) (sock : Socket) : Option Ptr :=
  match c.dataPipePeer[sock]? with
  | none => none
  | some p =>
      match c.heap[p]? with
      | some conn => if conn.dying then none else some p
      | none => none

/-! ## Authentication -/

def refreshNonce (cfg : Config) (env : Env) (s : State) : State :=
  { s with nonce := env.nonce, nonceExpiryMs := env.now + cfg.nonceLifetimeMs }

/-- 0, 401 or 438. An expired nonce is replaced before anything else is looked
at. -/
def authenticate (cfg : Config) (env : Env) (s : State) (msg : Message) : Nat × State :=
  if (msg.find .messageIntegrity).isNone then (401, s)
  else if s.nonceExpiryMs ≤ env.now then (438, refreshNonce cfg env s)
  else if getString msg .nonce ≠ s.nonce then (438, s)
  else
    match cfg.users[getString msg .username]? with
    | none => (401, s)
    | some password =>
        let key := Crypto.longTermKey (getString msg .username) (getString msg .realm) password
        if msg.checkIntegrity key false then (0, s) else (401, s)

/-! ## Responses -/

def serverName : Bytes := ascii "stserver"

/-- A message under construction with the transaction id of a request. -/
def response (method : Method) (cls : Stun.Class) (tid : TransactionID) : Message :=
  ⟨method, cls, tid, [], []⟩

def errorResponse (req : Message) (code : Nat) : Bytes :=
  ((addErrorCode (response req.method .errorResponse req.transactionID) code).encode none none
    (some serverName)).raw

/-- 401 and 438 carry REALM and NONCE and no MESSAGE-INTEGRITY. -/
def authErrorResponse (cfg : Config) (s : State) (req : Message) (code : Nat) : Bytes :=
  (((addErrorCode (response req.method .errorResponse req.transactionID) code).addAttribute
    .realm cfg.realm).addAttribute .nonce s.nonce |>.encode none none (some serverName)).raw

/-- `sendSuccessResponse`: signed with the long-term key of a known user. -/
def successResponse (cfg : Config) (s : State) (method : Method) (tid : TransactionID)
    (username : Bytes) (attributes : List Attribute) : Bytes :=
  let resp : Message := ⟨method, .successResponse, tid, attributes, []⟩
  match cfg.users[username]? with
  | none => (resp.encode none none (some serverName)).raw
  | some password =>
      let creds : Credentials :=
        ⟨username, cfg.realm, s.nonce, Crypto.longTermKey username cfg.realm password⟩
      (resp.encode (some []) (some creds) (some serverName)).raw

/-- A response goes back the way the request came. -/
def reply (s : State) (src : AddrRecord) (conn : Option Ptr) (raw : Bytes) : State :=
  match conn with
  | some c => s.emit (.tcp c raw)
  | none => s.emit (.udp src raw)

def replyError (s : State) (src : AddrRecord) (conn : Option Ptr) (req : Message) (code : Nat) :
    State :=
  reply s src conn (errorResponse req code)

/-- Run a handler on an authenticated request, answer the others. -/
def authenticated (cfg : Config) (env : Env) (s : State) (src : AddrRecord) (conn : Option Ptr)
    (req : Message) (handler : State → State) : State :=
  let (code, s) := authenticate cfg env s req
  if code ≠ 0 then reply s src conn (authErrorResponse cfg s req code) else handler s

/-! ## Binding -/

def handleBinding (s : State) (src : AddrRecord) (conn : Option Ptr) (req : Message) : State :=
  let resp := writeXorAddress (response .binding .successResponse req.transactionID)
    .xorMappedAddress src req.transactionID
  reply s src conn (resp.encode none none (some serverName)).raw

/-! ## Allocate -/

def buildRelayedAddr (cfg : Config) (port : UInt16) : AddrRecord := ⟨cfg.relayIp, port, .dgram⟩

/-- The bind loop: attempt `i` tries `port`; a port whose bind failed is released
and avoided from then on. At most 50 retries. -/
def bindRelay (cfg : Config) (env : Env) : Nat → Nat → List UInt16 → UInt16 → Tables →
    Option (Socket × Option UInt16) × UInt16 × Tables
  | 0, i, _, port, t => (env.relaySocket i port, port, t)
  | fuel + 1, i, failed, port, t =>
      match env.relaySocket i port with
      | some sock => (some sock, port, t)
      | none =>
          let failed := failed ++ [port]
          let t := Tables.releaseRelayPort port none t
          let (port, t) := Tables.allocRelayPort cfg (env.random (i + 1)) failed t
          if port = 0 then (none, 0, t) else bindRelay cfg env fuel (i + 1) failed port t

/-- What comes after the bind loop: a last reservation without a socket is given
back, and the reservation follows the port that was bound. -/
def settleRelay : Option (Socket × Option UInt16) × UInt16 × Tables →
    Option (Socket × UInt16) × Tables
  | (none, port, t) => (none, if port ≠ 0 then Tables.releaseRelayPort port none t else t)
  | (some (sock, bound), reserved, t) =>
      let port := bound.getD reserved
      if port ≠ reserved then
        let t := Tables.releaseRelayPort reserved none t
        (some (sock, port), { t with usedRelayPorts := t.usedRelayPorts.insert port none })
      else (some (sock, port), t)

/-- The relayed port and socket of a new allocation, with the port reserved;
`none` is answered with 508. -/
def reserveRelay (cfg : Config) (env : Env) (transport : SockType) (t : Tables) :
    Option (Socket × UInt16) × Tables :=
  let (port, t) := Tables.allocRelayPort cfg (env.random 0) [] t
  if port = 0 then (none, t)
  else
    match transport with
    | .stream => (some (invalidSocket, port), t)
    | .dgram => settleRelay (bindRelay cfg env 50 0 [] port t)

def newAllocation (cfg : Config) (env : Env) (s : State) (src : AddrRecord) (conn : Option Ptr)
    (req : Message) (transport : SockType) (sock : Socket) (port : UInt16) : Allocation where
  transport := transport
  clientAddr := src
  controlSock := ((conn.bind fun c => s.conns.heap[c]?).map TcpConn.sock).getD invalidSocket
  relaySock := sock
  relayedAddr := buildRelayedAddr cfg port
  relayPort := port
  username := getString req .username
  permissions := []
  channels := []
  expiryMs := env.now + cfg.allocationLifetime.toNat * 1000
  pendingConnects := []

/-- 17 and every other protocol number but 6 ask for a UDP relay. -/
def requestedTransport (req : Message) : Option SockType :=
  match req.find .requestedTransport with
  | some (proto :: _) => some (if proto = 6 then .stream else .dgram)
  | _ => none

def handleAllocate (cfg : Config) (env : Env) (s : State) (src : AddrRecord) (conn : Option Ptr)
    (req : Message) : State :=
  match requestedTransport req with
  | none => replyError s src conn req 400
  | some transport =>
      if cfg.maxAllocations ≤ s.tables.allocations.size then replyError s src conn req 486
      else
        match reserveRelay cfg env transport s.tables with
        | (none, t) => replyError { s with tables := t } src conn req 508
        | (some (sock, port), t) =>
            let a := newAllocation cfg env s src conn req transport sock port
            let attributes := [
              ⟨.xorRelayedAddress, encodeXorAddr a.relayedAddr req.transactionID⟩,
              ⟨.xorMappedAddress, encodeXorAddr src req.transactionID⟩,
              ⟨.lifetime, be32 cfg.allocationLifetime⟩]
            let raw := successResponse cfg s req.method req.transactionID a.username attributes
            reply { s with tables := Tables.register cfg a conn.isSome t } src conn raw

/-! ## Requests on an allocation

`p` points to the allocation of the 5-tuple and `a` is what it points to. -/

/-- The lifetime a Refresh asks for, at most the configured one. -/
def refreshLifetime (cfg : Config) (req : Message) : UInt32 :=
  match readLifetime req with
  | some l => if cfg.allocationLifetime < l then cfg.allocationLifetime else l
  | none => cfg.allocationLifetime

def handleRefresh (cfg : Config) (env : Env) (s : State) (src : AddrRecord) (conn : Option Ptr)
    (req : Message) (p : Ptr) (a : Allocation) : State :=
  let lifetime := refreshLifetime cfg req
  let raw := successResponse cfg s req.method req.transactionID a.username
    [⟨.lifetime, be32 lifetime⟩]
  if lifetime = 0 then
    let s := reply s src conn raw
    { s with tables := Tables.destroyAllocation cfg p s.tables }
  else
    reply (s.updateAlloc p fun a => { a with expiryMs := env.now + lifetime.toNat * 1000 })
      src conn raw

/-- The first permission for the peer's IP is replaced, else one is added. -/
def addPermission (peer : AddrRecord) (expiry : Int) : List Permission → List Permission
  | [] => [⟨peer, expiry⟩]
  | q :: qs =>
      if samePeerIP q.peer peer then ⟨peer, expiry⟩ :: qs
      else q :: addPermission peer expiry qs

def handleCreatePermission (cfg : Config) (env : Env) (s : State) (src : AddrRecord)
    (conn : Option Ptr) (req : Message) (p : Ptr) (a : Allocation) : State :=
  let peers := req.attributes.filterMap fun x =>
    if x.type = .xorPeerAddress then decodeXorAddr x.value req.transactionID else none
  let s := s.updateAlloc p fun a => { a with
    permissions := peers.foldl (fun qs peer =>
      addPermission peer (env.now + permissionLifetimeMs) qs) a.permissions }
  reply s src conn (successResponse cfg s req.method req.transactionID a.username [])

/-- A channel number binds to one peer IP and a peer IP to one number. -/
def badBinding (channel : UInt16) (peer : AddrRecord) (cs : List Channel) : Bool :=
  cs.any fun c => (c.number = channel && !samePeerIP c.peer peer) ||
    (samePeerIP c.peer peer && c.number ≠ channel)

def addChannel (channel : UInt16) (peer : AddrRecord) (expiry : Int) :
    List Channel → List Channel
  | [] => [⟨channel, peer, expiry⟩]
  | c :: cs =>
      if c.number = channel then ⟨channel, peer, expiry⟩ :: cs
      else c :: addChannel channel peer expiry cs

/-- Unlike CreatePermission, ChannelBind keeps the peer of a permission it
renews. -/
def renewPermission (peer : AddrRecord) (expiry : Int) : List Permission → List Permission
  | [] => [⟨peer, expiry⟩]
  | q :: qs =>
      if samePeerIP q.peer peer then ⟨q.peer, expiry⟩ :: qs
      else q :: renewPermission peer expiry qs

def handleChannelBind (cfg : Config) (env : Env) (s : State) (src : AddrRecord)
    (conn : Option Ptr) (req : Message) (p : Ptr) (a : Allocation) : State :=
  match readChannelNumber req with
  | none => replyError s src conn req 400
  | some channel =>
      if !channelValid channel then replyError s src conn req 400
      else
        match readXorAddress req .xorPeerAddress req.transactionID with
        | none => replyError s src conn req 400
        | some peer =>
            if badBinding channel peer a.channels then replyError s src conn req 400
            else
              let s := s.updateAlloc p fun a => { a with
                channels := addChannel channel peer (env.now + channelBindLifetimeMs) a.channels
                permissions :=
                  renewPermission peer (env.now + permissionLifetimeMs) a.permissions }
              reply s src conn (successResponse cfg s req.method req.transactionID a.username [])

/-! ## Relayed data -/

def permitted (now : Int) (peer : AddrRecord) (a : Allocation) : Bool :=
  a.permissions.any fun q => samePeerIP q.peer peer && now < q.expiryMs

def Allocation.hasRelay (a : Allocation) : Bool :=
  a.transport = .dgram && a.relaySock ≠ invalidSocket

def handleSendIndication (env : Env) (s : State) (req : Message) (p : Ptr) (a : Allocation) :
    State :=
  match readXorAddress req .xorPeerAddress req.transactionID, req.find .data with
  | some peer, some data =>
      if permitted env.now peer a && a.hasRelay then s.emit (.relay p peer data) else s
  | _, _ => s

/-- The frame the client gets for data from `peer`: ChannelData on a bound
channel, else a Data indication if there is a permission. -/
def clientFrame (env : Env) (a : Allocation) (peer : AddrRecord) (data : Bytes) : Option Bytes :=
  let channel := a.channels.find? fun c => c.peer.isEqual peer true && env.now < c.expiryMs
  match channel.bind fun c => wrapChannelData c.number data with
  | some frame => some frame
  | none =>
      if permitted env.now peer a then
        let ind := (writeXorAddress (response .data .indication env.tid) .xorPeerAddress peer
          env.tid).addAttribute .data data
        some (ind.encode none none (some serverName)).raw
      else none

/-- `forwardToClient`: over the control connection if the allocation has one,
else from the UDP listener. -/
def forwardToClient (env : Env) (s : State) (a : Allocation) (peer : AddrRecord) (data : Bytes) :
    State :=
  match clientFrame env a peer data with
  | none => s
  | some frame =>
      if a.controlSock ≠ invalidSocket then
        match s.conns.tcpConnRef a.controlSock with
        | some c => s.emit (.tcp c frame)
        | none => s
      else s.emit (.udp a.clientAddr frame)

/-- The local-relay shortcut: the peer is the relayed address of another
allocation with UDP control. -/
def shortcutTarget (cfg : Config) (t : Tables) (peer : AddrRecord) (p : Ptr) :
    Option Allocation :=
  if cfg.localRelayShortcut then
    match t.allocByRelayAddr[peer.key]? with
    | none => none
    | some q =>
        match t.heap[q]? with
        | some dst =>
            if q ≠ p ∧ dst.controlSock = invalidSocket ∧ dst.hasRelay then some dst else none
        | none => none
  else none

def handleChannelDataFrame (cfg : Config) (env : Env) (s : State) (data : Bytes) (p : Ptr)
    (a : Allocation) : State :=
  match unwrapChannelData data with
  | none => s
  | some (channel, payload) =>
      match a.channels.find? fun c => c.number = channel with
      | none => s
      | some c =>
          if !a.hasRelay then s
          else
            match shortcutTarget cfg s.tables c.peer p with
            | some dst => forwardToClient env s dst a.relayedAddr payload
            | none => s.emit (.relay p c.peer payload)

/-! ## RFC 6062 -/

def sendConnectionAttempt (env : Env) (s : State) (target : Allocation) (connId : UInt32)
    (peerRelayAddr : AddrRecord) : State :=
  let ind := addConnectionId (writeXorAddress (response .connectionAttempt .indication env.tid)
    .xorPeerAddress peerRelayAddr env.tid) connId
  match s.conns.tcpConnRef target.controlSock with
  | some c => s.emit (.tcp c (ind.encode none none (some serverName)).raw)
  | none => s

/-- The CONNECT response is held until the first CONNECTION-BIND. -/
def handleConnect (env : Env) (s : State) (c : Ptr) (req : Message) (p : Ptr) (a : Allocation) :
    State :=
  match readXorAddress req .xorPeerAddress req.transactionID with
  | none => s.emit (.tcp c (errorResponse req 400))
  | some peer =>
      match (s.tables.findTcpAllocByPeer peer p).bind fun q => s.tables.heap[q]? with
      | none => s.emit (.tcp c (errorResponse req 403))
      | some target =>
          let connId := s.nextConnId
          let pc : PendingConnect := ⟨connId, peer, invalidSocket, req.transactionID, false,
            env.now + pendingConnectLifetimeMs⟩
          let s := { s with nextConnId := connId + 1 }
          let s := s.updateAlloc p fun a =>
            { a with pendingConnects := a.pendingConnects ++ [pc] }
          let s := { s with tables := { s.tables with
            pendingByConnId := s.tables.pendingByConnId.insert connId p } }
          sendConnectionAttempt env s target connId a.relayedAddr

/-- `flushPrePair`: send what the connection buffered while it was half-bound. -/
def flushPrePair (s : State) (c : Ptr) : State :=
  match s.conns.heap[c]? with
  | none => s
  | some conn =>
      if conn.prePairBuf.isEmpty then s
      else
        match s.conns.dataPipePeerRef conn.sock with
        | none => s
        | some peer => (s.emit (.pipe c peer conn.prePairBuf)).updateConn c fun conn =>
            { conn with prePairBuf := [] }

/-- Change the pending connect that `findPendingByConnId` returned. -/
def updatePending (connId : UInt32) (f : PendingConnect → PendingConnect) :
    List PendingConnect → List PendingConnect
  | [] => []
  | pc :: pcs => if pc.connId = connId then f pc :: pcs else pc :: updatePending connId f pcs

/-- The connection becomes a data connection of that id. -/
def markData (s : State) (c : Ptr) (connId : UInt32) : State :=
  s.updateConn c fun conn => { conn with isData := true, connId := connId }

/-- The response to the original CONNECT, held until now. -/
def sendConnectResponse (cfg : Config) (s : State) (connId : UInt32) (connector : Allocation)
    (pc : PendingConnect) : State :=
  if pc.connectResponded then s
  else
    match s.conns.tcpConnRef connector.controlSock with
    | some dst => s.emit (.tcp dst (successResponse cfg s .connect pc.connectTid
        connector.username [⟨.connectionId, be32 connId⟩]))
    | none => s

def sendBindResponse (cfg : Config) (s : State) (c : Ptr) (req : Message) : State :=
  s.emit (.tcp c (successResponse cfg s .connectionBind req.transactionID
    (getString req .username) []))

/-- The first CONNECTION-BIND records the socket and releases the CONNECT
response. -/
def bindFirst (cfg : Config) (s : State) (c : Ptr) (conn : TcpConn) (req : Message)
    (connId : UInt32) (p : Ptr) (connector : Allocation) (pc : PendingConnect) : State :=
  let s := sendConnectResponse cfg (markData s c connId) connId connector pc
  let s := s.updateAlloc p fun a => { a with
    pendingConnects := updatePending connId
      (fun pc => { pc with firstDataSock := conn.sock, connectResponded := true })
      a.pendingConnects }
  sendBindResponse cfg s c req

/-- Both directions of the pipe and both peer pointers. -/
def Conns.publish (k : Conns) (sock first : Socket) (c peer : Ptr) : Conns :=
  { k with
    dataPipe := (k.dataPipe.insert sock first).insert first sock
    dataPipePeer := (k.dataPipePeer.insert sock peer).insert first c }

/-- Pair a connection with the one on the socket bound first, if it is still
there, and send what both have buffered. -/
def pairData (s : State) (c : Ptr) (sock first : Socket) : State :=
  match s.conns.tcpConnRef first with
  | some peer =>
      flushPrePair (flushPrePair { s with conns := s.conns.publish sock first c peer } c) peer
  | none => s

def retirePending (s : State) (p : Ptr) (connId : UInt32) : State :=
  let s := { s with tables := { s.tables with
    pendingByConnId := s.tables.pendingByConnId.erase connId } }
  s.updateAlloc p fun a => { a with
    pendingConnects := a.pendingConnects.filter fun pc => pc.connId ≠ connId }

/-- The second CONNECTION-BIND pairs the two sockets and retires the pending
connect. -/
def bindSecond (cfg : Config) (s : State) (c : Ptr) (conn : TcpConn) (req : Message)
    (connId : UInt32) (p : Ptr) (pc : PendingConnect) : State :=
  let s := sendBindResponse cfg (markData s c connId) c req
  retirePending (pairData s c conn.sock pc.firstDataSock) p connId

def handleConnectionBind (cfg : Config) (env : Env) (s : State) (conn : Option Ptr)
    (req : Message) : State :=
  match conn.bind fun c => s.conns.heap[c]?.map fun conn => (c, conn) with
  | none => s
  | some (c, conn) =>
      authenticated cfg env s conn.peerAddr (some c) req fun s =>
        match readConnectionId req with
        | none => s.emit (.tcp c (errorResponse req 400))
        | some connId =>
            match s.tables.findPendingByConnId connId with
            | none => s.emit (.tcp c (errorResponse req 437))
            | some (p, pc) =>
                match s.tables.heap[p]? with
                | none => s
                | some connector =>
                    if pc.firstDataSock = invalidSocket then
                      bindFirst cfg s c conn req connId p connector pc
                    else bindSecond cfg s c conn req connId p pc

end Stice.Server
