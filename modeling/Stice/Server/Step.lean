import Stice.Server.Handlers

/-! Dispatch and events of the TURN server (`handleUdpPacket` to
`processShardItem`). An event is what one pass of a server thread does to the
shared state; the parse loop of a connection is cut into its passes, so that
other events, the close of the connection too, may come between two frames of one
chunk. -/
namespace Stice.Server
open Std Net Stun Turn

/-! ## Dispatch -/

/-- An allocation request finds an allocation: a live one is a mismatch, an
expired one is replaced. -/
def dispatchAllocate (cfg : Config) (env : Env) (s : State) (src : AddrRecord)
    (conn : Option Ptr) (msg : Message) (alloc : Option (Ptr × Allocation)) : State :=
  let allocate (s : State) : State :=
    authenticated cfg env s src conn msg fun s => handleAllocate cfg env s src conn msg
  match alloc with
  | none => allocate s
  | some (p, a) =>
      if a.expiryMs ≤ env.now then
        allocate { s with tables := Tables.destroyAllocation cfg p s.tables }
      else replyError s src conn msg 437

/-- Requests that need an allocation. -/
def onAllocation (cfg : Config) (env : Env) (s : State) (src : AddrRecord) (conn : Option Ptr)
    (msg : Message) (alloc : Option (Ptr × Allocation))
    (handler : State → Ptr → Allocation → State) : State :=
  match alloc with
  | none => replyError s src conn msg 437
  | some (p, a) => authenticated cfg env s src conn msg fun s => handler s p a

def dispatchConnect (cfg : Config) (env : Env) (s : State) (src : AddrRecord)
    (conn : Option Ptr) (msg : Message) (alloc : Option (Ptr × Allocation)) : State :=
  match conn with
  | none => s
  | some c =>
      match alloc with
      | none => s.emit (.tcp c (errorResponse msg 437))
      | some (p, a) =>
          if a.transport ≠ .stream then s.emit (.tcp c (errorResponse msg 400))
          else authenticated cfg env s src conn msg fun s => handleConnect env s c msg p a

def dispatchStun (cfg : Config) (env : Env) (s : State) (src : AddrRecord) (conn : Option Ptr)
    (msg : Message) (alloc : Option (Ptr × Allocation)) : State :=
  match msg.cls with
  | .request =>
      if msg.method = Method.binding then handleBinding s src conn msg
      else if msg.method = Method.allocate then dispatchAllocate cfg env s src conn msg alloc
      else if msg.method = Method.refresh then
        onAllocation cfg env s src conn msg alloc fun s p a =>
          handleRefresh cfg env s src conn msg p a
      else if msg.method = Method.createPermission then
        onAllocation cfg env s src conn msg alloc fun s p a =>
          handleCreatePermission cfg env s src conn msg p a
      else if msg.method = Method.channelBind then
        onAllocation cfg env s src conn msg alloc fun s p a =>
          handleChannelBind cfg env s src conn msg p a
      else if msg.method = Method.send then s
      else if msg.method = Method.connect then dispatchConnect cfg env s src conn msg alloc
      else if msg.method = Method.connectionBind then handleConnectionBind cfg env s conn msg
      else replyError s src conn msg 400
  | .indication =>
      match alloc with
      | some (p, a) => if msg.method = Method.send then handleSendIndication env s msg p a else s
      | none => s
  | _ => s

/-- Follow a pointer that a lookup map returned. -/
def Tables.deref (t : Tables) (p : Option Ptr) : Option (Ptr × Allocation) :=
  p.bind fun p => t.heap[p]?.map fun a => (p, a)

/-! ## UDP listener -/

def handleUdpPacket (cfg : Config) (env : Env) (s : State) (data : Bytes) (src : AddrRecord) :
    State :=
  let alloc := s.tables.deref (s.tables.findAlloc (allocKey cfg .dgram src))
  if isChannelData data then
    match alloc with
    | some (p, a) => handleChannelDataFrame cfg env s data p a
    | none => s
  else
    match decode data with
    | none => s
    | some msg => dispatchStun cfg env s src none msg alloc

/-- `ioOnUdpData`: ChannelData of a known client is forwarded on the IO thread,
everything else goes through the control queue to `handleUdpPacket`. -/
def ioOnUdpData (cfg : Config) (env : Env) (s : State) (data : Bytes) (src : AddrRecord) : State :=
  if isChannelData data then
    match s.tables.deref s.tables.allocByClientAddr[src.key]? with
    | some (p, a) => handleChannelDataFrame cfg env s data p a
    | none => handleUdpPacket cfg env s data src
  else handleUdpPacket cfg env s data src

/-- Peer data on a relay socket. -/
def ioOnRelayData (env : Env) (s : State) (sock : Socket) (data : Bytes) (src : AddrRecord) :
    State :=
  match s.tables.deref s.tables.allocByRelaySock[sock]? with
  | some (_, a) => forwardToClient env s a src data
  | none => s

/-! ## TCP connections -/

def registerTcpConn (s : State) (sock : Socket) (peer : AddrRecord) : State :=
  let p := s.conns.nextPtr
  { s with conns := { s.conns with
    heap := s.conns.heap.insert p ⟨sock, peer, .empty, false, 0, [], false⟩
    tcpBySock := s.conns.tcpBySock.insert sock p
    nextPtr := p + 1 } }

/-- One frame of a connection that is not yet, or already, a data connection. -/
def handleTcpFrame (cfg : Config) (env : Env) (s : State) (c : Ptr) (conn : TcpConn)
    (sock : Socket) (data : Bytes) : State :=
  if conn.isData then
    match s.conns.dataPipePeerRef sock with
    | some peer => s.emit (.pipe c peer data)
    | none => s
  else
    let alloc := s.tables.deref s.tables.allocByControlSock[sock]?
    if isChannelData data then
      match alloc with
      | some (p, a) => handleChannelDataFrame cfg env s data p a
      | none => s
    else
      match decode data with
      | none => s
      | some msg => dispatchStun cfg env s conn.peerAddr (some c) msg alloc

/-- Raw bytes of a data connection: to the peer, behind what is still buffered;
before there is a peer into the buffer, up to a cap. -/
def appendPrePair (s : State) (c : Ptr) (conn : TcpConn) (sock : Socket) (data : Bytes) : State :=
  match s.conns.dataPipePeerRef sock with
  | some peer =>
      let s :=
        if conn.prePairBuf.isEmpty then s
        else (s.emit (.pipe c peer conn.prePairBuf)).updateConn c fun conn =>
          { conn with prePairBuf := [] }
      s.emit (.pipe c peer data)
  | none =>
      if prePairBufCap < conn.prePairBuf.length + data.length then
        (s.updateConn c fun conn => { conn with prePairBuf := [] }).enqueueCloseConn sock
      else s.updateConn c fun conn => { conn with prePairBuf := conn.prePairBuf ++ data }

/-- The head of `handleTcpConnData`: raw data, or bytes for the parser of the
connection that `tcpConnRef` returns. A shard takes the next chunk of a socket when
it is done with the last one. -/
def receive (s : State) (sock : Socket) (data : Bytes) : State :=
  if sock ∈ s.reading then s
  else
    match s.conns.live sock with
    | none => s
    | some (c, conn) =>
        if conn.isData then appendPrePair s c conn sock data
        else
          { s.updateConn c (fun conn => { conn with stunConn := conn.stunConn.feed data }) with
            reading := s.reading.insert sock c }

/-- The connection whose chunk the shard of a socket is parsing. It may have been
closed since. -/
def State.held (s : State) (sock : Socket) : Option (Ptr × TcpConn) :=
  s.reading[sock]?.bind fun c => s.conns.heap[c]?.map fun conn => (c, conn)

/-- `connUnref` at the end of `handleTcpConnData`. -/
def State.release (s : State) (sock : Socket) : State :=
  { s with reading := s.reading.erase sock }

/-- One pass of the parse loop of `handleTcpConnData`. Neither the loop nor
`handleTcpFrame` asks whether the connection is still open. -/
def parsePass (cfg : Config) (env : Env) (s : State) (sock : Socket) : State :=
  match s.held sock with
  | none => s
  | some (c, conn) =>
      let advance := s.updateConn c fun conn => { conn with stunConn := conn.stunConn.readFrame.2 }
      match conn.stunConn.readFrame.1 with
      | .none => s.release sock
      | .invalid => (advance.enqueueCloseConn sock).release sock
      | .frame data => handleTcpFrame cfg env advance c conn sock data

/-- The pipe of a closing connection goes in both directions, and so does every
peer pointer to it. -/
def Conns.unpublish (k : Conns) (sock : Socket) (c : Ptr) : Conns :=
  { k with
    dataPipe := match k.dataPipe[sock]? with
      | some other => (k.dataPipe.erase other).erase sock
      | none => k.dataPipe
    heap := k.heap.modify c fun conn => { conn with dying := true }
    dataPipePeer := k.dataPipePeer.filter fun s p => s ≠ sock && p ≠ c }

/-- The rest of `closeTcpConn`: off the map, and onto the list of connections to
free. -/
def Conns.unlink (k : Conns) (sock : Socket) (c : Ptr) : Conns :=
  { k with
    tcpBySock := k.tcpBySock.erase sock
    heap := k.heap.modify c fun conn => { conn with sock := invalidSocket }
    pendingFree := k.pendingFree ++ [c] }

def closeTcpConn (cfg : Config) (s : State) (sock : Socket) : State :=
  match s.conns.live sock with
  | none => s
  | some (c, conn) =>
      if conn.sock = invalidSocket then s
      else
        let tables := match s.tables.allocByControlSock[conn.sock]? with
          | some p => Tables.destroyAllocation cfg p s.tables
          | none => s.tables
        { s with tables := tables, conns := (s.conns.unpublish conn.sock c).unlink conn.sock c }

/-- Some shard holds the connection (`ioUsers`). -/
def State.inUse (s : State) (c : Ptr) : Bool := s.reading.toList.any fun x => x.2 = c

/-- `reapPendingConns` frees the closed connections that are not in use. -/
def reapPendingConns (s : State) : State :=
  { s with conns := { s.conns with
    heap := (s.conns.pendingFree.filter fun c => !s.inUse c).foldl (fun m c => m.erase c)
      s.conns.heap
    pendingFree := s.conns.pendingFree.filter s.inUse } }

def expireStale (cfg : Config) (env : Env) (s : State) : State :=
  let s := if s.nonceExpiryMs ≤ env.now then refreshNonce cfg env s else s
  { s with tables := Tables.expireAllocations cfg env.now s.tables }

/-! ## Events -/

/-- The backends report an accepted socket only if it is valid, and addresses
with the type of the socket they came on. -/
inductive Event
  | udpData (data : Bytes) (ip : Ip) (port : UInt16)
  | relayData (sock : Socket) (data : Bytes) (ip : Ip) (port : UInt16)
  | tcpAccepted (sock : Socket) (ip : Ip) (port : UInt16) (valid : sock ≠ invalidSocket)
  | tcpReceive (sock : Socket) (data : Bytes)
  | tcpParse (sock : Socket)
  | tcpConnClosed (sock : Socket)
  | tick
  | reap

def step (cfg : Config) (s : State) (e : Event × Env) : State :=
  match e.1 with
  | .udpData data ip port => ioOnUdpData cfg e.2 s data ⟨ip, port, .dgram⟩
  | .relayData sock data ip port => ioOnRelayData e.2 s sock data ⟨ip, port, .dgram⟩
  | .tcpAccepted sock ip port _ => registerTcpConn s sock ⟨ip, port, .stream⟩
  | .tcpReceive sock data => receive s sock data
  | .tcpParse sock => parsePass cfg e.2 s sock
  | .tcpConnClosed sock => closeTcpConn cfg s sock
  | .tick => expireStale cfg e.2 s
  | .reap => reapPendingConns s

end Stice.Server
