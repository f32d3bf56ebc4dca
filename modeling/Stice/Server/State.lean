import Stice.Stun.Attributes
import Stice.Turn.StunConn

/-! The state of the TURN server (`stserver/turn_server.hpp`). Objects the source
owns through `unique_ptr` live in a heap and are named by pointers, so a pointer
that outlives its object is a pointer without a heap entry. What the server hands
to its sockets is recorded in `out`. -/
namespace Stice.Server
open Std Net Stun Turn

/-- A descriptor number; -1 is `STICE_INVALID_SOCKET`. -/
abbrev Socket := Int

def invalidSocket : Socket := -1

abbrev Ptr := Nat

def permissionLifetimeMs : Int := 5 * 60 * 1000
def channelBindLifetimeMs : Int := 10 * 60 * 1000
def pendingConnectLifetimeMs : Int := 30 * 1000
def prePairBufCap : Nat := 256 * 1024

/-- `Config` after `init`. `addrText` is the numeric text of an address, which
`getnameinfo` renders; `Config::load` rejects relay ports below 1024. -/
structure Config where
  realm : Bytes
  users : TreeMap Bytes Bytes
  maxAllocations : Nat
  allocationLifetime : UInt32
  nonceLifetimeMs : Int
  relayPortBegin : UInt16
  relayPortEnd : UInt16
  relayIp : Ip
  localRelayShortcut : Bool
  addrText : Ip → UInt16 → Bytes
  ports_pos : 1024 ≤ relayPortBegin.toNat ∧ 1024 ≤ relayPortEnd.toNat

structure Permission where
  peer : AddrRecord
  expiryMs : Int

structure Channel where
  number : UInt16
  peer : AddrRecord
  expiryMs : Int

structure PendingConnect where
  connId : UInt32
  peerRelayAddr : AddrRecord
  firstDataSock : Socket
  connectTid : TransactionID
  connectResponded : Bool
  expiryMs : Int

structure Allocation where
  transport : SockType
  clientAddr : AddrRecord
  controlSock : Socket
  relaySock : Socket
  relayedAddr : AddrRecord
  relayPort : UInt16
  username : Bytes
  permissions : List Permission
  channels : List Channel
  expiryMs : Int
  pendingConnects : List PendingConnect

structure TcpConn where
  sock : Socket
  peerAddr : AddrRecord
  stunConn : StunConn
  isData : Bool
  connId : UInt32
  prePairBuf : Bytes
  dying : Bool

/-- The allocation tables. `heap` holds the objects `allocations` owns. -/
structure Tables where
  heap : TreeMap Ptr Allocation
  allocations : TreeMap Bytes Ptr
  allocByRelaySock : TreeMap Socket Ptr
  allocByRelayAddr : TreeMap Bytes Ptr
  allocByClientAddr : TreeMap Bytes Ptr
  allocByControlSock : TreeMap Socket Ptr
  pendingByConnId : TreeMap UInt32 Ptr
  usedRelayPorts : TreeMap UInt16 (Option Ptr)
  nextPtr : Ptr

/-- The TCP connections. `heap` holds the objects `tcpConns_` and
`pendingFreeConns_` own. -/
structure Conns where
  heap : TreeMap Ptr TcpConn
  tcpBySock : TreeMap Socket Ptr
  dataPipe : TreeMap Socket Socket
  dataPipePeer : TreeMap Socket Ptr
  pendingFree : List Ptr
  nextPtr : Ptr

/-- Bytes handed to a socket: a datagram of the UDP listener, a frame queued on a
TCP connection, bytes of one data connection queued on its peer, or a datagram of
an allocation's relay socket. -/
inductive Output
  | udp (dst : AddrRecord) (data : Bytes)
  | tcp (conn : Ptr) (data : Bytes)
  | pipe (src dst : Ptr) (data : Bytes)
  | relay (alloc : Ptr) (peer : AddrRecord) (data : Bytes)
  deriving DecidableEq

/-- `reading` maps a socket to the connection its shard holds while it parses a
chunk that came on the socket. -/
structure State where
  tables : Tables
  conns : Conns
  nonce : Bytes
  nonceExpiryMs : Int
  nextConnId : UInt32
  out : List Output
  closeQueue : List Socket
  reading : TreeMap Socket Ptr

/-- What one handler draws from outside: the clock, random numbers, a fresh
nonce and transaction id, and the outcome of each attempt to bind a relay socket
to a port, as the descriptor and the port `getsockname` reports. A socket bound
to a fixed port is bound to that port. -/
structure Env where
  now : Int
  nonce : Bytes
  tid : TransactionID
  random : Nat → Nat → UInt32
  relaySocket : Nat → UInt16 → Option (Socket × Option UInt16)
  bound_eq : ∀ i port sock bound, relaySocket i port = some (sock, some bound) → bound = port

def Tables.empty : Tables := ⟨∅, ∅, ∅, ∅, ∅, ∅, ∅, ∅, 0⟩

def Conns.empty : Conns := ⟨∅, ∅, ∅, ∅, [], 0⟩

/-- The server after `init`, with its first nonce. -/
def State.start (cfg : Config) (env : Env) : State :=
  ⟨.empty, .empty, env.nonce, env.now + cfg.nonceLifetimeMs, 1, [], [], ∅⟩

def State.emit (s : State) (o : Output) : State := { s with out := s.out ++ [o] }

def State.enqueueCloseConn (s : State) (sock : Socket) : State :=
  { s with closeQueue := s.closeQueue ++ [sock] }

def State.updateAlloc (s : State) (p : Ptr) (f : Allocation → Allocation) : State :=
  { s with tables := { s.tables with heap := s.tables.heap.modify p f } }

def State.updateConn (s : State) (p : Ptr) (f : TcpConn → TcpConn) : State :=
  { s with conns := { s.conns with heap := s.conns.heap.modify p f } }

end Stice.Server
