import Stice.Ice.Binding
import Stice.Lib.Reach

/-! Runs of an agent: the calls of the application, the packets, what the TURN clients and the
connections report, and the timer passes, in any order. -/
namespace Stice.Ice
open Lib Net Stun
open Tcp (TcpState)

inductive AgentEvent
  | gatherCandidates (hosts : List Candidate)
  | gatherCandidatesWorker
  /-- The worker did not get the lock. -/
  | gatherWorkerLost
  | onAllocated (entry : Nat) (relayed : AddrRecord)
  | onFailed (entry : Nat)
  | onTurnTcpConnected (entry : Nat)
  | onConnectFailed (peer : AddrRecord)
  | turnDataConnect (peer : AddrRecord)
  | turnDataBound
  | turnDataLost
  | setRemoteDescription (sdp : Bytes)
  | addRemoteCandidate (line : Bytes)
  | addStunServer (host : Bytes) (port : UInt16)
  | addTurnServer (srv : TurnServer)
  | setIceTcpMode (mode : IceTcpMode)
  | setLocalIceAttributes (ufrag pwd : Option Bytes)
  | setRemoteGatheringDone
  | setPairingConfig (cfg : IcePairingConfig)
  | udpPacket (data : Bytes) (src : AddrRecord)
  | tcpPacket (data : Bytes) (src : AddrRecord)
  | turnDataPacket (data : Bytes)
  | onTcpEvents (s : TcpState)
  | onBookkeeping
  | send (data : Bytes)

namespace Agent

def stunMessage (data : Bytes) : Option Message :=
  if isMessage data then decode data else none

def step (a : Agent) : AgentEvent × AgentEnv → Agent
  | (.gatherCandidates hosts, env) => a.gatherCandidates env hosts
  | (.gatherCandidatesWorker, env) => a.gatherCandidatesWorker env
  | (.gatherWorkerLost, _) => { a with gatherWorker := none }
  | (.onAllocated entry relayed, env) => a.onAllocated env entry relayed
  | (.onFailed entry, env) => a.relayFailed env entry
  | (.onTurnTcpConnected entry, env) => a.onTurnTcpConnected env entry
  | (.onConnectFailed peer, env) => a.onConnectFailed env peer
  | (.turnDataConnect peer, env) => a.beginTurnDataConnect env peer
  | (.turnDataBound, env) => a.onTurnDataBound env
  | (.turnDataLost, _) => { a with turnDataConn := none }
  | (.setRemoteDescription sdp, env) => a.setRemoteDescription env sdp
  | (.addRemoteCandidate line, env) => a.addRemoteCandidate env line
  | (.addStunServer host port, _) => a.addStunServer host port
  | (.addTurnServer srv, _) => a.addTurnServer srv
  | (.setIceTcpMode mode, _) => { a with iceTcpMode := mode }
  | (.setLocalIceAttributes ufrag pwd, _) => a.setLocalIceAttributes ufrag pwd
  | (.setRemoteGatheringDone, _) => { a with remoteDesc := { a.remoteDesc with finished := true } }
  | (.setPairingConfig cfg, _) => { a with pairing := cfg.restarted }
  | (.udpPacket data src, env) => a.handleInboundUdp env data src .udp
  | (.tcpPacket data src, env) => a.handleInboundTcpPacket env data src
  | (.turnDataPacket data, env) =>
      (a.turnDataConn.filter (·.bound)).elim a fun conn =>
        a.handleInboundUdp env data conn.peer .tcpPassive
  | (.onTcpEvents s, env) => a.onTcpEvents env s
  | (.onBookkeeping, env) => a.onBookkeeping env
  | (.send data, env) => a.send env data

/-- The STUN message of an event, with its source and the way it came. -/
def inbound (a : Agent) : AgentEvent → Option (Message × AddrRecord × CandidateTransport)
  | .udpPacket data src => (stunMessage data).map (·, src, .udp)
  | .tcpPacket data src => (stunMessage data).map (·, src, .tcpActive)
  | .turnDataPacket data =>
      (a.turnDataConn.filter (·.bound)).bind fun conn =>
        (stunMessage data).map (·, conn.peer, .tcpPassive)
  | _ => none

/-- An agent after `init`. -/
def fresh (config : AgentConfig) (ufrag pwd : Bytes) (tiebreaker : UInt64) : Agent where
  config
  pairing := makeIcePairingConfig .rfc8445Compat
  state := .disconnected
  mode := .unknown
  tiebreaker
  iceTcpMode := .none
  localDesc := { Description.empty with iceUfrag := ufrag, icePwd := pwd }
  remoteDesc := .empty
  pairs := []
  orderedPairs := []
  selectedPair := none
  nominatedPair := none
  nominationValue := 0
  entries := []
  tcpTransport := none
  turnDataConn := none
  gatheringDone := false
  pendingServerReflexive := 0
  pendingRelayAllocations := 0
  gatherStartedAt := none
  gatherWorker := none
  deferredTcpTurnServers := []
  checkingStartTime := 0
  relayOnlyMode := false
  pacDeadline := none
  lastAppDataAt := none
  log := []
  tally := {}

def Fresh (a : Agent) : Prop :=
  ∃ config ufrag pwd tiebreaker, a = fresh config ufrag pwd tiebreaker

/-- The agents that runs reach whose steps all meet a condition. -/
abbrev Runs (ok : Agent → AgentEvent × AgentEnv → Prop) : Agent → Prop :=
  Reach Fresh (Guarded ok step)

theorem Runs.mono {ok ok' : Agent → AgentEvent × AgentEnv → Prop}
    (hmono : ∀ a e, ok a e → ok' a e) {a : Agent} (h : Runs ok a) : Runs ok' a := by
  induction h with
  | start hfresh => exact .start hfresh
  | next e _ hs ih => exact .next e ih ⟨hmono _ e hs.1, hs.2⟩

/-- The agent after some events, in any order and with any answers of its surroundings. -/
theorem Runs.of_events (config : AgentConfig) (ufrag pwd : Bytes) (tiebreaker : UInt64)
    (events : List (AgentEvent × AgentEnv)) :
    Runs (fun _ _ => True) (events.foldl step (fresh config ufrag pwd tiebreaker)) := by
  have hfresh : Runs (fun _ _ => True) (fresh config ufrag pwd tiebreaker) :=
    .start ⟨config, ufrag, pwd, tiebreaker, rfl⟩
  generalize fresh config ufrag pwd tiebreaker = a at hfresh
  induction events generalizing a with
  | nil => exact hfresh
  | cons e events ih => exact ih _ (.next e hfresh ⟨trivial, rfl⟩)

/-! ## Small runs -/

def udpAt (host : UInt8) (port : UInt16) : AddrRecord := ⟨.v4 10 0 0 host, port, .dgram⟩

def hostAt (addr : AddrRecord) : Candidate :=
  { type := .host, priority := 2130706431, resolved := some addr }

/-- Two candidates of the peer, the second of the lower priority. -/
def peerLine : Bytes := ascii "a=candidate:1 1 UDP 2130706431 10.0.0.2 2000 typ host"
def lowerLine : Bytes := ascii "a=candidate:2 1 UDP 1694498815 10.0.0.3 2000 typ host"

def parsePeer (line : Bytes) : Option Candidate :=
  if line = peerLine then some (hostAt (udpAt 2 2000))
  else if line = lowerLine then some { hostAt (udpAt 3 2000) with priority := 1694498815 }
  else none

/-- Surroundings in which every host name fails and everything else works. -/
def calmEnv (now : Int) : AgentEnv where
  now
  parseCandidate := parsePeer
  resolveServer _ _ _ := none
  beginConnect _ := none
  turnConnects _ := true
  nameInfo _ := ([], [])
  boundAddr := none
  tcpPriorityOffset := 27
  rfc6062 := false
  randomTid j := some ⟨List.replicate 11 0 ++ [UInt8.ofNat (j + 1)], by simp⟩
  randomU32 _ := 0
  transmits _ := true
  sends := true
  tcpTimedOut := false
  turnTimedOut _ := false
  turnTcp _ := true
  tickFails _ := false

def localUfrag : Bytes := ascii "llll"
def localPwd : Bytes := ascii "llllllllllllllllllllll"
def remoteUfrag : Bytes := ascii "rrrr"
def remotePwd : Bytes := ascii "rrrrrrrrrrrrrrrrrrrrrr"

/-- An agent to run. -/
def small (config : AgentConfig) : Agent := fresh config localUfrag localPwd 7

/-- A Binding request as the peer signs it. -/
def peerRequest (tid : TransactionID) (attributes : List Attribute) : Bytes :=
  let m : Message :=
    { method := .binding, cls := .request, transactionID := tid, raw := []
      attributes := ⟨.username, localUfrag ++ [58] ++ remoteUfrag⟩ :: attributes }
  (m.encode (some localPwd) none none).raw

/-- A description of the peer without candidates. -/
def peerSdp : Bytes := ascii "a=ice-ufrag:rrrr\na=ice-pwd:rrrrrrrrrrrrrrrrrrrrrr"

/-- The same with one candidate and with both. -/
def peerSdpWithCandidate : Bytes := peerSdp ++ 10 :: peerLine
def peerSdpWithCandidates : Bytes := peerSdpWithCandidate ++ 10 :: lowerLine

/-- A success response of the peer. -/
def peerResponse (password : Option Bytes) (tid : TransactionID) : Bytes :=
  let m : Message :=
    { method := .binding, cls := .successResponse, transactionID := tid, raw := []
      attributes := [] }
  (m.encode password none none).raw

/-- Surroundings that draw no id. -/
def quietEnv (now : Int) : AgentEnv := { calmEnv now with randomTid := fun _ => none }

/-- Surroundings that draw an id for the first entry. -/
def drawEnv (now : Int) (tid : TransactionID) : AgentEnv :=
  { calmEnv now with randomTid := fun j => if j = 0 then some tid else none }

def oneTid (b : UInt8) : TransactionID := ⟨List.replicate 11 0 ++ [b], rfl⟩

def quietGather : AgentEvent × AgentEnv :=
  (.gatherCandidates [hostAt (udpAt 1 1000)], quietEnv 1)

/-- The peer is described with one candidate. -/
def quietDescribe : AgentEvent × AgentEnv :=
  (.setRemoteDescription peerSdpWithCandidate, quietEnv 2)

/-- A timer pass that sends what is due, with an id for the first entry. -/
def drivePass (now : Int) (tid : TransactionID) : AgentEvent × AgentEnv :=
  (.onBookkeeping, drawEnv now tid)

/-- The peer answers a check. -/
def peerAnswers (now : Int) (tid : TransactionID) : AgentEvent × AgentEnv :=
  (.udpPacket (peerResponse (some remotePwd) tid) (udpAt 2 2000), quietEnv now)

/-- The peer refuses a check. -/
def peerRefuses (now : Int) (tid : TransactionID) : AgentEvent × AgentEnv :=
  let m : Message :=
    { method := .binding, cls := .errorResponse, transactionID := tid, raw := []
      attributes := [] }
  (.udpPacket ((addErrorCode m 400).encode none none none).raw (udpAt 2 2000), quietEnv now)

/-- An agent with one pair that is about to be checked. -/
def armed : Agent := ((small {}).step quietGather).step quietDescribe

end Agent

end Stice.Ice
