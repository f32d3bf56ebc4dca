import Stice.Lib.Deque
import Stice.Stun.Attributes

/-! Candidates, their descriptions and the priority of a pair (`ice/candidate.hpp`,
`ice/sdp.cpp`, `ice/candidatepair.hpp`). A description keeps its candidates in a queue
whose elements do not move when others are appended, because pairs hold pointers to them. -/
namespace Stice.Ice
open Lib Net Stun

inductive CandidateType
  | unknown | host | serverReflexive | peerReflexive | relayed
  deriving DecidableEq, Repr

inductive CandidateTransport
  | udp | tcpActive | tcpPassive | tcpSimultaneousOpen
  deriving DecidableEq, Repr

def CandidateTransport.isTcp (t : CandidateTransport) : Bool := t ≠ .udp

def typeString : CandidateType → Bytes
  | .host => ascii "host"
  | .serverReflexive => ascii "srflx"
  | .peerReflexive => ascii "prflx"
  | .relayed => ascii "relay"
  | .unknown => ascii "unknown"

def transportString : CandidateTransport → Bytes
  | .udp => ascii "UDP"
  | _ => ascii "TCP"

/-- A record without an address is one that was not resolved. -/
structure Candidate where
  type : CandidateType := .unknown
  transport : CandidateTransport := .udp
  priority : UInt32 := 0
  component : Int := 1
  foundation : Bytes := []
  hostname : Bytes := []
  service : Bytes := []
  resolved : Option AddrRecord := none
  related : Option AddrRecord := none
  deriving DecidableEq, Repr

namespace Candidate

def family (c : Candidate) : Family := (c.resolved.map fun a => a.ip.family).getD .unspec

/-- `resolved.isEqual(src, true)`. -/
def isAt (c : Candidate) (src : AddrRecord) : Bool := c.resolved.any (·.isEqual src true)

def isLinkLocal (c : Candidate) : Bool := c.resolved.any fun a => addrIsLinkLocal a.ip

def prefHost : UInt32 := 126
def prefPeerReflexive : UInt32 := 110
def prefServerReflexive : UInt32 := 100
def prefRelayed : UInt32 := 0

/-- The direction preference of RFC 6544 §4.2. -/
def directionPref (type : CandidateType) (transport : CandidateTransport) : UInt32 :=
  match type, transport with
  | .host, .tcpActive | .relayed, .tcpActive => 6
  | .host, .tcpPassive | .relayed, .tcpPassive => 4
  | .host, .tcpSimultaneousOpen | .relayed, .tcpSimultaneousOpen => 2
  | .serverReflexive, .tcpSimultaneousOpen | .peerReflexive, .tcpSimultaneousOpen => 6
  | .serverReflexive, .tcpActive | .peerReflexive, .tcpActive => 4
  | .serverReflexive, .tcpPassive | .peerReflexive, .tcpPassive => 2
  | _, _ => 0

/-- `offset` is `currentTcpPriorityOffset()`. -/
def computePriority (offset : UInt32) (type : CandidateType) (family : Family)
    (component index : Int) (transport : CandidateTransport) : UInt32 :=
  let typePref := match type with
    | .host => prefHost
    | .peerReflexive => prefPeerReflexive
    | .serverReflexive => prefServerReflexive
    | .relayed => prefRelayed
    | .unknown => 0
  let typePref := if transport = .udp then typePref
    else if offset ≤ typePref then typePref - offset else 0
  let localPref : UInt32 := if transport = .udp then 65535
    else (directionPref type transport <<< 13) + if family = .unspec then 0 else 8191
  let clampedIdx : UInt32 := if index > 4095 then 4095
    else if index < 0 then 0 else UInt32.ofNat index.toNat
  let localPref := if clampedIdx ≤ localPref then localPref - clampedIdx else localPref
  let comp := if component < 1 then 1 else if component > 256 then 256 else component
  ((typePref <<< 24) ||| (localPref <<< 8)) + UInt32.ofNat (256 - comp).toNat

def computeFoundation (type : CandidateType) (addr : Bytes) (transport : CandidateTransport) :
    Bytes :=
  ascii (toString (Crypto.crc32 (typeString type ++ addr ++ transportString transport)).toNat)

end Candidate

/-! ## Descriptions -/

def maxCandidates : Nat := 30
def maxUfragLen : Nat := 256

structure Description where
  iceUfrag : Bytes
  icePwd : Bytes
  iceLite : Bool
  candidates : Deque Candidate
  finished : Bool
  deriving DecidableEq, Repr

namespace Description

def empty : Description := ⟨[], [], false, ⟨0, []⟩, false⟩

/-- The order `sortCandidates` sorts by. -/
abbrev NotBelow (a b : Candidate) : Prop := b.priority ≤ a.priority

/-- The sort is stable and leaves the elements' addresses to other candidates. -/
def sortCandidates (d : Description) : Description :=
  { d with candidates := { d.candidates with elems := d.candidates.elems.insertionSort NotBelow } }

section
variable (parseCandidate : Bytes → Option Candidate)

def addCandidateFromSdp (d : Description) (line : Bytes) : Option Description :=
  if maxCandidates ≤ d.candidates.elems.length then none
  else (parseCandidate line).map fun c => { d with candidates := d.candidates.pushBack c }

def readLine (d : Description) (line : Bytes) : Description :=
  let line := if line.getLast? = some 13 then line.dropLast else line
  if (ascii "a=ice-ufrag:").isPrefixOf line then { d with iceUfrag := line.drop 12 }
  else if (ascii "a=ice-pwd:").isPrefixOf line then { d with icePwd := line.drop 10 }
  else if line = ascii "a=ice-lite" then { d with iceLite := true }
  else if line = ascii "a=end-of-candidates" then { d with finished := true }
  else if (ascii "a=candidate:").isPrefixOf line then
    (d.addCandidateFromSdp parseCandidate line).getD d
  else d

/-- `std::getline` until the text ends. -/
def lines : Bytes → List Bytes
  | [] => [[]]
  | b :: text =>
      if b = 10 then [] :: lines text
      else
        match lines text with
        | [] => [[b]]
        | line :: rest => (b :: line) :: rest

/-- `parse` of a fresh description; `none` is its `false`. -/
def parse (sdp : Bytes) : Option Description :=
  let d := ((lines sdp).foldl (readLine parseCandidate) empty).sortCandidates
  if d.iceUfrag = [] ∨ d.icePwd = [] then none else some d

variable {parseCandidate} {d d' : Description} {line : Bytes}

theorem addCandidateFromSdp_some (h : d.addCandidateFromSdp parseCandidate line = some d') :
    ∃ c, parseCandidate line = some c ∧ d' = { d with candidates := d.candidates.pushBack c } := by
  unfold addCandidateFromSdp at h
  split at h
  · cases h
  · obtain ⟨c, hc, rfl⟩ := Option.map_eq_some_iff.mp h
    exact ⟨c, hc, rfl⟩

end

end Description

/-! ## Pairs -/

inductive PairState
  | frozen | pending | succeeded | failed
  deriving DecidableEq, Repr

/-- What the checks of a pair have found. -/
structure PairCheck where
  state : PairState := .frozen
  nominated : Bool := false
  nominationRequested : Bool := false
  nominationValue : UInt32 := 0
  consentExpiry : Int := 0
  deriving DecidableEq, Repr

/-- What a pair is created with. `origin` is a history variable: the two candidates at that
time. No function reads it. -/
structure PairEnds where
  localPtr : Nat
  remotePtr : Nat
  priority : UInt64
  origin : Candidate × Candidate
  deriving DecidableEq, Repr

structure CandidatePair extends PairEnds, PairCheck
  deriving DecidableEq, Repr

namespace CandidatePair

def computePriority (localPriority remotePriority : UInt32) (localIsControlling : Bool) :
    UInt64 :=
  let g := (if localIsControlling then localPriority else remotePriority).toUInt64
  let d := (if localIsControlling then remotePriority else localPriority).toUInt64
  let min := if g < d then g else d
  let max := if g > d then g else d
  (((1 : UInt64) <<< 32) - 1) * min + (max <<< (1 : UInt64)) + (if g > d then 1 else 0)

/-- The pair joins the candidates at two addresses. -/
def joins (p : CandidatePair) (l r : Candidate × Nat) : Bool :=
  p.localPtr = l.2 && p.remotePtr = r.2

end CandidatePair

end Stice.Ice
