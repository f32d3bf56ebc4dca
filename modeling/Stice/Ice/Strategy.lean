import Mathlib

/-! The pairing strategy (`ice/pairing_strategy.hpp`): which pairs are checked when, when a pair
is nominated, when a TCP relay is allocated and which pair replaces a failed one. Durations are
in milliseconds. `enable_trickle`, which no function reads, is left out. -/
namespace Stice.Ice

inductive IceCheckScheduleMode
  | rfc8445Strict | serial | limitedConcurrent | phasedUdpFirst
  deriving DecidableEq, Repr

inductive IceNominationMode
  | aggressive | regular | regularStableCheck
  deriving DecidableEq, Repr

inductive TcpRelayFallbackMode
  | disable | onAllUdpFail | alwaysEnable
  deriving DecidableEq, Repr

inductive LinkReselectPolicy
  | rfc8445 | stickySelected
  deriving DecidableEq, Repr

/-- The fields from `udpPhaseStart` on belong to the agent. -/
structure IcePairingConfig where
  scheduleMode : IceCheckScheduleMode := .phasedUdpFirst
  maxConcurrentCheck : Nat := 2
  udpPhaseTimeout : Int := 3000
  nominationMode : IceNominationMode := .regularStableCheck
  tcpNominationPrecheck : Int := 500
  tcpRelayFallback : TcpRelayFallbackMode := .onAllUdpFail
  reselectPolicy : LinkReselectPolicy := .stickySelected
  rtoInitial : Int := 600
  maxCheckRetransmit : Int := 4
  keepaliveUdp : Int := 10000
  keepaliveTcpRelay : Int := 5000
  preAllocateTcpRelay : Bool := false
  earlyPhaseMaxConcurrent : Nat := 3
  earlyPhaseDuration : Int := 1200
  udpPhaseStart : Option Int := none
  tcpPhaseEntered : Bool := false
  tcpRelayAllocationCreated : Bool := false
  checkingStart : Option Int := none
  earlyPhaseActive : Bool := false
  deriving DecidableEq, Repr

inductive IcePairingProfile
  | rfc8445Compat | embeddedStable | debugFast | minimalResource
  deriving DecidableEq, Repr

def makeIcePairingConfig : IcePairingProfile → IcePairingConfig
  | .rfc8445Compat =>
      { scheduleMode := .rfc8445Strict, maxConcurrentCheck := 0, udpPhaseTimeout := 0
        nominationMode := .aggressive, tcpNominationPrecheck := 0
        tcpRelayFallback := .alwaysEnable, reselectPolicy := .rfc8445, rtoInitial := 500
        maxCheckRetransmit := 6, keepaliveUdp := 10000, keepaliveTcpRelay := 10000
        preAllocateTcpRelay := true, earlyPhaseMaxConcurrent := 0, earlyPhaseDuration := 0 }
  | .embeddedStable =>
      { scheduleMode := .phasedUdpFirst, maxConcurrentCheck := 2, udpPhaseTimeout := 3000
        nominationMode := .regularStableCheck, tcpNominationPrecheck := 500
        tcpRelayFallback := .onAllUdpFail, reselectPolicy := .stickySelected, rtoInitial := 500
        maxCheckRetransmit := 3, keepaliveUdp := 10000, keepaliveTcpRelay := 5000
        preAllocateTcpRelay := false, earlyPhaseMaxConcurrent := 3, earlyPhaseDuration := 1200 }
  | .debugFast =>
      { scheduleMode := .limitedConcurrent, maxConcurrentCheck := 4, udpPhaseTimeout := 0
        nominationMode := .aggressive, tcpNominationPrecheck := 0
        tcpRelayFallback := .alwaysEnable, reselectPolicy := .rfc8445, rtoInitial := 500
        maxCheckRetransmit := 3, keepaliveUdp := 8000, keepaliveTcpRelay := 4000
        preAllocateTcpRelay := true, earlyPhaseMaxConcurrent := 4, earlyPhaseDuration := 1500 }
  | .minimalResource =>
      { scheduleMode := .serial, maxConcurrentCheck := 1, udpPhaseTimeout := 5000
        nominationMode := .regular, tcpNominationPrecheck := 0
        tcpRelayFallback := .onAllUdpFail, reselectPolicy := .stickySelected, rtoInitial := 1000
        maxCheckRetransmit := 5, keepaliveUdp := 15000, keepaliveTcpRelay := 8000
        preAllocateTcpRelay := false, earlyPhaseMaxConcurrent := 0, earlyPhaseDuration := 0 }

namespace IcePairingConfig

/-- How many checks may be in progress at once. -/
def concurrency (c : IcePairingConfig) (unlimited : Nat) : Nat :=
  let cap := if 0 < c.maxConcurrentCheck then c.maxConcurrentCheck else unlimited
  if c.earlyPhaseActive then max cap c.earlyPhaseMaxConcurrent else cap

/-- The early phase ends after its duration. -/
def refreshEarlyPhase (c : IcePairingConfig) (now : Int) : IcePairingConfig :=
  if c.earlyPhaseActive && c.checkingStart.all (c.earlyPhaseDuration ≤ now - ·) then
    { c with earlyPhaseActive := false }
  else c

/-- What a new configuration starts from. -/
def restarted (c : IcePairingConfig) : IcePairingConfig :=
  { c with
    tcpPhaseEntered := false, tcpRelayAllocationCreated := false, udpPhaseStart := none
    checkingStart := none, earlyPhaseActive := false }

end IcePairingConfig

end Stice.Ice
