import Stice.Ice.Run
import Stice.Turn.Lifecycle

/-! The TURN clients of an agent. An entry of type Relay owns a client, and what comes by UDP
from the address of its server is handed to it. The loop takes the first entry with that
address and stops, while a response is for the client that has its transaction id pending. -/
namespace Stice.Ice
open Lib Net Stun
open Turn (Client ClientEnv isChannelData)

/-- An agent with the `turn` members of its entries, in their order. -/
structure TurnAgent where
  agent : Agent
  turn : List (Option Client)

namespace TurnAgent
variable (s : TurnAgent)

def client (j : Nat) : Option Client := s.turn[j]?.join

/-- A relay entry whose server has this address. -/
def isRelayAt (src : AddrRecord) (j : Nat) : Bool :=
  (s.agent.entries[j]?.any fun e => e.type = .relay && e.record.any (·.isEqual src true)) &&
    (s.client j).isSome

def relayAt (src : AddrRecord) : Option Nat :=
  (List.range s.agent.entries.length).find? (s.isRelayAt src)

/-- The entry whose client a packet is handed to. -/
def handler (data : Bytes) (src : AddrRecord) : Option Nat :=
  if data = [] then none
  else if isMessage data then
    (decode data).bind fun m => if m.method = .binding then none else s.relayAt src
  else if isChannelData data then s.relayAt src
  else none

def handleInboundUdp (env : AgentEnv) (turnEnv : ClientEnv) (data : Bytes) (src : AddrRecord)
    (transport : CandidateTransport) : TurnAgent where
  agent := s.agent.handleInboundUdp env data src transport
  turn :=
    match s.handler data src with
    | some j => s.turn.modify j (·.map (·.handleInbound turnEnv (some data)))
    | none => s.turn

/-- The client of the entry waits for this response. -/
def awaits (m : Message) (j : Nat) : Bool :=
  (s.client j).any fun c => c.pending[m.transactionID.1]?.isSome

end TurnAgent

/-- A response of a TURN server. -/
structure TurnResponse (data : Bytes) (m : Message) : Prop where
  message : isMessage data = true
  decoded : decode data = some m
  method : m.method ≠ .binding
  response : m.cls = .successResponse ∨ m.cls = .errorResponse

section
variable {s : TurnAgent} {data : Bytes} {m : Message} {src : AddrRecord} {j : Nat}

theorem TurnAgent.relayAt_eq_some :
    s.relayAt src = some j ↔ s.isRelayAt src j = true ∧ ∀ k < j, s.isRelayAt src k = false := by
  unfold relayAt
  rw [List.find?_range_eq_some]
  constructor
  · rintro ⟨hj, -, hbefore⟩
    exact ⟨hj, fun k hk => by simpa using hbefore k hk⟩
  · rintro ⟨hj, hbefore⟩
    refine ⟨hj, ?_, fun k hk => by simp [hbefore k hk]⟩
    rw [List.mem_range]
    by_contra hlen
    have hnone : s.agent.entries[j]? = none := List.getElem?_eq_none (Nat.not_lt.mp hlen)
    simp [isRelayAt, hnone] at hj

theorem TurnAgent.handler_response (h : TurnResponse data m) :
    s.handler data src = s.relayAt src := by
  have hne : data ≠ [] := by
    rintro rfl
    exact absurd h.message (by decide)
  simp [handler, hne, h.message, h.decoded, h.method]

theorem not_channelData_of_bits (b : UInt8) (h : b &&& 0xC0 = 0) : ¬ 0x40 ≤ b ∨ ¬ b ≤ 0x7F := by
  obtain ⟨b⟩ := b
  revert b
  decide +kernel

/-- The first byte tells the two apart. -/
theorem isChannelData_of_isMessage (h : isMessage data = true) : isChannelData data = false := by
  simp only [isMessage, Bool.and_eq_true, decide_eq_true_eq] at h
  obtain hb | hb := not_channelData_of_bits _ h.1.1.1.2
  · simp [isChannelData, hb]
  · simp [isChannelData, hb]

/-- A client ignores a response it does not wait for. -/
theorem handleInbound_ignored {c : Client} (turnEnv : ClientEnv) (h : TurnResponse data m)
    (hnone : c.pending[m.transactionID.1]? = none) :
    c.handleInbound turnEnv (some data) = c := by
  have hdata := isChannelData_of_isMessage h.message
  unfold Client.handleInbound
  simp only [hdata, Bool.false_eq_true, if_false, h.decoded]
  obtain hcls | hcls := h.response <;> simp [hcls, Client.handleStunResponse, hnone]

/-- A response for one client of a server is handed to it exactly if no other relay entry
with the address of the server comes before; otherwise it is lost. -/
theorem turn_response_reaches_client (s : TurnAgent) (env : AgentEnv) (turnEnv : ClientEnv)
    (data : Bytes) (m : Message) (src : AddrRecord) (transport : CandidateTransport) (j : Nat)
    (h : TurnResponse data m) (hrelay : s.isRelayAt src j = true)
    (honly : ∀ k, s.isRelayAt src k = true → (s.awaits m k = true ↔ k = j)) :
    ((s.handler data src = some j ∧ (s.handleInboundUdp env turnEnv data src transport).turn =
        s.turn.modify j (·.map (·.handleInbound turnEnv (some data)))) ↔
      ∀ k < j, s.isRelayAt src k = false) ∧
    (¬ (∀ k < j, s.isRelayAt src k = false) →
      (s.handleInboundUdp env turnEnv data src transport).turn = s.turn) := by
  simp only [TurnAgent.handleInboundUdp, TurnAgent.handler_response h]
  refine ⟨⟨fun hj => (TurnAgent.relayAt_eq_some.mp hj.1).2, fun hfirst => ?_⟩, fun hnot => ?_⟩
  · have hj := TurnAgent.relayAt_eq_some.mpr ⟨hrelay, hfirst⟩
    exact ⟨hj, by rw [hj]⟩
  · split
    · rename_i k hk
      obtain ⟨hrelay', hbefore⟩ := TurnAgent.relayAt_eq_some.mp hk
      have hne : k ≠ j := by
        rintro rfl
        exact hnot hbefore
      refine List.ext_getElem? fun n => ?_
      rw [List.getElem?_modify]
      split
      · rename_i hkn
        subst hkn
        cases hc : s.turn[k]? with
        | none => rfl
        | some o =>
          cases o with
          | none => rfl
          | some c =>
            have hclient : s.client k = some c := by simp [TurnAgent.client, hc]
            have hnone : c.pending[m.transactionID.1]? = none := by
              rw [← Option.not_isSome_iff_eq_none]
              exact fun hsome => hne ((honly k hrelay').mp (by
                rw [TurnAgent.awaits, hclient, Option.any_some]
                exact hsome))
            simp [handleInbound_ignored turnEnv h hnone]
      · simp
    · rfl

end

def turnServer : AddrRecord := ⟨.v4 10 0 0 2, 3478, .dgram⟩

/-- An Allocate request is under way, with this transaction id. -/
def askingClient (n : Nat) : Client :=
  Client.smallClient.allocate { Client.clientEnv 0 with tid := fun _ => Client.numberedTid n }

/-- Two relay entries at one server, whose requests have these ids. -/
def twoRelays (n n' : Nat) : TurnAgent where
  agent :=
    let e : StunEntry := { type := .relay, state := .idle, record := some turnServer }
    { Agent.fresh {} [] [] 0 with entries := [e, e] }
  turn := [some (askingClient n), some (askingClient n')]

/-- The server refuses the request of id 1. -/
def refusal : Bytes :=
  Client.reply .allocate .errorResponse (Client.numberedTid 1) (Client.errorAttr 403)

theorem turn_response_reaches_first :
    ∃ m, decode refusal = some m ∧
      ((twoRelays 1 2).handler refusal turnServer = some 0 ∧
        ((twoRelays 1 2).handleInboundUdp (Agent.calmEnv 0) (Client.clientEnv 0) refusal turnServer
          .udp).turn = (twoRelays 1 2).turn.modify 0
            (·.map (·.handleInbound (Client.clientEnv 0) (some refusal)))) := by
  obtain ⟨m, hm⟩ : ∃ m, decode refusal = some m :=
    Option.isSome_iff_exists.mp (by decide +kernel)
  have hfacts : (decode refusal).map (fun m => (m.method, m.cls, m.transactionID)) =
      some (.allocate, .errorResponse, Client.numberedTid 1) := by
    decide +kernel
  rw [hm, Option.map_some, Option.some.injEq, Prod.mk.injEq, Prod.mk.injEq] at hfacts
  obtain ⟨hmethod, hcls, htid⟩ := hfacts
  refine ⟨m, hm, (turn_response_reaches_client (twoRelays 1 2) (Agent.calmEnv 0)
    (Client.clientEnv 0)
    refusal m turnServer .udp 0 ⟨by decide +kernel, hm, ?_, .inr hcls⟩ (by decide +kernel)
    fun k hk => ?_).1.mpr fun k hk => nomatch hk⟩
  · rw [hmethod]
    decide
  · unfold TurnAgent.awaits
    rw [htid]
    match k with
    | 0 => decide +kernel
    | 1 => decide +kernel
    | k + 2 => cases hk

/-- The response to the second client goes to the first, which ignores it. -/
theorem turn_response_lost :
    ((decode refusal).map fun m => ((twoRelays 2 1).awaits m 0, (twoRelays 2 1).awaits m 1)) =
      some (false, true) ∧
    (twoRelays 2 1).isRelayAt turnServer 1 = true ∧
    (twoRelays 2 1).handler refusal turnServer = some 0 := by
  decide +kernel

end Stice.Ice
