import Stice.Turn.BindingSteps

/-! Application data of an agent whose selected pair is routed through a TURN relay
(`Agent::send`, `Agent::sendViaSelectedPair` and the `sendRaw` that `createRelayEntry`
gives the TURN client). `send` writes a ChannelData frame to the transport itself where
the client has one ready; otherwise the client sends. -/
namespace Stice.Ice
open Net Stun Turn

def sticeErrFailed : Int := -2

/-- What the transport answers: `TcpTransport::send` or `sendControl`, `sendto`, and the
error number after a `sendto` that failed. -/
structure Outcome where
  accepted : Bool
  sent : Int
  errno : Int
  errno_pos : 0 < errno
  wouldBlock : Int
  wouldBlock_pos : 0 < wouldBlock
  noBufs : Int

/-- A STUN entry of a relay. -/
structure RelayEntry where
  turn : Client
  tcpTurn : Bool
  connected : Bool
  record : AddrRecord

/-- What leaves an entry: on the TCP connection, in front of the bulk data or behind it,
in a datagram, or into the queue of control frames. -/
inductive Write
  | tcp (control : Bool) (data : Bytes)
  | udp (data : Bytes) (dst : AddrRecord)
  | queued (data : Bytes) (dst : AddrRecord)

namespace RelayEntry

/-- `Agent::sendUdp` without a mux. -/
def sendUdp (net : Outcome) (data : Bytes) (dst : AddrRecord) (control : Bool) :
    Int × List Write :=
  if net.sent < 0 ∧ control ∧ (net.errno = net.wouldBlock ∨ net.errno = net.noBufs) then
    (data.length, [.udp data dst, .queued data dst])
  else (net.sent, [.udp data dst])

/-- The `sendRaw` of the client. -/
def sendRaw (e : RelayEntry) (net : Outcome) (data : Bytes) : Int × List Write :=
  let control := isMessage data
  if e.tcpTurn then
    if e.connected then
      (if net.accepted then data.length else -net.wouldBlock, [.tcp control data])
    else (-1, [])
  else
    let (ret, writes) := sendUdp net data e.record control
    (if ret < 0 then -net.errno else ret, writes)

/-- The write of `Agent::send`. -/
def writeFrame (e : RelayEntry) (net : Outcome) (frame : Bytes) (size : Nat) : Int × List Write :=
  if e.tcpTurn then
    if e.connected then (if net.accepted then size else -net.wouldBlock, [.tcp false frame])
    else (-net.wouldBlock, [])
  else (if net.sent < 0 then -net.errno else size, [.udp frame e.record])

/-- What an effect of the client writes. -/
def writes (e : RelayEntry) (net : Outcome) : Effect → List Write
  | .send m => (e.sendRaw net m.raw).2
  | .sendFrame frame => (e.sendRaw net frame).2
  | _ => []

def allocated (e : RelayEntry) : Bool := e.turn.state = .allocated

end RelayEntry

/-- The relay branch of `sendViaSelectedPair`. -/
def sendViaSelectedPair (env : ClientEnv) (net : Outcome) (entries : List RelayEntry)
    (remote : AddrRecord) (data : Bytes) : Int × List Write :=
  match entries.find? RelayEntry.allocated with
  | none => (sticeErrFailed, [])
  | some e =>
      let (r, c) := e.turn.sendData env remote data
      (if r < 0 then r else data.length, (c.out.drop e.turn.out.length).flatMap (e.writes net))

/-- `Agent::send` for a pair that is routed through a relay. -/
def send (env : ClientEnv) (net : Outcome) (entries : List RelayEntry) (remote : AddrRecord)
    (data : Bytes) : Int × List Write :=
  match entries.find? RelayEntry.allocated with
  | none => sendViaSelectedPair env net entries remote data
  | some e =>
      match e.turn.prepareChannelData remote data with
      | (1, some frame) => e.writeFrame net frame data.length
      | _ => sendViaSelectedPair env net entries remote data

theorem isMessage_wrapped {channel : UInt16} {data f : Bytes} (h : Wrapped channel data f) :
    isMessage f = false := by
  have hbyte : byteAt f 0 &&& 0xC0 ≠ 0 := by
    intro hzero
    have hzero : (byteAt f 0).toNat &&& ((2 ^ 2 - 1) * 2 ^ 6) = 0 := by
      simpa using congrArg UInt8.toNat hzero
    have hfirst := h.first_byte
    rw [and_mask] at hzero
    omega
  simp [isMessage, hbyte]

/-! ## The client -/

section
variable {c : Client} {peer : AddrRecord} {b : PeerBinding} {data f : Bytes}

theorem prepareChannelData_one (h : c.prepareChannelData peer data = (1, some f)) :
    c.state = .allocated ∧ ∃ b, c.bindings.find? (Client.samePeer peer) = some b ∧
      b.channelReady = true ∧ wrapChannelData b.channel data = some f := by
  unfold Client.prepareChannelData at h
  split at h
  · cases h
  · rename_i hstate
    refine ⟨Decidable.not_not.mp hstate, ?_⟩
    cases hb : c.bindings.find? (Client.samePeer peer) with
    | none =>
      rw [hb] at h
      cases h
    | some b =>
      rw [hb] at h
      refine ⟨b, rfl, ?_⟩
      cases hready : b.channelReady
      · simp [hready] at h
      · cases hwrap : wrapChannelData b.channel data <;> simp_all

theorem prepareChannelData_refused (hstate : c.state = .allocated)
    (h : (c.prepareChannelData peer data).1 = -1) :
    ∃ b, c.bindings.find? (Client.samePeer peer) = some b ∧
      b.channelReady = true ∧ wrapChannelData b.channel data = none := by
  unfold Client.prepareChannelData at h
  rw [if_neg (not_not.mpr hstate)] at h
  cases hb : c.bindings.find? (Client.samePeer peer) with
  | none =>
    rw [hb] at h
    cases h
  | some b =>
    rw [hb] at h
    refine ⟨b, rfl, ?_⟩
    cases hready : b.channelReady
    · simp [hready] at h
    · cases hwrap : wrapChannelData b.channel data <;> simp_all

/-- With a channel ready the permission is there, so the client takes the ChannelData
branch and changes no binding. -/
theorem sendData_ready {ok : Client → Client.Call → Prop} (h : Client.Runs ok c)
    (hsend : c.hasSend = true) (hstate : c.state = .allocated)
    (hb : c.bindings.find? (Client.samePeer peer) = some b) (hready : b.channelReady = true)
    (env : ClientEnv) : c.sendData env peer data =
      match wrapChannelData b.channel data with
      | none => (-1, c)
      | some frame => (env.sendRaw c.out.length, c.effect (.sendFrame frame)) := by
  have hmem := List.mem_of_find?_eq_some hb
  have hkey : b.peer.key = peer.key := Client.samePeer_iff.mp (List.find?_some hb)
  have hchannel : b.channel ≠ 0 := h.wired.channel b hmem (.inl hready)
  have hperm : c.hasPermission peer = true := by
    rw [← Client.hasPermission_congr c hkey]
    exact (h.chartered b hmem hchannel).1
  have hwith : c.withBinding peer = c :=
    if_pos (List.any_eq_true.mpr ⟨b, hmem, List.find?_some hb⟩)
  have hget : c.getBinding peer = b := Client.getBinding_found hb
  unfold Client.sendData
  dsimp only
  rw [hwith, hget, if_neg (by rw [hstate]; exact fun h => h rfl), if_neg (by simp [hperm]),
    if_pos hready]
  cases wrapChannelData b.channel data with
  | none => rfl
  | some frame => exact if_pos hsend

end

/-! ## The agent -/

/-- The direct write and the sink of the client do the same with a frame. They answer
the same, except that the sink says -1 where the connection is not up. -/
theorem writeFrame_eq (e : RelayEntry) (net : Outcome) {channel : UInt16} {data f : Bytes}
    (h : Wrapped channel data f) :
    (e.writeFrame net f data.length).2 = (e.sendRaw net f).2 ∧
      (e.writeFrame net f data.length).1 =
        if (e.sendRaw net f).1 < 0 then
          if e.tcpTurn ∧ !e.connected then -net.wouldBlock else (e.sendRaw net f).1
        else data.length := by
  have hblock := net.wouldBlock_pos
  have herr := net.errno_pos
  unfold RelayEntry.writeFrame RelayEntry.sendRaw RelayEntry.sendUdp
  simp only [isMessage_wrapped h]
  cases e.tcpTurn <;> cases e.connected <;> cases net.accepted <;> simp <;> grind

/-- A frame that the client has ready is what the client would send: writing it to the
transport of the entry changes nothing but the error of a connection that is not up. -/
theorem channelData_shortcut {c : Client} (h : Client.Runs (fun _ _ => True) c)
    (hsend : c.hasSend = true) (env : ClientEnv) (peer : AddrRecord) (data : Bytes) :
    (∀ f, c.prepareChannelData peer data = (1, some f) →
      c.sendData env peer data = (env.sendRaw c.out.length, c.effect (.sendFrame f))) ∧
    (c.state = .allocated → (c.prepareChannelData peer data).1 = -1 →
      c.sendData env peer data = (-1, c)) ∧
    ∀ (net : Outcome) (entries : List RelayEntry) (e : RelayEntry),
      entries.find? RelayEntry.allocated = some e → e.turn = c →
      (∀ f, c.prepareChannelData peer data = (1, some f) →
        env.sendRaw c.out.length = (e.sendRaw net f).1) →
      (send env net entries peer data).2 = (sendViaSelectedPair env net entries peer data).2 ∧
        (0 ≤ (send env net entries peer data).1 ↔
          0 ≤ (sendViaSelectedPair env net entries peer data).1) ∧
        (0 ≤ (send env net entries peer data).1 → (send env net entries peer data).1 =
          (sendViaSelectedPair env net entries peer data).1) := by
  have hframe : ∀ f, c.prepareChannelData peer data = (1, some f) →
      c.sendData env peer data = (env.sendRaw c.out.length, c.effect (.sendFrame f)) := by
    intro f hf
    obtain ⟨hstate, b, hb, hready, hwrap⟩ := prepareChannelData_one hf
    rw [sendData_ready h hsend hstate hb hready, hwrap]
  refine ⟨hframe, fun hstate hrefused => ?_, fun net entries e he hturn hsink => ?_⟩
  · obtain ⟨b, hb, hready, hwrap⟩ := prepareChannelData_refused hstate hrefused
    rw [sendData_ready h hsend hstate hb hready, hwrap]
  · subst hturn
    unfold send
    rw [he]
    dsimp only
    split
    · rename_i frame hprep
      obtain ⟨-, b, -, -, hwrap⟩ := prepareChannelData_one hprep
      obtain ⟨hwrites, hret⟩ := writeFrame_eq e net (wrapChannelData_wrapped hwrap)
      have hslow : sendViaSelectedPair env net entries peer data =
          (if (e.sendRaw net frame).1 < 0 then (e.sendRaw net frame).1 else data.length,
            (e.sendRaw net frame).2) := by
        simp only [sendViaSelectedPair, he, hframe frame hprep, hsink frame hprep, Client.effect,
          List.drop_left, List.flatMap_singleton, RelayEntry.writes]
      have hblock := net.wouldBlock_pos
      rw [hslow, hwrites, hret]
      refine ⟨rfl, ?_, ?_⟩ <;> dsimp only <;> split_ifs <;> omega
    · exact ⟨rfl, .rfl, fun _ => rfl⟩

/-- An allocation with a channel. -/
def channelOpen : List (ClientEnv × Client.Call) :=
  Client.allocation ++ [(Client.clientEnv 0, .sendData Client.peerA [1]),
    (Client.clientEnv 0, .handleInbound (some (Client.reply .createPermission .successResponse
      (Client.numberedTid 1) []))),
    (Client.clientEnv 0, .handleInbound (some (Client.reply .channelBind .successResponse
      (Client.numberedTid 3) [])))]

/-- The channel of a peer is ready, on a TCP connection that is up. -/
theorem channelData_shortcut_ready :
    let c := channelOpen.foldl Client.step Client.smallClient
    let net : Outcome := ⟨true, 0, 1, by decide, 11, by decide, 105⟩
    let env : ClientEnv := { Client.clientEnv 0 with sendRaw := fun _ => 8 }
    let e : RelayEntry := ⟨c, true, true, Client.peerA⟩
    c.prepareChannelData Client.peerA [7] = (1, some [64, 0, 0, 1, 7, 0, 0, 0]) ∧
      c.sendData env Client.peerA [7] =
        (env.sendRaw c.out.length, c.effect (.sendFrame [64, 0, 0, 1, 7, 0, 0, 0])) ∧
      (send env net [e] Client.peerA [7]).2 =
        (sendViaSelectedPair env net [e] Client.peerA [7]).2 := by
  intro c net env e
  have hframe : c.prepareChannelData Client.peerA [7] = (1, some [64, 0, 0, 1, 7, 0, 0, 0]) := by
    decide +kernel
  have hallocated : e.allocated = true := by decide +kernel
  obtain ⟨hsent, -, hagent⟩ := channelData_shortcut (Client.runs_foldl _ :
    Client.Runs (fun _ _ => True) c) (by decide +kernel) env Client.peerA [7]
  refine ⟨hframe, hsent _ hframe, (hagent net [e] e (List.find?_cons_of_pos hallocated) rfl ?_).1⟩
  intro f hf
  cases hframe.symm.trans hf
  decide +kernel

end Stice.Ice
