import Stice.Ice.TurnDemux
import Stice.Server.Shortcut
import Stice.Turn.Fidelity

/-! A client and its server together: what the client hands to its socket is what the server
relays to the peer. -/
namespace Stice.Server
open Std Net Stun Turn Lib

variable {cfg : Config} {env : Env} {s : State} {c : Client} {p : Ptr} {a : Allocation} {ip : Ip}
  {port channel : UInt16} {f data raw : Bytes} {m : Message} {peer : AddrRecord}

theorem isChannelData_of_read (h : readChannelData f = some (channel, data)) :
    isChannelData f = true := by
  simp only [readChannelData, Option.ite_none_left_eq_some, Bool.not_eq_true', Bool.not_eq_false,
    channelValid, Bool.and_eq_true, decide_eq_true_eq, UInt16.le_iff_toNat_le] at h
  obtain ⟨hlen, ⟨hmin, hmax⟩, hsize, -⟩ := h
  have hlen : channelDataHeaderSize ≤ f.length := Nat.le_of_not_lt hlen
  have hsize := Nat.add_le_of_le_sub hlen (Nat.le_of_not_lt hsize)
  have h0 := (byteAt f 0).toNat_lt
  have h1 := (byteAt f 1).toNat_lt
  have hnumber : (readU16Be f 0).toNat = (byteAt f 0).toNat * 256 + (byteAt f 1).toNat := by
    simp only [readU16Be, UInt16.toNat_or, UInt16.toNat_shiftLeft, UInt8.toNat_toUInt16,
      Nat.shiftLeft_eq]
    rw [or_eq_add 8] <;> simp <;> omega
  rw [hnumber] at hmin hmax
  simp only [isChannelData, Bool.and_eq_true, decide_eq_true_eq, UInt8.le_iff_toNat_le]
  refine ⟨⟨⟨hlen, ?_⟩, ?_⟩, hsize⟩
  · exact show 64 ≤ _ by simp [channelMin] at hmin; omega
  · exact show _ ≤ 127 by simp [channelMax] at hmax; omega

theorem not_channelData_of_decode (h : decode raw = some m) : isChannelData raw = false := by
  unfold decode at h
  exact Ice.isChannelData_of_isMessage (Option.ite_none_right_eq_some.mp h).1

theorem addrEqual_congr {x y : AddrRecord} (h : addrEqual x y true = true) :
    x.ip.normalize = y.ip.normalize ∧ x.port = y.port := by
  simpa [addrEqual] using h

/-- The datagram of an effect of the client. -/
def datagram : Effect → Bytes
  | .send m => m.raw
  | .sendFrame frame => frame
  | _ => []

/-- The server relays for the client at `ip` and `port` through the allocation `p`, knows the
channels of the client, and none of them leads to another client. -/
structure Serves (cfg : Config) (s : State) (p : Ptr) (a : Allocation) (ip : Ip) (port : UInt16)
    (c : Client) : Prop where
  byAddr : s.tables.deref s.tables.allocByClientAddr[(⟨ip, port, .dgram⟩ : AddrRecord).key]? =
    some (p, a)
  byKey : s.tables.deref (s.tables.findAlloc (allocKey cfg .dgram ⟨ip, port, .dgram⟩)) = some (p, a)
  relay : a.hasRelay = true
  channels : ∀ b ∈ c.bindings, b.channelReady = true → ∃ ch,
    a.channels.find? (·.number = b.channel) = some ch ∧ addrEqual ch.peer b.peer true = true
  remote : ∀ ch ∈ a.channels, shortcutTarget cfg s.tables ch.peer p = none

/-- ChannelData goes to the peer of the channel. -/
theorem Serves.frame (h : Serves cfg s p a ip port c) (env : Env) {b : PeerBinding}
    (hb : b ∈ c.bindings) (hready : b.channelReady = true)
    (hread : readChannelData f = some (b.channel, data)) (hdata : data ≠ []) :
    ∃ peer, addrEqual peer b.peer true = true ∧
      step cfg s (.udpData f ip port, env) = s.emit (.relay p peer data) := by
  obtain ⟨ch, hch, hpeer⟩ := h.channels b hb hready
  have hunwrap : unwrapChannelData f = some (b.channel, data) := by
    rw [unwrapChannelData_eq, hread]
    simp [Option.filter, hdata]
  refine ⟨ch.peer, hpeer, ?_⟩
  simp only [step, ioOnUdpData, isChannelData_of_read hread, if_true, h.byAddr,
    handleChannelDataFrame, hunwrap, hch, h.relay, h.remote ch (List.mem_of_find?_eq_some hch)]
  rfl

/-- The data of a Send indication goes to the peer it names. -/
theorem Serves.indication (h : Serves cfg s p a ip port c) (hm : decode raw = some m)
    (hi : Indicates m peer data) (hperm : permitted env.now peer a = true) :
    ∃ peer', addrEqual peer' peer true = true ∧
      step cfg s (.udpData raw ip port, env) = s.emit (.relay p peer' data) := by
  obtain ⟨peer', hread, heq⟩ := hi.peer
  have hperm : permitted env.now peer' a = true := by
    simpa [permitted, samePeerIP, addrEqual, (addrEqual_congr heq).1] using hperm
  refine ⟨peer', heq, ?_⟩
  simp only [step, ioOnUdpData, not_channelData_of_decode hm, Bool.false_eq_true, if_false,
    handleUdpPacket, hm, h.byKey, dispatchStun, hi.cls, hi.method, if_true, handleSendIndication,
    hread, hi.data, hperm, h.relay, Bool.and_self]

/-- Whatever a client has handed to its socket in a run whose packets fit, the server relays to
the peer that the application named, with the payload that it gave. -/
theorem payloads_relayed {d : Delivery} {r : Relay}
    (h : Reach Delivery.Fresh (Guarded (fun s i => Client.Sized s.client i.2) Delivery.step) d)
    (hs : Serves cfg s p a ip port d.client) (hr : r ∈ d.relays) (hdata : r.payload ≠ [])
    (hperm : permitted env.now r.peer a = true) :
    ∃ peer, addrEqual peer r.peer true = true ∧
      step cfg s (.udpData (datagram r.sent) ip port, env) = s.emit (.relay p peer r.payload) := by
  obtain ⟨f, b, hsent, hb, hkey, hready, -, hread⟩ | ⟨m, e, hsent, hm, hi⟩ :=
    (Delivery.intact_of_reach h).carried r hr
  · obtain ⟨peer, hpeer, hstep⟩ := hs.frame env hb hready hread hdata
    have hsame := addrEqual_congr
      (Bool.and_eq_true_iff.mp ((AddrRecord.isEqual_iff_key _ _).mpr hkey)).2
    have hpeer := addrEqual_congr hpeer
    refine ⟨peer, ?_, by rw [hsent]; exact hstep⟩
    simp [addrEqual, hpeer.1, hpeer.2, hsame.1, hsame.2]
  · rw [hsent]
    exact hs.indication hm hi hperm

/-- The calls of a client with a permission and a channel for the relayed address of another. -/
def clientCalls : List (ClientEnv × Client.Call) :=
  let answered (method : Method) (n : Nat) : ClientEnv × Client.Call := (Client.clientEnv 0,
    .handleInbound (some (Client.reply method .successResponse (Client.numberedTid n) [])))
  Client.allocation ++ [(Client.clientEnv 0, .sendData secondRelay [1]),
    answered .createPermission 1, answered .channelBind 3,
    (Client.clientEnv 0, .sendData secondRelay [2])]

def remoteConfig : Config := { smallConfig with localRelayShortcut := false }

/-- The first packet is sent in an indication, the second on the channel. -/
theorem payloads_relayed_to_client : ∃ d : Delivery, d.relays.length = 2 ∧
    ∀ r ∈ d.relays, ∃ peer, addrEqual peer r.peer true = true ∧
      step remoteConfig (twoClientsAfter 4)
          (.udpData (datagram r.sent) (.v4 192 168 0 7) 50000, smallEnv) =
        (twoClientsAfter 4).emit (.relay 0 peer r.payload) := by
  have hrun : (checkedRun (fun s i => decide (Client.Sized s.client i.2)) Delivery.step
      ⟨Client.smallClient, [], []⟩ clientCalls).map (fun d => (d.relays.map fun r =>
        (r.peer, r.payload), d.client.bindings.map fun b => (b.channel, b.peer))) =
      some ([(secondRelay, [1]), (secondRelay, [2])], [(0x4000, secondRelay)]) := by
    decide +kernel
  have hserver : (twoClientsAfter 4).tables.heap[(0 : Ptr)]?.map (fun a => (a.hasRelay,
      permitted smallEnv.now secondRelay a, a.channels.map fun ch => (ch.number, ch.peer))) =
      some (true, true, [(0x4000, secondRelay)]) ∧
    (twoClientsAfter 4).tables.allocByClientAddr[
      (⟨.v4 192 168 0 7, 50000, .dgram⟩ : AddrRecord).key]? = some 0 ∧
    (twoClientsAfter 4).tables.findAlloc
      (allocKey remoteConfig .dgram ⟨.v4 192 168 0 7, 50000, .dgram⟩) = some 0 := by
    decide +kernel
  obtain ⟨hserver, hsrc⟩ := hserver
  obtain ⟨d, hd, hd'⟩ := Option.map_eq_some_iff.mp hrun
  obtain ⟨a, ha, ha'⟩ := Option.map_eq_some_iff.mp hserver
  simp only [Prod.mk.injEq] at hd' ha'
  have hreach := Reach.of_checkedRun Delivery.Fresh (fun _ _ h => of_decide_eq_true h)
    (.start ⟨⟨_, _, rfl⟩, rfl, rfl⟩) hd
  generalize twoClientsAfter 4 = s at ha hsrc ⊢
  have hderef : s.tables.deref (some 0) = some (0, a) := by simp [Tables.deref, ha]
  have hserves : Serves remoteConfig s 0 a (.v4 192 168 0 7) 50000 d.client := by
    refine ⟨by rw [hsrc.1, hderef], by rw [hsrc.2, hderef], ha'.1, fun b hb _ => ?_,
      fun _ _ => rfl⟩
    obtain ⟨ch, hch, hsame⟩ := List.map_eq_singleton_iff.mp ha'.2.2
    obtain ⟨b', hb', hsame'⟩ := List.map_eq_singleton_iff.mp hd'.2
    rw [hb', List.mem_singleton] at hb
    subst hb
    have hsame := Prod.ext_iff.mp (hsame.trans hsame'.symm)
    refine ⟨ch, ?_, ?_⟩
    · simpa [hch] using hsame.1
    · simp [addrEqual, show ch.peer = b.peer from hsame.2]
  refine ⟨d, by simpa using congrArg List.length hd'.1, fun r hr => ?_⟩
  have hmem := List.mem_map_of_mem (f := fun r => (r.peer, r.payload)) hr
  rw [hd'.1] at hmem
  obtain ⟨hpeer, hpayload⟩ : r.peer = secondRelay ∧ r.payload ≠ [] := by
    simp at hmem
    rcases hmem with h | h <;> simp [h]
  exact payloads_relayed hreach hserves hr hpayload (by rw [hpeer]; exact ha'.2.1)

end Stice.Server
