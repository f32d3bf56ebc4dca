import Stice.Turn.Delivery

/-! The payloads of application data on the wire. A Send indication holds a payload as long
as the whole message fits its 16-bit length field, and that depends on the family of the
peer's address. `sendData` counts the envelope of an IPv4 peer, and does not count at all
when it buffers: payloads are intact in every run whose packets are short enough where
they are not checked. -/
namespace Stice.Turn
open Std Net Stun Lib

/-- The longest payload of a Send indication to a peer: 65532 bytes less XOR-PEER-ADDRESS,
the header of DATA, SOFTWARE and FINGERPRINT. -/
def sendLimit : Ip → Nat
  | .v4 .. => 65496
  | .v6 .. => 65484

/-! ## Send indications -/

theorem length_encodeXorAddr_eq (a : AddrRecord) (tid : TransactionID) :
    (encodeXorAddr a tid).length = match a.ip with
      | .v4 .. => 8
      | .v6 .. => 20 := by
  have hmask : (xorMask tid).length = 16 := by simp [xorMask, tid.2]
  unfold encodeXorAddr
  dsimp only
  cases a.ip with
  | v4 b0 b1 b2 b3 => simp [xorBytes, hmask]
  | v6 addr scope => simp [xorBytes, hmask, addr.2]

/-- What a Send indication says. -/
structure Indicates (m : Message) (peer : AddrRecord) (data : Bytes) : Prop where
  method : m.method = .send
  cls : m.cls = .indication
  peer : ∃ a, readXorAddress m .xorPeerAddress m.transactionID = some a ∧
    addrEqual a peer true = true
  data : m.find .data = some data

/-- A Send indication before it is encoded. -/
def bareIndication (tid : TransactionID) (peer : AddrRecord) (data : Bytes) : Message :=
  addData (writeXorAddress ⟨.send, .indication, tid, [], []⟩ .xorPeerAddress peer tid) data

theorem length_indication (tid : TransactionID) (peer : AddrRecord) (data : Bytes) :
    (tlvs ((bareIndication tid peer data).encodedAttributes none none
      (some Client.software))).length = 65532 - sendLimit peer.ip + paddedSize data.length := by
  have hattributes : ∃ as, (bareIndication tid peer data).encodedAttributes none none
      (some Client.software) = [⟨.xorPeerAddress, encodeXorAddr peer tid⟩, ⟨.data, data⟩,
        ⟨.software, Client.software⟩, (bareIndication tid peer data).fingerprintOver as] := ⟨_, rfl⟩
  obtain ⟨as, has⟩ := hattributes
  have hsoftware : Client.software.length = 5 := by decide
  have hfingerprint : ((bareIndication tid peer data).fingerprintOver as).value.length = 4 := rfl
  simp only [has, tlvs_cons, tlvs_nil, List.length_append, length_tlv, List.length_nil,
    length_encodeXorAddr_eq, hsoftware, hfingerprint, paddedSize]
  cases peer.ip <;> simp only [sendLimit] <;> omega

theorem decode_sendIndication (tid : TransactionID) (peer : AddrRecord) {data : Bytes}
    (h : data.length ≤ sendLimit peer.ip) :
    ∃ m, decode (Client.sendIndication tid peer data).raw = some m ∧ Indicates m peer data := by
  have hmethod : (bareIndication tid peer data).method.toNat < 4096 := by
    change Method.send.toNat < 4096
    decide
  have hbody : (tlvs ((bareIndication tid peer data).encodedAttributes none none
      (some Client.software))).length < 65536 := by
    rw [length_indication, paddedSize]
    cases hip : peer.ip <;> simp only [hip, sendLimit] at h ⊢ <;> omega
  refine ⟨_, decode_raw _ none none (some Client.software) hmethod hbody, rfl, rfl, ?_, rfl⟩
  exact ⟨_, decodeXorAddr_encodeXorAddr peer tid, addrEqual_carried peer⟩

/-! ## What the sink is given -/

namespace Client

/-- The bytes handed over for a packet are a frame on the channel of its peer or a Send
indication to it, with the payload of the packet. -/
def Carried (c : Client) (r : Relay) : Prop :=
  (∃ f b, r.sent = .sendFrame f ∧ b ∈ c.bindings ∧ b.peer.key = r.peer.key ∧
    b.channelReady = true ∧ b.channel ≠ 0 ∧ readChannelData f = some (b.channel, r.payload)) ∨
  ∃ m d, r.sent = .send m ∧ decode m.raw = some d ∧ Indicates d r.peer r.payload

/-- Packets that wait fit an indication. -/
def Holdable (c : Client) : Prop :=
  ∀ b ∈ c.bindings, ∀ pkt ∈ b.pendingData, pkt.length ≤ sendLimit b.peer.ip

/-- The packets of the traffic fit the form they may get. -/
def Fitting (l : List Traffic) : Prop :=
  (∀ q payload, .accept q payload ∈ l → payload.length ≤ sendLimit q.ip) ∧
    ∀ r, .direct r ∈ l → (∃ f, r.sent = .sendFrame f) ∨ r.payload.length ≤ sendLimit r.peer.ip

section
variable {env : ClientEnv} {c d : Client} {a : Action} {b : PeerBinding} {r : Relay}
  {bs : List PeerBinding}

theorem Carried.move (h : Carried c r) (hmove : Move env c a d) : Carried d r := by
  obtain ⟨f, b, hsent, hb, hkey, hready, hne, hread⟩ | h := h
  · obtain ⟨b', hb', hpeer, hready', hch⟩ := hmove.bindingStep.open_channel hb hready hne
    refine .inl ⟨f, b', hsent, hb', ?_, hready', ?_, ?_⟩
    · rw [hpeer]
      exact hkey
    · rw [hch]
      exact hne
    · rw [hch]
      exact hread
  · exact .inr h

theorem Carried.hand (hw : Wired c) (hb : b ∈ c.bindings) (hkey : b.peer.key = r.peer.key)
    (hr : Client.hand env c b r.peer r.payload = some (d, r))
    (hsize : (∃ f, r.sent = .sendFrame f) ∨ r.payload.length ≤ sendLimit r.peer.ip) :
    Carried c r := by
  unfold Client.hand at hr
  split at hr
  · rename_i hready
    obtain ⟨frame, hwrap, hr⟩ := Option.map_eq_some_iff.mp hr
    have hsent : r.sent = .sendFrame frame := by rw [← (Prod.mk.inj hr).2]
    exact .inl ⟨frame, b, hsent, hb, hkey, hready, hw.channel b hb (.inl hready),
      (wrapChannelData_wrapped hwrap).read⟩
  · have hsent : r.sent = .send (sendIndication (env.tid c.drawn) r.peer r.payload) := by
      rw [← (Prod.mk.inj (Option.some.inj hr)).2]
    obtain ⟨f, hf⟩ | hsize := hsize
    · exact nomatch hsent.symm.trans hf
    · obtain ⟨m, hm, hsays⟩ := decode_sendIndication (env.tid c.drawn) r.peer hsize
      exact .inr ⟨_, m, hsent, hm, hsays⟩

theorem Holdable.step (h : Holdable c) (hstep : BindingStep env c a bs)
    (ha : ∀ q payload, a = .data (.accept q payload) → payload.length ≤ sendLimit q.ip) :
    ∀ b ∈ bs, ∀ pkt ∈ b.pendingData, pkt.length ≤ sendLimit b.peer.ip := by
  intro b' hb' pkt hpkt
  cases hstep with
  | idle | direct => exact h b' hb' pkt hpkt
  | bind =>
    obtain hb' | hb' := List.mem_append.mp hb'
    · exact h b' hb' pkt hpkt
    · cases List.mem_singleton.mp hb'
      cases hpkt
  | update _ hb hk =>
    obtain hb' | ⟨b₀, hfind, rfl⟩ := mem_modifyBinding_find hb'
    · exact h b' hb' pkt hpkt
    · cases hb.symm.trans hfind
      rw [hk.peer]
      obtain hdata | hdata := hk.data <;> rw [hdata] at hpkt
      · exact h _ (List.mem_of_find?_eq_some hfind) pkt hpkt
      · cases hpkt
  | accept hb =>
    obtain hb' | ⟨b₀, hfind, rfl⟩ := mem_modifyBinding_find hb'
    · exact h b' hb' pkt hpkt
    · cases hb.symm.trans hfind
      obtain hpkt | hpkt := List.mem_append.mp ((buffer_sublist _ _).subset hpkt)
      · exact h _ (List.mem_of_find?_eq_some hfind) pkt hpkt
      · cases List.mem_singleton.mp hpkt
        exact ha _ _ rfl
  | flush hb hdata =>
    split at hb'
    · exact h b' hb' pkt hpkt
    · obtain hb' | rfl := List.mem_or_eq_of_mem_set hb'
      · exact h b' hb' pkt hpkt
      · exact h _ (List.mem_of_getElem? hb) pkt (by rw [hdata]; exact List.mem_cons_of_mem _ hpkt)
  | collect => exact h b' (List.mem_filter.mp hb').1 pkt hpkt

theorem Carried.step (hw : Wired c) (h : Holdable c) (hstep : BindingStep env c a bs) {t : Traffic}
    (ha : a.traffic? = some t) (ht : t.relay = some r)
    (hdirect : ∀ r, a = .data (.direct r) →
      (∃ f, r.sent = .sendFrame f) ∨ r.payload.length ≤ sendLimit r.peer.ip) : Carried c r := by
  cases hstep with
  | idle hidle =>
    cases a with
    | data => cases hidle
    | resend =>
      cases ha
      cases ht
    | _ => cases ha
  | update hidle =>
    cases a with
    | data => cases hidle
    | resend =>
      cases ha
      cases ht
    | _ => cases ha
  | bind | collect => cases ha
  | accept =>
    cases ha
    cases ht
  | direct hb _ _ hr =>
    cases ha
    cases ht
    exact .hand hw (List.mem_of_find?_eq_some hb) (samePeer_iff.mp (List.find?_some hb)) hr
      (hdirect r rfl)
  | flush hb hdata hr hpeer =>
    cases ha
    cases ht
    refine .hand hw (List.mem_of_getElem? hb) (by rw [hpeer]) hr (.inr ?_)
    rw [hpeer]
    exact h _ (List.mem_of_getElem? hb) _ (by rw [hdata]; exact List.mem_cons_self)

theorem carried_of_path {as : List Action} (hpath : Path (Move env) c as d) (hw : Wired c)
    (h : Holdable c) (hfit : Fitting (as.filterMap Action.traffic?)) :
    Holdable d ∧ ∀ r ∈ (as.filterMap Action.traffic?).filterMap Traffic.relay, Carried d r := by
  induction hpath with
  | nil => exact ⟨h, nofun⟩
  | @cons c t d a as hmove hrest ih =>
    have hmem {b : Action} {x : Traffic} (hb : b ∈ a :: as) (hx : b.traffic? = some x) :
        x ∈ (a :: as).filterMap Action.traffic? := List.mem_filterMap.mpr ⟨b, hb, hx⟩
    have hstep := hmove.bindingStep
    have ht : Holdable t := h.step hstep fun q payload ha =>
      hfit.1 q payload (hmem List.mem_cons_self (by rw [ha]; rfl))
    have htail : Fitting (as.filterMap Action.traffic?) := by
      refine ⟨fun q payload hq => ?_, fun r hr => ?_⟩
      · obtain ⟨b, hb, hx⟩ := List.mem_filterMap.mp hq
        exact hfit.1 q payload (hmem (List.mem_cons_of_mem a hb) hx)
      · obtain ⟨b, hb, hx⟩ := List.mem_filterMap.mp hr
        exact hfit.2 r (hmem (List.mem_cons_of_mem a hb) hx)
    obtain ⟨hd, hcarried⟩ := ih (hmove.wired hw) ht htail
    refine ⟨hd, fun r hr => ?_⟩
    obtain ⟨x, hx, hrelay⟩ := List.mem_filterMap.mp hr
    obtain ⟨b, hb, hbx⟩ := List.mem_filterMap.mp hx
    obtain rfl | hb := List.mem_cons.mp hb
    · have hc : Carried c r := .step hw h hstep hbx hrelay fun r hdirect =>
        hfit.2 r (hmem List.mem_cons_self (by rw [hdirect]; rfl))
      exact hrest.invariant (P := fun c => Carried c r) (fun _ _ _ hc hm => hc.move hm)
        (hc.move hmove)
    · exact hcarried r (List.mem_filterMap.mpr ⟨x, List.mem_filterMap.mpr ⟨b, hb, hbx⟩, hrelay⟩)

/-! ## Calls -/

/-- Packets are short enough for an indication wherever `sendData` does not check. -/
def Sized (c : Client) : Call → Prop
  | .sendData peer data => c.state = .allocated →
      if c.hasPermission peer then
        (c.getBinding peer).channelReady = true ∨ 0xFFFF - 40 < data.length ∨
          data.length ≤ sendLimit peer.ip
      else data.length ≤ sendLimit (c.getBinding peer).peer.ip
  | _ => True

instance (c : Client) : ∀ e : Call, Decidable (Sized c e)
  | .sendData peer data => inferInstanceAs <| Decidable <| c.state = .allocated →
      if c.hasPermission peer then
        (c.getBinding peer).channelReady = true ∨ 0xFFFF - 40 < data.length ∨
          data.length ≤ sendLimit peer.ip
      else data.length ≤ sendLimit (c.getBinding peer).peer.ip
  | .allocate | .deallocate | .ensurePermission _ | .sendConnect _
  | .buildConnectionBindRequest _ | .handleInbound _ | .tick => .isTrue trivial

/-- The longest payload that can be expressed in the form the packet would get. -/
def expressLimit (c : Client) (peer : AddrRecord) : Nat :=
  if c.hasPermission peer then
    if (c.getBinding peer).channelReady then 0xFFFF else sendLimit peer.ip
  else sendLimit (c.getBinding peer).peer.ip

theorem fitting_nil : Fitting [] :=
  ⟨fun _ _ h => absurd h List.not_mem_nil, fun _ h => absurd h List.not_mem_nil⟩

theorem Sized.fitting {e : Call} (h : Sized c e) : Fitting (c.trafficBy env e) := by
  cases e with
  | sendData peer data =>
    unfold trafficBy sendTraffic
    dsimp only
    by_cases hstate : c.state = .allocated
    case neg =>
      rw [if_pos hstate]
      exact fitting_nil
    have h := h hstate
    rw [if_neg (not_not_intro hstate)]
    cases hperm : c.hasPermission peer with
    | false =>
      rw [hperm, if_neg Bool.false_ne_true] at h
      refine ⟨fun q payload hq => ?_, fun r hr => ?_⟩
      · cases List.mem_singleton.mp hq
        exact h
      · cases List.mem_singleton.mp hr
    | true =>
      rw [hperm, if_pos rfl] at h
      simp only [Bool.not_true, if_neg Bool.false_ne_true]
      split
      · exact fitting_nil
      rename_i hsize
      split
      · exact fitting_nil
      rename_i x r hr
      refine ⟨fun q payload hq => ?_, fun r' hr' => ?_⟩
      · cases List.mem_singleton.mp hq
      cases List.mem_singleton.mp hr'
      obtain ⟨-, -, -, hpeer, hpayload, -⟩ := hand_eq hr
      unfold hand at hr
      split at hr
      · obtain ⟨frame, -, hr⟩ := Option.map_eq_some_iff.mp hr
        exact .inl ⟨frame, by rw [← (Prod.mk.inj hr).2]⟩
      · rename_i hready
        rw [hpeer, hpayload]
        obtain h | h | h := h
        · exact absurd h hready
        · exact absurd (.inr ⟨by simpa using hready, h⟩) hsize
        · exact .inr h
  | handleInbound data =>
    unfold trafficBy
    dsimp only
    split
    · exact ⟨fun _ _ h => by simp at h, fun _ h => by simp at h⟩
    · exact fitting_nil
  | tick => exact ⟨fun _ _ h => by simp [trafficBy] at h, fun _ h => by simp [trafficBy] at h⟩
  | _ => exact fitting_nil

/-- A packet that cannot be expressed is rejected, and nothing waits or is sent for it. -/
theorem Sized.rejects {peer : AddrRecord} {data : Bytes} (h : Sized c (.sendData peer data))
    (hlong : c.expressLimit peer < data.length) (env : ClientEnv) :
    (c.sendData env peer data).1 = -1 ∧ (c.sendData env peer data).2.out = c.out ∧
      ∀ q, (c.sendData env peer data).2.buffered q = c.buffered q := by
  have hwith : (c.withBinding peer).out = c.out ∧
      ∀ q, (c.withBinding peer).buffered q = c.buffered q := by
    unfold withBinding
    split
    · exact ⟨rfl, fun _ => rfl⟩
    · exact ⟨rfl, fun _ => buffered_bind rfl⟩
  unfold Client.sendData
  by_cases hstate : c.state = .allocated
  case neg =>
    rw [if_pos hstate]
    exact ⟨rfl, rfl, fun _ => rfl⟩
  have h := h hstate
  rw [if_neg (not_not_intro hstate)]
  dsimp only
  rw [hasPermission_withBinding, getBinding_withBinding]
  unfold expressLimit at hlong
  cases hperm : c.hasPermission peer with
  | false =>
    rw [hperm, if_neg Bool.false_ne_true] at h hlong
    omega
  | true =>
    rw [hperm, if_pos rfl] at h hlong
    simp only [Bool.not_true, if_neg Bool.false_ne_true]
    cases hready : (c.getBinding peer).channelReady with
    | true =>
      rw [hready, if_pos rfl] at hlong
      have hwrap : wrapChannelData (c.getBinding peer).channel data = none := by
        simp [wrapChannelData, hlong]
      rw [if_pos rfl, hwrap]
      exact ⟨rfl, hwith⟩
    | false =>
      rw [hready, if_neg Bool.false_ne_true] at hlong
      have hsize : 0xFFFF - 40 < data.length := by
        obtain h | h | h := h
        · exact absurd (hready.symm.trans h) Bool.false_ne_true
        · exact h
        · omega
      rw [if_neg Bool.false_ne_true, if_pos hsize]
      exact ⟨rfl, hwith⟩

end
end Client

/-! ## Runs -/

namespace Delivery
open Client

structure Intact (s : Delivery) : Prop where
  ok : Ok s
  chartered : Chartered s.client
  holdable : Holdable s.client
  carried : ∀ r ∈ s.relays, Carried s.client r

theorem Intact.step {s : Delivery} (h : Intact s) {i : ClientEnv × Client.Call}
    (hi : Sized s.client i.2) : Intact (s.step i) := by
  obtain ⟨as, hpath, htraffic⟩ := Goes.call i.1 h.ok.wired h.ok.phase i.2
  have hfit : Fitting (as.filterMap Action.traffic?) := by
    rw [htraffic]
    exact hi.fitting
  obtain ⟨hholdable, hcarried⟩ := carried_of_path hpath h.ok.wired h.holdable hfit
  refine ⟨h.ok.step i, hpath.invariant (fun _ _ _ hc hm => hm.chartered hc) h.chartered,
    hholdable, fun r hr => ?_⟩
  obtain hr | hr := List.mem_append.mp hr
  · exact hpath.invariant (P := fun c => Carried c r) (fun _ _ _ hc hm => hc.move hm)
      (h.carried r hr)
  · rw [htraffic] at hcarried
    exact hcarried r hr

/-- A packet that waits fits a frame as well. -/
theorem Intact.hand_isSome {s : Delivery} (h : Intact s) (env : ClientEnv) {b : PeerBinding}
    (hb : b ∈ s.client.bindings) {pkt : Bytes} (hpkt : pkt ∈ b.pendingData) :
    (hand env s.client b b.peer pkt).isSome = true := by
  have hsize := h.holdable b hb pkt hpkt
  have hlimit : sendLimit b.peer.ip ≤ 0xFFFF := by
    cases b.peer.ip <;> simp [sendLimit]
  unfold hand
  split
  · rename_i hready
    have hne := h.ok.wired.channel b hb (.inl hready)
    have hvalid := (h.chartered b hb hne).2
    rw [Option.isSome_map, wrapChannelData, hvalid, if_neg (by decide), if_neg (by omega)]
    rfl
  · rfl

theorem intact_of_reach {s : Delivery}
    (h : Reach Fresh (Guarded (fun s i => Sized s.client i.2) step) s) : Intact s := by
  refine Reach.invariant (P := Intact) ?_ ?_ h
  · intro s hs
    refine ⟨hs.ok, ?_, ?_, ?_⟩ <;> obtain ⟨c, accepted, relays⟩ := s <;>
      obtain ⟨⟨cfg, hasSend, rfl⟩, rfl, rfl⟩ := hs <;> exact nofun
  · rintro s i t hs ⟨hi, rfl⟩
    exact hs.step hi

/-- The payloads of application data are intact, those that wait can be sent, and what
cannot be expressed is rejected. -/
theorem payloads_intact {s : Delivery}
    (h : Reach Fresh (Guarded (fun s i => Sized s.client i.2) step) s) :
    s.client.appData = s.relays.map Relay.sent ∧ (∀ r ∈ s.relays, Carried s.client r) ∧
      (∀ env, ∀ b ∈ s.client.bindings, ∀ pkt ∈ b.pendingData,
        (hand env s.client b b.peer pkt).isSome = true) ∧
      ∀ env peer data, Sized s.client (.sendData peer data) →
        s.client.expressLimit peer < data.length →
        (s.client.sendData env peer data).1 = -1 ∧
          (s.client.sendData env peer data).2.out = s.client.out ∧
          ∀ q, (s.client.sendData env peer data).2.buffered q = s.client.buffered q := by
  have hinv := intact_of_reach h
  refine ⟨hinv.ok.logged, hinv.carried, fun env b hb pkt hpkt => hinv.hand_isSome env hb hpkt, ?_⟩
  exact fun env peer data hsized hlong => hsized.rejects hlong env

theorem payloads_intact_buffered :
    ∃ s, checkedRun (fun s i => decide (Sized s.client i.2)) step ⟨smallClient, [], []⟩
        bufferedCalls = some s ∧
      s.relays.map Relay.payload = [[1], [2]] ∧ ∀ r ∈ s.relays, Carried s.client r := by
  have hrun : (checkedRun (fun s i => decide (Sized s.client i.2)) step
      ⟨smallClient, [], []⟩ bufferedCalls).map
        (fun s => s.relays.map Relay.payload) = some [[1], [2]] := by
    decide +kernel
  obtain ⟨s, hs, hpayloads⟩ := Option.map_eq_some_iff.mp hrun
  have hreach : Reach Fresh (Guarded (fun s i => Sized s.client i.2) step) s :=
    Reach.of_checkedRun Fresh (fun _ _ h => of_decide_eq_true h) (.start ⟨⟨_, _, rfl⟩, rfl, rfl⟩) hs
  exact ⟨s, hs, hpayloads, (payloads_intact hreach).2.1⟩

def peerV6 : AddrRecord :=
  ⟨.v6 ⟨[0x20, 0x01, 0x0d, 0xb8, 0, 0, 0, 0, 0, 0, 0, 0, 0, 0, 0, 9], rfl⟩ 0, 6000, .dgram⟩

/-- An allocation with a permission for an IPv6 peer and no channel. -/
def permittedV6 : List (ClientEnv × Client.Call) :=
  allocation ++ [(clientEnv 0, .ensurePermission peerV6),
    (clientEnv 0, .handleInbound (some (reply .createPermission .successResponse
      (numberedTid 1) [])))]

/-- A message of 65536 bytes after the header says that it has none. -/
theorem decode_sendIndication_overflow (tid : TransactionID) {data : Bytes}
    (h : data.length = 65485) :
    ∃ m, decode (sendIndication tid peerV6 data).raw = some m ∧ m.attributes = [] := by
  have hraw := encode_raw (bareIndication tid peerV6 data) none none (some software)
  rw [length_indication, h] at hraw
  have hwire : (sendIndication tid peerV6 data).raw = wire (encodeType .send .indication) 0 tid
      ((bareIndication tid peerV6 data).encodedAttributes none none (some software)) := hraw
  rw [hwire]
  exact ⟨_, decode_wire_overflow tid _ (encodeType_lt _ _), rfl⟩

/-- A packet with a permission and without a channel, of a size that passes the check. -/
theorem sendData_indication {c : Client} {peer : AddrRecord} {data : Bytes} (env : ClientEnv)
    (hstate : c.state = .allocated) (hperm : c.hasPermission peer = true)
    (hsend : c.hasSend = true) (hready : (c.getBinding peer).channelReady = false)
    (hsize : data.length ≤ 0xFFFF - 40) :
    (c.sendData env peer data).1 = env.sendRaw (c.withBinding peer).out.length ∧
      c.relaysBy env (.sendData peer data) = [⟨peer, data,
        .send (sendIndication (env.tid (c.withBinding peer).drawn) peer data),
        env.sendRaw (c.withBinding peer).out.length⟩] := by
  have hsend' : (c.withBinding peer).hasSend = true := by rw [withBinding_eq]; exact hsend
  have hsize' : ¬ 0xFFFF - 40 < data.length := Nat.not_lt.mpr hsize
  constructor
  · unfold Client.sendData
    simp only [hstate, ne_eq, not_true_eq_false, if_false, hasPermission_withBinding, hperm,
      getBinding_withBinding, hready, Bool.not_true, Bool.false_eq_true, hsize', hsend', if_true]
  · unfold relaysBy trafficBy sendTraffic hand
    simp only [hstate, ne_eq, not_true_eq_false, if_false, hperm, hsend, hready, Bool.not_true,
      Bool.false_eq_true, hsize', and_false, or_false]
    rfl

/-- A payload for an IPv6 peer that `sendData` lets through and of which nothing arrives,
and one that fits no form and is accepted while there is no permission. -/
theorem payload_truncated :
    let c := permittedV6.foldl Client.step smallClient
    let data : Bytes := List.replicate 65485 0
    let long : Bytes := List.replicate 65536 0
    Runs (fun _ _ => True) c ∧ (c.sendData (clientEnv 0) peerV6 data).1 = 1 ∧
      (∃ r m d, c.relaysBy (clientEnv 0) (.sendData peerV6 data) = [r] ∧ r.payload = data ∧
        r.sent = .send m ∧ decode m.raw = some d ∧ d.find .data = none) ∧
      c.expressLimit peerA < 65536 ∧ (c.sendData (clientEnv 0) peerA long).1 = 65536 := by
  intro c data long
  have hstate : c.state = .allocated := by decide +kernel
  have hperm : c.hasPermission peerA = false := by decide +kernel
  have hdata : data.length = 65485 := List.length_replicate
  have hlong : long.length = 65536 := List.length_replicate
  obtain ⟨hret, hrelays⟩ := @sendData_indication c peerV6 data (clientEnv 0) hstate
    (by decide +kernel) (by decide +kernel) (by decide +kernel) (by rw [hdata]; decide)
  obtain ⟨m, hm, hempty⟩ := decode_sendIndication_overflow
    ((clientEnv 0).tid (c.withBinding peerV6).drawn) hdata
  refine ⟨runs_foldl _, hret, ⟨_, _, m, hrelays, rfl, rfl, hm, ?_⟩, by decide +kernel, ?_⟩
  · rw [Message.find, hempty]
    rfl
  · unfold Client.sendData
    simp only [hstate, ne_eq, not_true_eq_false, if_false, hasPermission_withBinding, hperm,
      Bool.not_false, if_true, hlong]
    rfl

end Delivery
end Stice.Turn
