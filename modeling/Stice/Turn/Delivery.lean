import Stice.Lib.Passage
import Stice.Turn.BindingSteps
import Stice.Turn.Retransmission

/-! The order of application data on its way through the client. Packets without a
permission wait in the buffer of their binding; the others go straight to the sink. A
permission is shared by all ports of an IP, and a refused packet stays buffered, so a
packet can go past others that still wait: order holds as long as no packet is sent to a
permitted peer whose buffer is not empty. -/
namespace Stice.Turn
open Std Net Stun Lib

/-- The payloads of one peer. -/
def forPeer (key : Bytes) (l : List (Bytes × Bytes)) : List Bytes :=
  l.filterMap fun p => if p.1 = key then some p.2 else none

/-- The packet, if the sink took it. -/
def Relay.taken (r : Relay) : Option (Bytes × Bytes) :=
  if 0 ≤ r.result then some (r.peer.key, r.payload) else none

/-- Application data handed to the sink. -/
def Traffic.relay : Traffic → Option Relay
  | .direct r | .flush r => some r
  | .accept _ _ | .resend _ => none

/-- The packet that the caller is told is on its way. -/
def Traffic.accepted : Traffic → Option (Bytes × Bytes)
  | .accept peer payload => some (peer.key, payload)
  | .direct r => r.taken
  | .flush _ | .resend _ => none

namespace Client

/-- `sendData` accepts a packet if it does not return an error. -/
def acceptedBy (env : ClientEnv) (c : Client) : Call → List (Bytes × Bytes)
  | .sendData peer data => if 0 ≤ (c.sendData env peer data).1 then [(peer.key, data)] else []
  | _ => []

def relaysBy (env : ClientEnv) (c : Client) (e : Call) : List Relay :=
  (c.trafficBy env e).filterMap Traffic.relay

/-- The buffer of a peer. -/
def buffered (c : Client) (peer : AddrRecord) : List Bytes := (c.getBinding peer).pendingData

section
variable {env : ClientEnv} {c d : Client} {a : Action} {peer q : AddrRecord} {b : PeerBinding}
  {bs : List PeerBinding} {f : PeerBinding → PeerBinding}

/-! ## The buffer of one peer after a step -/

theorem buffered_found (hb : c.bindings.find? (samePeer peer) = some b) :
    c.buffered peer = b.pendingData := by rw [buffered, getBinding_found hb]

theorem buffered_not_found (hb : c.bindings.find? (samePeer peer) = none) :
    c.buffered peer = [] := by
  rw [buffered, getBinding, hb]
  rfl

theorem samePeer_congr (h : q.key = peer.key) : samePeer q = samePeer peer := by
  funext b
  rw [Bool.eq_iff_iff, samePeer_iff, samePeer_iff, h]

theorem buffered_congr (h : q.key = peer.key) : c.buffered q = c.buffered peer := by
  cases hb : c.bindings.find? (samePeer peer) with
  | none => rw [buffered_not_found hb, buffered_not_found (by rw [samePeer_congr h]; exact hb)]
  | some b => rw [buffered_found hb, buffered_found (by rw [samePeer_congr h]; exact hb)]

theorem find?_modify (hb : bs.find? (samePeer q) = some b) (hf : (f b).peer = b.peer) :
    (modifyBinding q f bs).find? (samePeer peer) =
      if q.key = peer.key then some (f b) else bs.find? (samePeer peer) := by
  obtain ⟨hq, pre, post, rfl, hpre⟩ := List.find?_eq_some_iff_append.mp hb
  have hpre : ∀ x ∈ pre, samePeer q x = false := fun x hx => by simpa using hpre x hx
  have hkey : b.peer.key = q.key := samePeer_iff.mp hq
  rw [modifyBinding_append hpre hq, List.find?_append, List.find?_append]
  by_cases h : q.key = peer.key
  · have hnone : pre.find? (samePeer peer) = none := by
      rw [List.find?_eq_none]
      intro x hx
      rw [← samePeer_congr h, hpre x hx]
      exact Bool.false_ne_true
    have hfb : samePeer peer (f b) = true := samePeer_iff.mpr (by rw [hf, hkey, h])
    rw [hnone, if_pos h, List.find?_cons_of_pos hfb]
    rfl
  · have hb : ¬ samePeer peer b = true := fun hs => h (hkey.symm.trans (samePeer_iff.mp hs))
    have hfb : ¬ samePeer peer (f b) = true := fun hs =>
      h (hkey.symm.trans (hf ▸ samePeer_iff.mp hs))
    rw [if_neg h, List.find?_cons_of_neg hb, List.find?_cons_of_neg hfb]

theorem buffered_modify (hd : d.bindings = modifyBinding q f c.bindings)
    (hb : c.bindings.find? (samePeer q) = some b) (hf : (f b).peer = b.peer) :
    d.buffered peer = if q.key = peer.key then (f b).pendingData else c.buffered peer := by
  have hfind : d.bindings.find? (samePeer peer) =
      if q.key = peer.key then some (f b) else c.bindings.find? (samePeer peer) := by
    rw [hd]
    exact find?_modify hb hf
  by_cases h : q.key = peer.key
  · rw [if_pos h] at hfind ⊢
    exact buffered_found hfind
  · rw [if_neg h] at hfind ⊢
    rw [buffered, buffered, getBinding, getBinding, hfind]

/-- A binding is changed in place where it is the only one of its peer. -/
theorem set_eq_modifyBinding (hn : (peerKeys bs).Nodup) {i : Nat} (hb : bs[i]? = some b) :
    bs.set i (f b) = modifyBinding b.peer f bs := by
  induction bs generalizing i with
  | nil => cases hb
  | cons x xs ih =>
    have hn' := List.nodup_cons.mp hn
    cases i with
    | zero =>
      cases hb
      rw [modifyBinding, if_pos (samePeer_iff.mpr rfl)]
      rfl
    | succ i =>
      have hmem : b ∈ xs := List.mem_of_getElem? hb
      have hx : ¬ samePeer b.peer x = true := fun h =>
        hn'.1 (List.mem_map.mpr ⟨b, hmem, (samePeer_iff.mp h).symm⟩)
      rw [modifyBinding, if_neg hx, List.set_cons_succ, ih hn'.2 hb]

theorem find?_self (hn : (peerKeys bs).Nodup) (hb : b ∈ bs) :
    bs.find? (samePeer b.peer) = some b := by
  cases h : bs.find? (samePeer b.peer) with
  | none => exact absurd (samePeer_iff.mpr rfl) (List.find?_eq_none.mp h b hb)
  | some x => rw [eq_of_find? hn h hb rfl]

theorem buffered_filter {p : PeerBinding → Bool} (hd : d.bindings = c.bindings.filter p)
    (hn : (peerKeys c.bindings).Nodup) :
    d.buffered peer = c.buffered peer ∨ d.buffered peer = [] := by
  cases h : d.bindings.find? (samePeer peer) with
  | none => exact .inr (buffered_not_found h)
  | some b =>
    have hb : b ∈ c.bindings := by
      have hb := List.mem_of_find?_eq_some h
      rw [hd] at hb
      exact (List.mem_filter.mp hb).1
    have hkey : b.peer.key = peer.key := samePeer_iff.mp (List.find?_some h)
    have hfind := find?_self hn hb
    rw [samePeer_congr hkey] at hfind
    exact .inl (by rw [buffered_found h, buffered_found hfind])

theorem buffered_bind (hd : d.bindings = c.bindings ++ [.new q]) :
    d.buffered peer = c.buffered peer := by
  cases h : c.bindings.find? (samePeer peer) with
  | none =>
    rw [buffered_not_found h, buffered, getBinding, hd, List.find?_append, h]
    by_cases hs : samePeer peer (.new q) = true
    · rw [List.find?_cons_of_pos hs]
      rfl
    · rw [List.find?_cons_of_neg hs]
      rfl
  | some b =>
    rw [buffered_found h, buffered_found]
    rw [hd, List.find?_append, h]
    rfl

theorem buffered_kept (hd : d.bindings = c.bindings) : d.buffered peer = c.buffered peer := by
  rw [buffered, buffered, getBinding, getBinding, hd]

/-! ## One step -/

/-- What the action accepts for a peer. -/
def acceptedFor (peer : AddrRecord) (a : Action) : List Bytes :=
  forPeer peer.key (a.traffic?.bind Traffic.accepted).toList

def takenFor (peer : AddrRecord) (a : Action) : List Bytes :=
  forPeer peer.key ((a.traffic?.bind Traffic.relay).bind Relay.taken).toList

theorem forPeer_single (key : Bytes) (p : Bytes × Bytes) :
    forPeer key [p] = if p.1 = key then [p.2] else [] := by
  unfold forPeer
  split <;> simp_all

theorem forPeer_taken (key : Bytes) (r : Relay) : forPeer key r.taken.toList =
    if 0 ≤ r.result ∧ r.peer.key = key then [r.payload] else [] := by
  unfold Relay.taken
  by_cases hr : 0 ≤ r.result
  · rw [if_pos hr, Option.toList_some, forPeer_single]
    simp [hr]
  · rw [if_neg hr]
    simp [hr, forPeer]

theorem acceptedFor_idle (ha : a.isData = false) : acceptedFor peer a = [] := by
  cases a <;> first | rfl | cases ha

theorem takenFor_idle (ha : a.isData = false) : takenFor peer a = [] := by
  cases a <;> first | rfl | cases ha

theorem buffer_sublist (b : PeerBinding) (payload : Bytes) :
    (b.buffer payload).pendingData.Sublist (b.pendingData ++ [payload]) := by
  unfold PeerBinding.buffer
  dsimp only
  split
  · exact (List.tail_sublist _).append_right _
  · exact .refl _

theorem BindingStep.passage (h : BindingStep env c a bs) (hd : d.bindings = bs) (hw : Wired c)
    (hpast : ∀ r, a = .data (.direct r) → r.peer.key = peer.key → c.buffered peer = []) :
    Passage (c.buffered peer) (acceptedFor peer a) (takenFor peer a) (d.buffered peer) := by
  have hidle (ha : a.isData = false) (hq : (d.buffered peer).Sublist (c.buffered peer)) :
      Passage (c.buffered peer) (acceptedFor peer a) (takenFor peer a) (d.buffered peer) := by
    rw [acceptedFor_idle ha, takenFor_idle ha]
    exact .lose hq
  cases h with
  | idle ha =>
    rw [buffered_kept hd] at hidle ⊢
    exact hidle ha (.refl _)
  | bind h =>
    rw [buffered_bind hd] at hidle ⊢
    exact hidle rfl (.refl _)
  | @update _ q f b ha hb hk =>
    refine hidle ha ?_
    rw [buffered_modify hd hb hk.peer]
    split
    · rename_i hkey
      rw [← buffered_congr hkey, buffered_found hb]
      obtain h | h := hk.data <;> rw [h]
      exact List.nil_sublist _
    · exact .refl _
  | @accept q b payload hb =>
    have hq : b.peer.key = q.key := samePeer_iff.mp (List.find?_some hb)
    have haccepted : acceptedFor peer (.data (.accept b.peer payload)) =
        if b.peer.key = peer.key then [payload] else [] := forPeer_single peer.key _
    have htaken : takenFor peer (.data (.accept b.peer payload)) = [] := rfl
    rw [haccepted, htaken, buffered_modify hd hb rfl, hq]
    split
    · rename_i hkey
      rw [← buffered_congr hkey, buffered_found hb]
      exact .wait (buffer_sublist b payload)
    · exact .lose (.refl _)
  | @direct b r hb hperm hsize _ hr =>
    have haccepted : acceptedFor peer (.data (.direct r)) =
        if 0 ≤ r.result ∧ r.peer.key = peer.key then [r.payload] else [] := forPeer_taken peer.key r
    have htaken : takenFor peer (.data (.direct r)) =
        if 0 ≤ r.result ∧ r.peer.key = peer.key then [r.payload] else [] := forPeer_taken peer.key r
    rw [haccepted, htaken, buffered_kept hd]
    split
    · rename_i hkey
      rw [hpast r rfl hkey.2]
      exact .pass r.payload
    · exact .lose (.refl _)
  | @flush i b rest _ r hb hdata hr hpeer =>
    have haccepted : acceptedFor peer (.data (.flush r)) = [] := rfl
    have htaken : takenFor peer (.data (.flush r)) =
        if 0 ≤ r.result ∧ r.peer.key = peer.key then [r.payload] else [] := forPeer_taken peer.key r
    rw [haccepted, htaken]
    split at hd
    · rw [buffered_kept hd, if_neg (by omega)]
      exact .lose (.refl _)
    · have hset := set_eq_modifyBinding (f := fun b => { b with pendingData := rest }) hw.peers hb
      have hfind := find?_self hw.peers (List.mem_of_getElem? hb)
      rw [buffered_modify (hd.trans hset) hfind rfl]
      by_cases hkey : b.peer.key = peer.key
      · rw [if_pos hkey, if_pos ⟨by omega, by rw [hpeer]; exact hkey⟩, ← buffered_congr hkey,
          buffered_found hfind, hdata]
        exact .leave _ _
      · rw [if_neg hkey, if_neg (by rw [hpeer]; exact fun h => hkey h.2)]
        exact .lose (.refl _)
  | collect =>
    refine hidle rfl ?_
    have hfilter : d.buffered peer = c.buffered peer ∨ d.buffered peer = [] :=
      buffered_filter hd hw.peers
    obtain h | h := hfilter <;> rw [h]
    exact List.nil_sublist _

/-! ## Calls -/

/-- Whatever is not buffered keeps an empty buffer empty. -/
theorem acceptedFor_of_takenFor (ha : ∀ q payload, a ≠ .data (.accept q payload))
    (h : takenFor peer a = []) : acceptedFor peer a = [] := by
  cases a with
  | data t =>
    cases t with
    | accept q payload => exact absurd rfl (ha q payload)
    | direct r => exact h
    | flush r => rfl
    | resend key => rfl
  | _ => rfl

theorem forPeer_append (key : Bytes) (l l' : List (Bytes × Bytes)) :
    forPeer key (l ++ l') = forPeer key l ++ forPeer key l' := List.filterMap_append

/-- The traffic hands nothing past the buffer of the peer. -/
def Clear (c : Client) (peer : AddrRecord) (l : List Traffic) : Prop :=
  ∀ r, .direct r ∈ l → r.peer.key = peer.key →
    c.buffered peer = [] ∧ ∀ q payload, .accept q payload ∉ l

theorem inOrder_of_path {as : List Action} (hpath : Path (Move env) c as d) (hw : Wired c)
    (hclear : Clear c peer (as.filterMap Action.traffic?)) {accepted taken : List Bytes}
    (ho : InOrder accepted taken (c.buffered peer)) :
    InOrder (accepted ++ as.flatMap (acceptedFor peer)) (taken ++ as.flatMap (takenFor peer))
      (d.buffered peer) := by
  induction hpath generalizing accepted taken with
  | nil =>
    simp only [List.flatMap_nil, List.append_nil]
    exact ho
  | @cons c t d a as hmove _ ih =>
    have hmem {b : Action} {x : Traffic} (hb : b ∈ a :: as) (hx : b.traffic? = some x) :
        x ∈ (a :: as).filterMap Action.traffic? := List.mem_filterMap.mpr ⟨b, hb, hx⟩
    have hpast : ∀ r, a = .data (.direct r) → r.peer.key = peer.key → c.buffered peer = [] := by
      rintro r rfl hkey
      exact (hclear r (hmem List.mem_cons_self rfl) hkey).1
    have hp := hmove.bindingStep.passage rfl hw hpast
    have ho' := ih (hmove.wired hw) ?_ (hp.inOrder ho)
    · rw [List.append_assoc, List.append_assoc] at ho'
      exact ho'
    · intro r hr hkey
      obtain ⟨b, hb, hx⟩ := List.mem_filterMap.mp hr
      obtain ⟨hempty, hno⟩ := hclear r (hmem (List.mem_cons_of_mem a hb) hx) hkey
      have ha : ∀ q payload, a ≠ .data (.accept q payload) := by
        rintro q payload rfl
        exact hno q payload (hmem List.mem_cons_self rfl)
      rw [hempty] at hp
      refine ⟨hp.empty (acceptedFor_of_takenFor ha), fun q payload hq => ?_⟩
      obtain ⟨b, hb, hx⟩ := List.mem_filterMap.mp hq
      exact hno q payload (hmem (List.mem_cons_of_mem a hb) hx)

theorem flatMap_acceptedFor (peer : AddrRecord) (as : List Action) :
    as.flatMap (acceptedFor peer) =
      forPeer peer.key ((as.filterMap Action.traffic?).filterMap Traffic.accepted) := by
  induction as with
  | nil => rfl
  | cons a as ih =>
    rw [List.flatMap_cons, ih, acceptedFor, ← forPeer_append]
    congr 1
    cases h : a.traffic? with
    | none => simp [h]
    | some t => cases ht : t.accepted <;> simp [h, ht]

theorem flatMap_takenFor (peer : AddrRecord) (as : List Action) :
    as.flatMap (takenFor peer) = forPeer peer.key
      (((as.filterMap Action.traffic?).filterMap Traffic.relay).filterMap Relay.taken) := by
  induction as with
  | nil => rfl
  | cons a as ih =>
    rw [List.flatMap_cons, ih, takenFor, ← forPeer_append]
    congr 1
    cases h : a.traffic? with
    | none => simp [h]
    | some t =>
      cases ht : t.relay with
      | none => simp [h, ht]
      | some r => cases hr : r.taken <;> simp [h, ht, hr]

theorem getBinding_key (c : Client) (peer : AddrRecord) :
    (c.getBinding peer).peer.key = peer.key := by
  unfold getBinding
  cases hb : c.bindings.find? (samePeer peer) with
  | none => rfl
  | some b => exact samePeer_iff.mp (List.find?_some hb)

theorem filterMap_direct (r : Relay) : [Traffic.direct r].filterMap Traffic.accepted =
    if 0 ≤ r.result then [(r.peer.key, r.payload)] else [] := by
  by_cases h : 0 ≤ r.result <;> simp [Traffic.accepted, Relay.taken, h]

/-- The answer of `sendData` says whether the packet waits or the sink took it. -/
theorem acceptedBy_eq (env : ClientEnv) (c : Client) (e : Call) :
    c.acceptedBy env e = (c.trafficBy env e).filterMap Traffic.accepted := by
  cases e with
  | sendData peer data =>
    unfold acceptedBy trafficBy sendTraffic Client.sendData
    dsimp only
    by_cases hstate : c.state = .allocated
    case neg => rw [if_pos hstate, if_pos hstate]; rfl
    have hkey : (c.getBinding peer).peer.key = peer.key := getBinding_key c peer
    have hsend : (c.withBinding peer).hasSend = c.hasSend := by rw [withBinding_eq]
    rw [if_neg (not_not_intro hstate), if_neg (not_not_intro hstate),
      hasPermission_withBinding, getBinding_withBinding, hsend]
    generalize c.withBinding peer = d
    generalize c.getBinding peer = b at hkey
    cases hperm : c.hasPermission peer with
    | false => simp [Traffic.accepted, hkey]
    | true =>
      simp only [Bool.not_true, if_neg Bool.false_ne_true]
      cases hready : b.channelReady with
      | true =>
        cases hwrap : wrapChannelData b.channel data with
        | none => simp [hand, hready, hwrap]
        | some frame =>
          cases c.hasSend with
          | false => rfl
          | true =>
            simp only [hand, hready, hwrap, Option.map_some, if_true, Bool.not_true,
              Bool.false_eq_true, false_and, or_false, if_false]
            rw [filterMap_direct]
      | false =>
        by_cases hsize : 0xFFFF - 40 < data.length
        · simp [hsize]
        · cases c.hasSend with
          | false => simp [hsize]
          | true =>
            simp only [hand, hready, hsize, Bool.false_eq_true, if_false, and_false, or_false,
              Bool.not_true, if_true]
            rw [filterMap_direct]
  | handleInbound data =>
    unfold acceptedBy trafficBy
    dsimp only
    split
    · simp [List.filterMap_map, Traffic.accepted, Function.comp_def]
    · rfl
  | tick => simp [acceptedBy, trafficBy, List.filterMap_map, Traffic.accepted, Function.comp_def]
  | _ => rfl

/-! ## The log -/

/-- Application data: a ChannelData frame or a Send indication. -/
def isAppData : Effect → Bool
  | .sendFrame _ => true
  | .send m => m.cls = .indication
  | _ => false

def appData (c : Client) : List Effect := c.out.filter isAppData

def sentIn (a : Action) : List Effect := ((a.traffic?.bind Traffic.relay).map Relay.sent).toList

theorem appData_append {later : List Effect} (h : d.out = c.out ++ later) :
    d.appData = c.appData ++ later.filter isAppData := by
  rw [appData, appData, h, List.filter_append]

theorem appData_kept (h : d.out = c.out) : d.appData = c.appData ++ [] := by
  rw [appData, appData, h, List.append_nil]

theorem isAppData_quiet {e : Effect} (h : isSent e = false) : isAppData e = false := by
  cases e <;> first | rfl | cases h

theorem isAppData_request {m : Message} (h : m.cls = .request) : isAppData (.send m) = false := by
  simp [isAppData, h]

theorem isAppData_hand {r : Relay} (h : hand env c b peer r.payload = some (d, r)) :
    isAppData r.sent = true := by
  unfold hand at h
  split at h
  · obtain ⟨frame, -, h⟩ := Option.map_eq_some_iff.mp h
    rw [← (Prod.mk.inj h).2]
    rfl
  · rw [← (Prod.mk.inj (Option.some.inj h)).2]
    rfl

/-- A step logs the application data it hands over, and no other. -/
theorem Move.appData (h : Move env c a d) (hc : AllRequests c) :
    d.appData = c.appData ++ sentIn a := by
  have hquiet {d : Client} {e : Effect} (he : isAppData e = false) (hout : d.out = c.out ++ [e]) :
      d.appData = c.appData ++ [] := by
    rw [appData_append hout, List.filter_cons_of_neg (by rw [he]; exact Bool.false_ne_true)]
    rfl
  have hhand {d d' : Client} {b : PeerBinding} {peer : AddrRecord} {pkt : Bytes} {r : Relay}
      (hr : hand env c b peer pkt = some (d, r)) (hout : d'.out = c.out ++ [r.sent]) :
      d'.appData = c.appData ++ [r.sent] := by
    obtain ⟨_, -, -, -, rfl, -⟩ := hand_eq hr
    rw [appData_append hout, List.filter_cons_of_pos (isAppData_hand hr)]
    rfl
  cases h with
  | note he => exact hquiet (isAppData_quiet he) rfl
  | start kind _ hbuilt =>
    have hcls : (txRequest env (c.arm env kind) _).cls = .request :=
      (encodeRequest_cls _ _).trans (hbuilt _).cls
    rw [startTx_eq]
    cases hsend : (c.arm env kind).hasSend with
    | false => exact appData_kept (by simp [arm_out])
    | true => exact hquiet (isAppData_request hcls) (by simp [arm_out])
  | @resend key tx htx =>
    have hcls : tx.request.cls = .request := hc key tx htx
    unfold resent
    split
    · exact hquiet (isAppData_request hcls) rfl
    · exact appData_kept (List.append_nil _)
  | finish => exact appData_kept (finish_out ..)
  | @abort code reason hf =>
    unfold failAllocation
    rw [if_neg (by simp [hf])]
    exact hquiet (e := .onFailed code reason) rfl rfl
  | @reject code reason => exact hquiet (e := .onFailed code reason) rfl rfl
  | direct _ _ _ _ _ hr =>
    obtain ⟨n, -, rfl, -⟩ := hand_eq hr
    exact hhand hr rfl
  | flush _ _ _ _ hr =>
    obtain ⟨n, -, rfl, -⟩ := hand_eq hr
    exact hhand hr rfl
  | _ => exact appData_kept rfl

theorem appData_of_path {as : List Action} (hpath : Path (Move env) c as d) (hc : AllRequests c) :
    d.appData = c.appData ++ as.flatMap sentIn := by
  induction hpath with
  | nil => exact (List.append_nil _).symm
  | cons hmove _ ih =>
    rw [ih (hmove.follows hc).requests, hmove.appData hc, List.append_assoc]
    rfl

theorem flatMap_sentIn (as : List Action) : as.flatMap sentIn =
    ((as.filterMap Action.traffic?).filterMap Traffic.relay).map Relay.sent := by
  induction as with
  | nil => rfl
  | cons a as ih =>
    rw [List.flatMap_cons, ih]
    cases h : a.traffic? with
    | none => simp [sentIn, h]
    | some t => cases ht : t.relay <;> simp [sentIn, h, ht]

/-! ## Runs -/

/-- A packet is not sent to a permitted peer whose buffer is not empty. -/
def NothingWaits (c : Client) : Call → Prop
  | .sendData peer _ => c.state = .allocated → c.hasPermission peer = true → c.buffered peer = []
  | _ => True

instance (c : Client) (e : Call) : Decidable (NothingWaits c e) := by
  cases e <;> unfold NothingWaits <;> infer_instance

theorem NothingWaits.clear {e : Call} (h : NothingWaits c e) (peer : AddrRecord) :
    Clear c peer (c.trafficBy env e) := by
  intro r hr hkey
  cases e with
  | sendData q data =>
    unfold trafficBy sendTraffic at hr ⊢
    dsimp only at hr ⊢
    split at hr
    · cases hr
    split at hr
    · cases List.mem_singleton.mp hr
    split at hr
    · cases hr
    rename_i hstate hperm hsize
    cases hx : hand env (c.withBinding q) (c.getBinding q) q data with
    | none =>
      rw [hx] at hr
      cases hr
    | some x =>
      rw [hx] at hr
      cases List.mem_singleton.mp hr
      obtain ⟨-, -, -, hpeer, -⟩ := hand_eq hx
      refine ⟨?_, ?_⟩
      · rw [← buffered_congr hkey, hpeer]
        exact h (not_not.mp hstate) (by simpa using hperm)
      · rw [if_neg hstate, if_neg hperm, if_neg hsize]
        exact fun _ _ hq => nomatch List.mem_singleton.mp hq
  | handleInbound data =>
    unfold trafficBy at hr
    dsimp only at hr
    split at hr
    · obtain ⟨_, -, h⟩ := List.mem_map.mp hr
      cases h
    · cases hr
  | tick =>
    obtain hr | hr := List.mem_append.mp hr <;> obtain ⟨_, -, h⟩ := List.mem_map.mp hr <;> cases h
  | _ => cases hr

end
end Client

/-- A run of the client with the packets accepted and those handed to the sink. -/
structure Delivery where
  client : Client
  accepted : List (Bytes × Bytes)
  relays : List Relay

namespace Delivery
open Client

def step (s : Delivery) (i : ClientEnv × Client.Call) : Delivery :=
  ⟨s.client.step i, s.accepted ++ s.client.acceptedBy i.1 i.2,
    s.relays ++ s.client.relaysBy i.1 i.2⟩

def Fresh (s : Delivery) : Prop := Client.Fresh s.client ∧ s.accepted = [] ∧ s.relays = []

/-- The packets the sink took. -/
def taken (s : Delivery) : List (Bytes × Bytes) := s.relays.filterMap Relay.taken

/-- What every run keeps. -/
structure Ok (s : Delivery) : Prop where
  wired : Wired s.client
  phase : Phase s.client
  requests : AllRequests s.client
  logged : s.client.appData = s.relays.map Relay.sent

/-- The packets of a peer that were taken, and those that still wait, in order. -/
def Ordered (s : Delivery) (peer : AddrRecord) : Prop :=
  InOrder (forPeer peer.key s.accepted) (forPeer peer.key s.taken) (s.client.buffered peer)

theorem Fresh.ok {s : Delivery} (h : Fresh s) : Ok s := by
  obtain ⟨c, accepted, relays⟩ := s
  obtain ⟨⟨cfg, hasSend, rfl⟩, rfl, rfl⟩ := h
  refine ⟨.init cfg hasSend, Client.Fresh.phase ⟨cfg, hasSend, rfl⟩, fun k tx htx => ?_, rfl⟩
  exact nomatch TreeMap.getElem?_emptyc.symm.trans htx

theorem Ok.step {s : Delivery} (h : Ok s) (i : ClientEnv × Client.Call) : Ok (s.step i) := by
  obtain ⟨as, hpath, htraffic⟩ := Goes.call i.1 h.wired h.phase i.2
  refine ⟨h.wired.call i.1 h.phase i.2, phase_call i.1 s.client i.2 h.phase,
    h.requests.path hpath, ?_⟩
  have hlog := appData_of_path hpath h.requests
  rw [flatMap_sentIn, htraffic] at hlog
  exact hlog.trans (by rw [h.logged, ← List.map_append]; rfl)

theorem Ordered.step {s : Delivery} {peer : AddrRecord} (h : Ok s) (ho : Ordered s peer)
    {i : ClientEnv × Client.Call} (hi : NothingWaits s.client i.2) : Ordered (s.step i) peer := by
  obtain ⟨as, hpath, htraffic⟩ := Goes.call i.1 h.wired h.phase i.2
  have hclear : Clear s.client peer (as.filterMap Action.traffic?) := by
    rw [htraffic]
    exact hi.clear peer
  have hpassed := inOrder_of_path hpath h.wired hclear ho
  rw [flatMap_acceptedFor, flatMap_takenFor, htraffic, ← acceptedBy_eq, ← forPeer_append,
    ← forPeer_append] at hpassed
  unfold Ordered Delivery.taken Delivery.step
  rw [List.filterMap_append]
  exact hpassed

/-- The packets for one peer that the sink takes are taken in the order in which they were
accepted. -/
theorem taken_in_order {s : Delivery}
    (h : Reach Fresh (Guarded (fun s i => NothingWaits s.client i.2) step) s) (peer : AddrRecord) :
    s.client.appData = s.relays.map Relay.sent ∧
      (forPeer peer.key s.taken).Sublist (forPeer peer.key s.accepted) := by
  have hinv : Ok s ∧ Ordered s peer := by
    refine Reach.invariant (P := fun s => Ok s ∧ Ordered s peer) ?_ ?_ h
    · intro s hs
      refine ⟨hs.ok, ?_⟩
      obtain ⟨c, accepted, relays⟩ := s
      obtain ⟨⟨cfg, hasSend, rfl⟩, rfl, rfl⟩ := hs
      exact .refl _
    · rintro s i t ⟨hok, ho⟩ ⟨hi, rfl⟩
      exact ⟨hok.step i, ho.step hok hi⟩
  exact ⟨hinv.1.logged, hinv.2.sublist⟩

/-- A packet waits for a permission, and the next one is sent with it. -/
def bufferedCalls : List (ClientEnv × Client.Call) :=
  allocation ++ [(clientEnv 0, .sendData peerA [1]),
    (clientEnv 0, .handleInbound (some (reply .createPermission .successResponse
      (numberedTid 1) []))), (clientEnv 0, .sendData peerA [2])]

theorem taken_in_order_buffered :
    ∃ s, checkedRun (fun s i => decide (NothingWaits s.client i.2)) step ⟨smallClient, [], []⟩
        bufferedCalls = some s ∧
      forPeer peerA.key s.accepted = [[1], [2]] ∧ forPeer peerA.key s.taken = [[1], [2]] ∧
      (forPeer peerA.key s.taken).Sublist (forPeer peerA.key s.accepted) := by
  have hrun : (checkedRun (fun s i => decide (NothingWaits s.client i.2)) step
      ⟨smallClient, [], []⟩ bufferedCalls).map
        (fun s => (forPeer peerA.key s.accepted, forPeer peerA.key s.taken)) =
      some ([[1], [2]], [[1], [2]]) := by
    decide +kernel
  obtain ⟨s, hs, hstreams⟩ := Option.map_eq_some_iff.mp hrun
  have hreach : Reach Fresh (Guarded (fun s i => NothingWaits s.client i.2) step) s :=
    Reach.of_checkedRun Fresh (fun _ _ h => of_decide_eq_true h) (.start ⟨⟨_, _, rfl⟩, rfl, rfl⟩) hs
  exact ⟨s, hs, congrArg Prod.fst hstreams, congrArg Prod.snd hstreams,
    (taken_in_order hreach peerA).2⟩

/-- Packets for two ports of one host wait for their permissions. The first permission
comes and covers the host, and the next packet for the second port goes past the one that
still waits. -/
def overtaking : List (ClientEnv × Client.Call) :=
  allocation ++ [(clientEnv 0, .sendData peerA [1]),
    (clientEnv 0, .sendData { peerA with port := 6001 } [2]),
    (clientEnv 0, .handleInbound (some (reply .createPermission .successResponse
      (numberedTid 1) []))),
    (clientEnv 0, .sendData { peerA with port := 6001 } [3]),
    (clientEnv 0, .handleInbound (some (reply .createPermission .successResponse
      (numberedTid 2) [])))]

theorem taken_out_of_order :
    let s := overtaking.foldl step ⟨smallClient, [], []⟩
    let peer : AddrRecord := { peerA with port := 6001 }
    Reach Fresh (fun s i t => t = step s i) s ∧
      forPeer peer.key s.accepted = [[2], [3]] ∧ forPeer peer.key s.taken = [[3], [2]] ∧
      ¬ (forPeer peer.key s.taken).Sublist (forPeer peer.key s.accepted) := by
  intro s peer
  have haccepted : forPeer peer.key s.accepted = [[2], [3]] := by decide +kernel
  have htaken : forPeer peer.key s.taken = [[3], [2]] := by decide +kernel
  refine ⟨.foldl (.start ⟨⟨_, _, rfl⟩, rfl, rfl⟩) overtaking, haccepted, htaken, ?_⟩
  rw [haccepted, htaken]
  decide

end Delivery
end Stice.Turn
