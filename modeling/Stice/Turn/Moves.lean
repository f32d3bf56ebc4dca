import Stice.Lib.Slots
import Stice.Turn.Credentials
import Stice.Turn.Timer

/-! The steps a call of the TURN client is made of. Each step changes one thing: a
transaction starts, is sent again or ends, a flag of a binding changes, a packet of the
application is buffered or handed to the sink. Every call is a path of such steps, so
that an invariant of the client is proved step by step. -/
namespace Stice.Turn
open Std Net Stun Lib

/-- Application data handed to `sendRaw`, with the result. -/
structure Relay where
  peer : AddrRecord
  payload : Bytes
  sent : Effect
  result : Int

/-- Application data is buffered in the binding of a peer, or handed over by the call that
accepted it, or handed over from the buffer; a request is sent again. -/
inductive Traffic
  | accept (peer : AddrRecord) (payload : Bytes)
  | direct (r : Relay)
  | flush (r : Relay)
  | resend (key : Bytes)

inductive Action
  | start (key : Bytes) (tx : PendingTx)
  | resend (key : Bytes) (tx : PendingTx)
  | finish (key : Bytes)
  | abort
  | data (a : Traffic)
  | quiet

def Action.traffic? : Action → Option Traffic
  | .data a => some a
  | .resend key _ => some (.resend key)
  | _ => none

namespace Client

/-! ## Transactions and their flags -/

/-- Set the flag of a transaction that starts. -/
def arm (env : ClientEnv) (c : Client) : TxKind → Client
  | .allocate => { c with state := .allocating }
  | .refresh => { c with refreshTidFresh := true, refreshAt := env.now + turnRtoMs }
  | .createPermission peer => c.updateBinding peer fun b => { b with permissionTidFresh := true }
  | .channelBind peer => c.updateBinding peer fun b =>
      { b with channel := c.channelFor env peer, channelTidFresh := true }
  | .connect _ => c

/-- Clear the flag of a transaction that has ended. -/
def disarm (c : Client) : TxKind → Client
  | .allocate => { c with state := .idle }
  | .refresh => { c with refreshTidFresh := false }
  | .createPermission peer => c.updateBinding peer .clearPermissionTid
  | .channelBind peer => c.updateBinding peer .clearChannelTid
  | .connect _ => c

def finish (c : Client) (key : Bytes) (kind : TxKind) : Client :=
  { c with pending := c.pending.erase key }.disarm kind

/-- A transaction of this kind may start. A channel number is chosen only for a peer
with a permission. -/
def Unarmed (c : Client) : TxKind → Prop
  | .allocate => c.state = .idle
  | .refresh => c.refreshTidFresh = false ∧ c.failedEmitted = false
  | .createPermission peer =>
      ∃ b, c.bindings.find? (samePeer peer) = some b ∧ b.permissionTidFresh = false
  | .channelBind peer => ∃ b, c.bindings.find? (samePeer peer) = some b ∧
      b.channelTidFresh = false ∧ (b.channel ≠ 0 ∨ c.hasPermission peer = true)
  | .connect _ => c.state = .allocated

/-! ## Application data -/

/-- Hand a packet to the sink in the form the binding asks for, `none` if a ChannelData
frame cannot carry it. -/
def hand (env : ClientEnv) (c : Client) (b : PeerBinding) (peer : AddrRecord) (pkt : Bytes) :
    Option (Client × Relay) :=
  if b.channelReady then
    (wrapChannelData b.channel pkt).map fun frame =>
      (c.effect (.sendFrame frame), ⟨peer, pkt, .sendFrame frame, env.sendRaw c.out.length⟩)
  else
    let m := sendIndication (env.tid c.drawn) peer pkt
    some ({ c with drawn := c.drawn + 1 }.effect (.send m),
      ⟨peer, pkt, .send m, env.sendRaw c.out.length⟩)

theorem flushPackets_cons (env : ClientEnv) (b : PeerBinding) (c : Client) (pkt : Bytes)
    (rest : List Bytes) :
    flushPackets env b c (pkt :: rest) =
      match hand env c b b.peer pkt with
      | none => (c, pkt :: rest)
      | some (d, r) => if r.result < 0 then (d, pkt :: rest) else flushPackets env b d rest := by
  rw [flushPackets]
  unfold hand
  by_cases hready : b.channelReady = true
  · simp only [hready, if_true]
    cases wrapChannelData b.channel pkt <;> rfl
  · simp only [hready, Bool.false_eq_true, if_false]

/-- What the client hands over changes nothing but the log and the ids drawn. -/
theorem hand_eq {env : ClientEnv} {c d : Client} {b : PeerBinding} {peer : AddrRecord}
    {pkt : Bytes} {r : Relay} (h : hand env c b peer pkt = some (d, r)) :
    ∃ n, c.drawn ≤ n ∧ d = { c with out := c.out ++ [r.sent], drawn := n } ∧ r.peer = peer ∧
      r.payload = pkt ∧ r.result = env.sendRaw c.out.length := by
  unfold hand at h
  split at h
  · obtain ⟨frame, -, h⟩ := Option.map_eq_some_iff.mp h
    cases h
    exact ⟨c.drawn, Nat.le_refl _, rfl, rfl, rfl, rfl⟩
  · cases h
    exact ⟨c.drawn + 1, Nat.le_succ _, rfl, rfl, rfl, rfl⟩

/-! ## The steps -/

inductive Move (env : ClientEnv) (c : Client) : Action → Client → Prop
  | note {e : Effect} (h : isSent e = false) : Move env c .quiet (c.effect e)
  | auth (creds : Option Credentials) (n : Nat) : Move env c .quiet (c.withAuth creds n)
  | schedule (lt : UInt32) (time : Int) :
      Move env c .quiet { c with lifetime := lt, refreshAt := time }
  | draw {n : Nat} (h : c.drawn ≤ n) : Move env c .quiet { c with drawn := n }
  | bind {peer : AddrRecord} (h : c.bindings.find? (samePeer peer) = none) :
      Move env c .quiet { c with bindings := c.bindings ++ [.new peer] }
  | start (kind : TxKind) {build : TransactionID → Message} (h : c.Unarmed kind)
      (hbuilt : ∀ tid, Built (build tid)) :
      Move env c (.start (env.tid c.drawn).1
          ⟨kind, env.now + turnRtoMs, 0, txRequest env (c.arm env kind) build⟩)
        (startTx env (c.arm env kind) kind build)
  | resend {key : Bytes} {tx : PendingTx} (h : c.pending[key]? = some tx)
      (hdue : tx.nextRetransmitAt ≤ env.now) (hretries : tx.retries < turnMaxRtxCount) :
      Move env c (.resend key tx)
        { c with pending := c.pending.insert key (advance env tx), out := c.out ++ c.resent tx }
  | finish {key : Bytes} {tx : PendingTx} (h : c.pending[key]? = some tx) :
      Move env c (.finish key) (c.finish key tx.kind)
  | abort {code : Nat} {reason : Bytes} (h : c.failedEmitted = false) :
      Move env c .abort (c.failAllocation code reason)
  | allocated (h : c.state = .idle) : Move env c .quiet { c with state := .allocated }
  | reject {code : Nat} {reason : Bytes} (h : c.state ≠ .idle ∧ c.state ≠ .allocating) :
      Move env c .quiet ({ c with state := .failed }.effect (.onFailed code reason))
  | giveUp (h : c.state = .allocated) :
      Move env c .quiet { c with state := .deallocated, refreshTidFresh := false }
  | permit (peer : AddrRecord) (time : Int) :
      Move env c .quiet (c.updateBinding peer fun b =>
        { b with permissionPermitted := true, permissionRefreshAt := time })
  | ready {peer : AddrRecord} (time : Int)
      (h : ∀ b, c.bindings.find? (samePeer peer) = some b → b.channel ≠ 0) :
      Move env c .quiet (c.updateBinding peer fun b =>
        { b with channelReady := true, channelRefreshAt := time })
  | keep (peer : AddrRecord) (time : Int) :
      Move env c .quiet (c.updateBinding peer fun b => { b with channelRefreshAt := time })
  | drop (peer : AddrRecord) :
      Move env c .quiet (c.updateBinding peer fun b => { b with pendingData := [] })
  | collect : Move env c .quiet { c with bindings := c.bindings.filter fun b => !stale env b }
  | accept {peer : AddrRecord} {b : PeerBinding} {payload : Bytes} (hstate : c.state = .allocated)
      (hb : c.bindings.find? (samePeer peer) = some b) (h : c.hasPermission peer = false) :
      Move env c (.data (.accept b.peer payload)) (c.updateBinding peer (.buffer payload))
  | direct {peer : AddrRecord} {b : PeerBinding} {payload : Bytes} {d : Client} {r : Relay}
      (hstate : c.state = .allocated) (hsend : c.hasSend = true)
      (hb : c.bindings.find? (samePeer peer) = some b) (h : c.hasPermission peer = true)
      (hsize : b.channelReady = false → payload.length ≤ 0xFFFF - 40)
      (hr : hand env c b peer payload = some (d, r)) : Move env c (.data (.direct r)) d
  | flush {i : Nat} {b : PeerBinding} {pkt : Bytes} {rest : List Bytes} {d : Client} {r : Relay}
      (hsend : c.hasSend = true) (hb : c.bindings[i]? = some b)
      (h : b.permissionPermitted = true) (hdata : b.pendingData = pkt :: rest)
      (hr : hand env c b b.peer pkt = some (d, r)) :
      Move env c (.data (.flush r)) { d with
        bindings := if r.result < 0 then c.bindings
          else c.bindings.set i { b with pendingData := rest } }

/-- A path of steps, with its traffic. -/
def Goes (env : ClientEnv) (c : Client) (l : List Traffic) (d : Client) : Prop :=
  ∃ as, Path (Move env) c as d ∧ as.filterMap Action.traffic? = l

section
variable {env : ClientEnv} {c d e : Client} {l l' : List Traffic}

theorem Goes.refl (c : Client) : Goes env c [] c := ⟨[], .nil c, rfl⟩

theorem Goes.trans (h : Goes env c l d) (h' : Goes env d l' e) : Goes env c (l ++ l') e := by
  obtain ⟨as, has, rfl⟩ := h
  obtain ⟨bs, hbs, rfl⟩ := h'
  exact ⟨as ++ bs, has.append hbs, List.filterMap_append⟩

/-- A path without traffic, continued. -/
theorem Goes.then (h : Goes env c [] d) (h' : Goes env d l e) : Goes env c l e := h.trans h'

theorem Goes.move {a : Action} (h : Move env c a d) (ha : a.traffic? = none) : Goes env c [] d :=
  ⟨[a], .cons h (.nil d), by simp [ha]⟩

theorem Goes.data {a : Traffic} (h : Move env c (.data a) d) : Goes env c [a] d :=
  ⟨[.data a], .cons h (.nil d), rfl⟩

theorem Goes.resend {key : Bytes} {tx : PendingTx} (h : Move env c (.resend key tx) d) :
    Goes env c [.resend key] d := ⟨[.resend key tx], .cons h (.nil d), rfl⟩

end

/-! ## Slots

A transaction occupies the slot of its kind and peer. After the allocation is given up
the slot of Refresh no longer counts: `deallocate` overrides its flag. -/

inductive Slot
  | allocate
  | refresh
  | permission (peer : Bytes)
  | channel (peer : Bytes)
  deriving DecidableEq

def slotOf : TxKind → Option Slot
  | .allocate => some .allocate
  | .refresh => some .refresh
  | .createPermission peer => some (.permission peer.key)
  | .channelBind peer => some (.channel peer.key)
  | .connect _ => none

/-- The allocation is not given up. -/
def active (c : Client) : Bool :=
  c.state = .idle || c.state = .allocating || c.state = .allocated

def occupies (c : Client) (k : Bytes) : Option Slot :=
  c.pending[k]?.bind fun tx => (slotOf tx.kind).filter fun s => s ≠ .refresh || c.active

def flag (c : Client) : Slot → Bool
  | .allocate => c.state = .allocating
  | .refresh => c.refreshTidFresh && c.active
  | .permission key => c.bindings.any fun b => b.peer.key = key && b.permissionTidFresh
  | .channel key => c.bindings.any fun b => b.peer.key = key && b.channelTidFresh

def peerKeys (bs : List PeerBinding) : List Bytes := bs.map fun b => b.peer.key

/-- Holds in every run. -/
structure Wired (c : Client) : Prop where
  slots : Exclusive c.occupies c.flag
  failed : c.failedEmitted = true → c.state = .failed
  ended : c.failedEmitted = true →
    ∀ (k : Bytes) (tx : PendingTx), c.pending[k]? = some tx → tx.kind ≠ .refresh
  peers : (peerKeys c.bindings).Nodup
  channel : ∀ b ∈ c.bindings, b.channelReady = true ∨ b.channelTidFresh = true → b.channel ≠ 0

section
variable {env : ClientEnv} {c d : Client} {peer : AddrRecord} {b : PeerBinding}
variable {key : Bytes} {kind : TxKind} {p : PeerBinding → Bool} {f : PeerBinding → PeerBinding}
  {s : Slot} {bs : List PeerBinding}

theorem samePeer_iff : samePeer peer b = true ↔ b.peer.key = peer.key :=
  AddrRecord.isEqual_iff_key b.peer peer

theorem occupies_eq_some {k : Bytes} {s : Slot} :
    c.occupies k = some s ↔ ∃ tx : PendingTx, c.pending[k]? = some tx ∧ slotOf tx.kind = some s ∧
      (s = .refresh → c.active = true) := by
  unfold occupies
  rw [Option.bind_eq_some_iff]
  refine exists_congr fun tx => and_congr_right fun _ => ?_
  rw [Option.filter_eq_some_iff]
  refine and_congr_right fun _ => ?_
  by_cases hs : s = .refresh <;> simp [hs]

/-- Flags of bindings, with the peers they are for. -/
def flags (bs : List PeerBinding) : List (Bytes × Bool × Bool) :=
  bs.map fun b => (b.peer.key, b.permissionTidFresh, b.channelTidFresh)

theorem flag_congr (hstate : d.state = c.state) (hfresh : d.refreshTidFresh = c.refreshTidFresh)
    (hflags : flags d.bindings = flags c.bindings) : d.flag = c.flag := by
  have hany (f : Bytes × Bool × Bool → Bool) (bs : List PeerBinding) :
      (bs.any fun b => f (b.peer.key, b.permissionTidFresh, b.channelTidFresh)) =
        (flags bs).any f := by
    rw [flags, List.any_map]
    rfl
  funext s
  cases s with
  | allocate => simp only [flag, hstate]
  | refresh => simp only [flag, active, hstate, hfresh]
  | permission key =>
    simp only [flag]
    rw [hany (fun x => x.1 = key && x.2.1), hany (fun x => x.1 = key && x.2.1), hflags]
  | channel key =>
    simp only [flag]
    rw [hany (fun x => x.1 = key && x.2.2), hany (fun x => x.1 = key && x.2.2), hflags]

/-! ### Bindings -/

theorem flags_modifyBinding (bs : List PeerBinding)
    (hf : ∀ b, flags [f b] = flags [b]) : flags (modifyBinding peer f bs) = flags bs :=
  map_modifyBinding fun b _ => List.singleton_inj.mp (hf b)

theorem peerKeys_eq (bs : List PeerBinding) : peerKeys bs = (flags bs).map fun x => x.1 := by
  rw [flags, List.map_map]
  rfl

theorem peerKeys_modifyBinding (bs : List PeerBinding)
    (hf : ∀ b, (f b).peer = b.peer) : peerKeys (modifyBinding peer f bs) = peerKeys bs :=
  map_modifyBinding fun b _ => by rw [hf b]

theorem nodup_modifyBinding (hn : (peerKeys bs).Nodup) (hf : ∀ b, (f b).peer = b.peer) :
    (peerKeys (modifyBinding peer f bs)).Nodup := by
  rw [peerKeys_modifyBinding bs hf]
  exact hn

theorem any_modifyBinding (hf : ∀ b, samePeer peer b = true → p (f b) = p b)
    (bs : List PeerBinding) : (modifyBinding peer f bs).any p = bs.any p := by
  induction bs with
  | nil => rfl
  | cons x xs ih =>
    unfold modifyBinding
    split
    · rename_i hx
      rw [List.any_cons, List.any_cons, hf x hx]
    · rw [List.any_cons, List.any_cons, ih]

theorem any_modifyBinding_self (h : bs.find? (samePeer peer) = some b) (hp : p (f b) = true) :
    (modifyBinding peer f bs).any p = true := by
  induction bs with
  | nil => cases h
  | cons x xs ih =>
    by_cases hx : samePeer peer x = true
    · rw [List.find?_cons_of_pos hx] at h
      cases h
      simp [modifyBinding, hx, hp]
    · rw [List.find?_cons_of_neg hx] at h
      simp [modifyBinding, hx, ih h]

/-- A peer has one binding. -/
theorem eq_of_find? (hn : (peerKeys bs).Nodup) (hfind : bs.find? (samePeer peer) = some b)
    {b' : PeerBinding} (hb' : b' ∈ bs) (hkey : b'.peer.key = peer.key) : b' = b := by
  have hb : b.peer.key = peer.key := samePeer_iff.mp (List.find?_some hfind)
  exact List.inj_on_of_nodup_map hn hb' (List.mem_of_find?_eq_some hfind) (hkey.trans hb.symm)

theorem any_key_eq (hn : (peerKeys bs).Nodup) (hfind : bs.find? (samePeer peer) = some b)
    (g : PeerBinding → Bool) : (bs.any fun b => b.peer.key = peer.key && g b) = g b := by
  have hb : b.peer.key = peer.key := samePeer_iff.mp (List.find?_some hfind)
  rw [Bool.eq_iff_iff, List.any_eq_true]
  constructor
  · rintro ⟨b', hb', h⟩
    rw [Bool.and_eq_true, decide_eq_true_eq] at h
    rw [← eq_of_find? hn hfind hb' h.1]
    exact h.2
  · intro h
    exact ⟨b, List.mem_of_find?_eq_some hfind, by simp [hb, h]⟩

/-! ### One step -/

theorem occupies_congr (hpending : d.pending = c.pending) (hactive : d.active = c.active) :
    d.occupies = c.occupies := by
  funext k
  rw [occupies, occupies, hpending, hactive]

theorem active_congr (hstate : d.state = c.state) : d.active = c.active := by
  rw [active, active, hstate]

theorem Wired.congr (hw : Wired c) (hpending : d.pending = c.pending) (hstate : d.state = c.state)
    (hfresh : d.refreshTidFresh = c.refreshTidFresh) (hfailed : d.failedEmitted = c.failedEmitted)
    (hflags : flags d.bindings = flags c.bindings)
    (hchannel : ∀ b ∈ d.bindings, b.channelReady = true ∨ b.channelTidFresh = true →
      b.channel ≠ 0) :
    Wired d where
  slots := by
    rw [occupies_congr hpending (active_congr hstate), flag_congr hstate hfresh hflags]
    exact hw.slots
  failed := by
    rw [hfailed, hstate]
    exact hw.failed
  ended := by
    rw [hfailed, hpending]
    exact hw.ended
  peers := by
    rw [peerKeys_eq, hflags, ← peerKeys_eq]
    exact hw.peers
  channel := hchannel

theorem Wired.updateBinding (hw : Wired c) {f : PeerBinding → PeerBinding}
    (hf : ∀ b, flags [f b] = flags [b]) (hchannel : ∀ b, c.bindings.find? (samePeer peer) = some b →
      (b.channelReady = true ∨ b.channelTidFresh = true → b.channel ≠ 0) →
      (f b).channelReady = true ∨ (f b).channelTidFresh = true → (f b).channel ≠ 0) :
    Wired (c.updateBinding peer f) := by
  refine hw.congr rfl rfl rfl rfl (flags_modifyBinding c.bindings hf) ?_
  intro b hb
  obtain hb | ⟨b₀, hb₀, rfl⟩ := mem_modifyBinding_find hb
  · exact hw.channel b hb
  · exact hchannel b₀ hb₀ (hw.channel b₀ (List.mem_of_find?_eq_some hb₀))

theorem flag_startTx (env : ClientEnv) (d : Client) (kind : TxKind)
    (build : TransactionID → Message) : (startTx env d kind build).flag = d.flag := by
  rw [startTx_eq]
  exact flag_congr rfl rfl rfl

/-- The entry of the table that a new transaction adds. -/
theorem occupies_startTx {build : TransactionID → Message} {k : Bytes} {s : Slot}
    (h : (startTx env d kind build).occupies k = some s) :
    (k = (env.tid d.drawn).1 ∧ slotOf kind = some s ∧ (s = .refresh → d.active = true)) ∨
      d.occupies k = some s := by
  rw [startTx_eq, occupies_eq_some] at h
  obtain ⟨tx, htx, hs, hactive⟩ := h
  obtain ⟨rfl, rfl⟩ | ⟨-, htx⟩ := getElem?_insert_some htx
  · exact .inl ⟨rfl, hs, hactive⟩
  · exact .inr (occupies_eq_some.mpr ⟨tx, htx, hs, hactive⟩)

/-- An update of a binding changes no flag of another peer. -/
theorem flag_updateBinding (hf : ∀ b, (f b).peer = b.peer)
    (hperm : s ≠ .permission peer.key ∨ ∀ b, (f b).permissionTidFresh = b.permissionTidFresh)
    (hchan : s ≠ .channel peer.key ∨ ∀ b, (f b).channelTidFresh = b.channelTidFresh) :
    (c.updateBinding peer f).flag s = c.flag s := by
  cases s with
  | allocate => rfl
  | refresh => rfl
  | permission key =>
    refine any_modifyBinding (fun b hb => ?_) c.bindings
    obtain hne | hfresh := hperm
    · have hkey : b.peer.key ≠ key := fun h => hne (by rw [← h, samePeer_iff.mp hb])
      simp [hf, hkey]
    · rw [hf, hfresh]
  | channel key =>
    refine any_modifyBinding (fun b hb => ?_) c.bindings
    obtain hne | hfresh := hchan
    · have hkey : b.peer.key ≠ key := fun h => hne (by rw [← h, samePeer_iff.mp hb])
      simp [hf, hkey]
    · rw [hf, hfresh]

theorem arm_pending (env : ClientEnv) (c : Client) (kind : TxKind) :
    (c.arm env kind).pending = c.pending := by
  cases kind <;> rfl

theorem arm_drawn (env : ClientEnv) (c : Client) (kind : TxKind) :
    (c.arm env kind).drawn = c.drawn := by
  cases kind <;> rfl

theorem arm_failedEmitted (env : ClientEnv) (c : Client) (kind : TxKind) :
    (c.arm env kind).failedEmitted = c.failedEmitted := by
  cases kind <;> rfl

/-- A transaction that starts sets no flag but that of its slot. -/
theorem flag_arm (h : c.Unarmed kind) (hs : slotOf kind ≠ some s) :
    (c.arm env kind).flag s = c.flag s := by
  cases kind with
  | allocate =>
    have hstate : c.state = .idle := h
    cases s with
    | allocate => exact absurd rfl hs
    | refresh => simp [flag, arm, active, hstate]
    | _ => rfl
  | refresh =>
    cases s with
    | refresh => exact absurd rfl hs
    | _ => rfl
  | createPermission peer =>
    exact flag_updateBinding (fun _ => rfl) (.inl fun h => hs (h ▸ rfl)) (.inr fun _ => rfl)
  | channelBind peer =>
    exact flag_updateBinding (fun _ => rfl) (.inr fun _ => rfl) (.inl fun h => hs (h ▸ rfl))
  | connect peer => rfl

theorem active_arm (h : c.Unarmed kind) : (c.arm env kind).active = c.active := by
  cases kind with
  | allocate =>
    have hstate : c.state = .idle := h
    simp [active, arm, hstate]
  | _ => rfl

/-- The slot of a transaction that starts is free, and taken afterwards. -/
theorem Wired.flag_slot (env : ClientEnv) (hw : Wired c) {kind : TxKind} {s : Slot}
    (h : c.Unarmed kind)
    (hs : slotOf kind = some s) (hactive : s = .refresh → c.active = true) :
    c.flag s = false ∧ (c.arm env kind).flag s = true := by
  cases kind with
  | allocate =>
    cases hs
    have hstate : c.state = .idle := h
    exact ⟨by simp [flag, hstate], rfl⟩
  | refresh =>
    cases hs
    have hfresh : c.refreshTidFresh = false := h.1
    exact ⟨by simp [flag, hfresh], by rw [flag, Bool.and_eq_true]; exact ⟨rfl, hactive rfl⟩⟩
  | createPermission peer =>
    cases hs
    obtain ⟨b, hb, hfresh⟩ := h
    refine ⟨(any_key_eq hw.peers hb _).trans hfresh, any_modifyBinding_self hb ?_⟩
    simp [samePeer_iff.mp (List.find?_some hb)]
  | channelBind peer =>
    cases hs
    obtain ⟨b, hb, hfresh, -⟩ := h
    refine ⟨(any_key_eq hw.peers hb _).trans hfresh, any_modifyBinding_self hb ?_⟩
    simp [samePeer_iff.mp (List.find?_some hb)]
  | connect peer => cases hs

theorem Wired.start_slots (hw : Wired c) {kind : TxKind} {build : TransactionID → Message}
    (h : c.Unarmed kind) :
    Exclusive (startTx env (c.arm env kind) kind build).occupies
      (startTx env (c.arm env kind) kind build).flag := by
  rw [flag_startTx]
  by_cases hcount : ∃ s, slotOf kind = some s ∧ (s = .refresh → c.active = true)
  · obtain ⟨s, hs, hactive⟩ := hcount
    obtain ⟨hfree, hself⟩ := hw.flag_slot env h hs hactive
    refine hw.slots.acquire (k := (env.tid (c.arm env kind).drawn).1) hfree ?_ hself ?_
    · intro k' s' hk'
      obtain ⟨rfl, hs', -⟩ | hk' := occupies_startTx hk'
      · exact .inl ⟨rfl, Option.some.inj (hs'.symm.trans hs)⟩
      · rw [occupies_congr (arm_pending env c kind) (active_arm h)] at hk'
        exact .inr hk'
    · intro s' hs'
      by_cases hss : s' = s
      · rw [hss]
        exact hself
      · rw [flag_arm h (by rw [hs]; exact fun e => hss (Option.some.inj e).symm)]
        exact hs'
  · -- a Connect, or a Refresh without allocation, takes no slot
    refine hw.slots.subset fun k' s' hk' => ?_
    obtain ⟨-, hs', hactive⟩ | hk' := occupies_startTx hk'
    · exact absurd ⟨s', hs', fun hr => (active_arm h).symm.trans (hactive hr)⟩ hcount
    · rw [occupies_congr (arm_pending env c kind) (active_arm h)] at hk'
      refine ⟨hk', fun hflag => ?_⟩
      by_cases hs' : slotOf kind = some s'
      · refine absurd ⟨s', hs', fun hr => ?_⟩ hcount
        rw [hr, flag, Bool.and_eq_true] at hflag
        exact hflag.2
      · rw [flag_arm h hs']
        exact hflag

theorem Wired.start (hw : Wired c) {kind : TxKind} {build : TransactionID → Message}
    (h : c.Unarmed kind) : Wired (startTx env (c.arm env kind) kind build) := by
  refine ⟨hw.start_slots h, ?_, ?_, ?_, ?_⟩ <;> rw [startTx_eq]
  case refine_1 =>
    rw [arm_failedEmitted]
    intro hf
    have hstate := hw.failed hf
    cases kind with
    | allocate => exact nomatch hstate.symm.trans h
    | _ => exact hstate
  case refine_2 =>
    rw [arm_failedEmitted, arm_pending]
    intro hf k tx htx
    obtain ⟨-, rfl⟩ | ⟨-, htx⟩ := getElem?_insert_some htx
    · rintro rfl
      exact nomatch hf.symm.trans h.2
    · exact hw.ended hf k tx htx
  case refine_3 =>
    cases kind with
    | createPermission peer => exact nodup_modifyBinding hw.peers fun _ => rfl
    | channelBind peer => exact nodup_modifyBinding hw.peers fun _ => rfl
    | _ => exact hw.peers
  case refine_4 =>
    intro b hb
    cases kind with
    | createPermission peer =>
      obtain hb | ⟨b₀, hb₀, rfl⟩ := mem_modifyBinding hb
      · exact hw.channel b hb
      · exact hw.channel b₀ hb₀
    | channelBind peer =>
      obtain hb | ⟨b₀, hb₀, rfl⟩ := mem_modifyBinding hb
      · exact hw.channel b hb
      · exact fun _ => channelFor_ne_zero env c peer
    | _ => exact hw.channel b hb

theorem finish_pending (c : Client) (key : Bytes) (kind : TxKind) :
    (c.finish key kind).pending = c.pending.erase key := by
  cases kind <;> rfl

theorem finish_failedEmitted (c : Client) (key : Bytes) (kind : TxKind) :
    (c.finish key kind).failedEmitted = c.failedEmitted := by
  cases kind <;> rfl

/-- Ending a transaction clears no flag but that of its slot. -/
theorem flag_finish (hstate : kind = .allocate → c.state = .allocating)
    (hs : slotOf kind ≠ some s) : (c.finish key kind).flag s = c.flag s := by
  cases kind with
  | allocate =>
    cases s with
    | allocate => exact absurd rfl hs
    | refresh => simp [flag, active, Client.finish, disarm, hstate rfl]
    | _ => rfl
  | refresh =>
    cases s with
    | refresh => exact absurd rfl hs
    | _ => rfl
  | createPermission peer =>
    exact flag_updateBinding (f := .clearPermissionTid)
      (c := { c with pending := c.pending.erase key })
      (fun _ => rfl) (.inl fun h => hs (h ▸ rfl)) (.inr fun _ => rfl)
  | channelBind peer =>
    exact flag_updateBinding (f := .clearChannelTid)
      (c := { c with pending := c.pending.erase key })
      (fun _ => rfl) (.inr fun _ => rfl) (.inl fun h => hs (h ▸ rfl))
  | connect peer => rfl

theorem Wired.allocating (hw : Wired c) {key : Bytes} {tx : PendingTx}
    (htx : c.pending[key]? = some tx) (hkind : tx.kind = .allocate) : c.state = .allocating := by
  have hocc : c.occupies key = some .allocate :=
    occupies_eq_some.mpr ⟨tx, htx, by rw [hkind]; rfl, nofun⟩
  simpa [flag] using hw.slots.armed key .allocate hocc

theorem active_finish (hstate : kind = .allocate → c.state = .allocating) :
    (c.finish key kind).active = c.active := by
  cases kind with
  | allocate => simp [active, Client.finish, disarm, hstate rfl]
  | _ => rfl

theorem Wired.finish_slots (hw : Wired c) {key : Bytes} {tx : PendingTx}
    (htx : c.pending[key]? = some tx) :
    Exclusive (c.finish key tx.kind).occupies (c.finish key tx.kind).flag := by
  have hallocating := hw.allocating htx
  have hocc : ∀ k s, (c.finish key tx.kind).occupies k = some s →
      k ≠ key ∧ c.occupies k = some s := by
    intro k s hk
    rw [occupies_eq_some, finish_pending, active_finish hallocating] at hk
    obtain ⟨tx', htx', hs⟩ := hk
    obtain ⟨hne, htx'⟩ := getElem?_erase_some htx'
    exact ⟨hne, occupies_eq_some.mpr ⟨tx', htx', hs⟩⟩
  cases hs : c.occupies key with
  | some s =>
    refine hw.slots.release hs hocc fun s' hs' hflag => ?_
    obtain ⟨tx', htx', hslot, -⟩ := occupies_eq_some.mp hs
    rw [htx] at htx'
    cases htx'
    rw [flag_finish hallocating (by rw [hslot]; exact fun h => hs' (Option.some.inj h).symm)]
    exact hflag
  | none =>
    refine hw.slots.subset fun k s hk => ⟨(hocc k s hk).2, fun hflag => ?_⟩
    rw [flag_finish hallocating]
    · exact hflag
    intro hslot
    -- a transaction that does not count is a Refresh without allocation
    have hnot : ¬ (s = .refresh → c.active = true) := by
      intro hactive
      rw [occupies_eq_some.mpr ⟨tx, htx, hslot, hactive⟩] at hs
      cases hs
    rw [Classical.not_imp] at hnot
    obtain ⟨rfl, hactive⟩ := hnot
    rw [flag, Bool.and_eq_true] at hflag
    exact hactive hflag.2

theorem Wired.finish (hw : Wired c) {key : Bytes} {tx : PendingTx}
    (htx : c.pending[key]? = some tx) : Wired (c.finish key tx.kind) := by
  have hallocating := hw.allocating htx
  refine ⟨hw.finish_slots htx, ?_, ?_, ?_, ?_⟩
  · cases hkind : tx.kind with
    | allocate =>
      intro hf
      have hstate := hw.failed hf
      rw [hallocating hkind] at hstate
      cases hstate
    | _ => exact hw.failed
  · rw [finish_failedEmitted, finish_pending]
    exact fun hf k tx' htx' => hw.ended hf k tx' (getElem?_erase_some htx').2
  · cases tx.kind with
    | createPermission peer => exact nodup_modifyBinding hw.peers fun _ => rfl
    | channelBind peer => exact nodup_modifyBinding hw.peers fun _ => rfl
    | _ => exact hw.peers
  · intro b hb
    cases hkind : tx.kind with
    | createPermission peer =>
      rw [hkind] at hb
      obtain hb | ⟨b₀, hb₀, rfl⟩ := mem_modifyBinding hb
      · exact hw.channel b hb
      · exact hw.channel b₀ hb₀
    | channelBind peer =>
      rw [hkind] at hb
      obtain hb | ⟨b₀, hb₀, rfl⟩ := mem_modifyBinding hb
      · exact hw.channel b hb
      · exact fun h => hw.channel b₀ hb₀ (.inl (h.resolve_right Bool.false_ne_true))
    | _ =>
      rw [hkind] at hb
      exact hw.channel b hb

theorem Wired.resend (hw : Wired c) {key : Bytes} {tx tx' : PendingTx}
    (htx : c.pending[key]? = some tx) (hkind : tx'.kind = tx.kind) (out : List Effect) :
    Wired { c with pending := c.pending.insert key tx', out := out } where
  slots := by
    refine hw.slots.subset fun k s hk => ⟨?_, id⟩
    obtain ⟨tx₁, htx₁, hs⟩ := occupies_eq_some.mp hk
    obtain ⟨rfl, rfl⟩ | ⟨-, htx₁⟩ := getElem?_insert_some htx₁
    · exact occupies_eq_some.mpr ⟨tx, htx, hkind ▸ hs.1, hs.2⟩
    · exact occupies_eq_some.mpr ⟨tx₁, htx₁, hs⟩
  failed := hw.failed
  ended hf k tx₁ htx₁ := by
    obtain ⟨rfl, rfl⟩ | ⟨-, htx₁⟩ := getElem?_insert_some htx₁
    · rw [hkind]
      exact hw.ended hf k tx htx
    · exact hw.ended hf k tx₁ htx₁
  peers := hw.peers
  channel := hw.channel

theorem occupies_empty (hpending : c.pending = ∅) (k : Bytes) : c.occupies k = none := by
  rw [occupies, hpending, TreeMap.getElem?_emptyc]
  rfl

theorem Wired.abort (hw : Wired c) (code : Nat) (reason : Bytes) :
    Wired (c.failAllocation code reason) := by
  unfold failAllocation
  split
  · exact hw
  · refine ⟨.empty (occupies_empty rfl), fun _ => rfl, fun _ k tx htx => ?_, hw.peers, hw.channel⟩
    exact nomatch TreeMap.getElem?_emptyc.symm.trans htx

/-- The allocation ends, or begins. -/
theorem Wired.setState (hw : Wired c) (state : AllocState) (fresh : Bool) (out : List Effect)
    (hstate : c.state ≠ .allocating)
    (hactive : { c with state := state }.active = true →
      c.active = true ∧ (c.refreshTidFresh = true → fresh = true))
    (hfailed : c.failedEmitted = true → state = .failed) :
    Wired { c with state := state, refreshTidFresh := fresh, out := out } where
  slots := by
    refine hw.slots.subset fun k s hk => ?_
    obtain ⟨tx, htx, hs, hcount⟩ := occupies_eq_some.mp hk
    refine ⟨occupies_eq_some.mpr ⟨tx, htx, hs, fun h => (hactive (hcount h)).1⟩, fun hflag => ?_⟩
    cases s with
    | allocate => exact absurd (by simpa [flag] using hflag) hstate
    | refresh =>
      rw [flag, Bool.and_eq_true] at hflag ⊢
      exact ⟨(hactive (hcount rfl)).2 hflag.1, hcount rfl⟩
    | _ => exact hflag
  failed := hfailed
  ended := hw.ended
  peers := hw.peers
  channel := hw.channel

theorem flag_bind (c : Client) (peer : AddrRecord) :
    Client.flag { c with bindings := c.bindings ++ [.new peer] } = c.flag := by
  funext s
  cases s <;> simp [flag, PeerBinding.new, active]

theorem Wired.bind (hw : Wired c) (h : c.bindings.find? (samePeer peer) = none) :
    Wired { c with bindings := c.bindings ++ [.new peer] } where
  slots := by
    rw [flag_bind]
    exact hw.slots
  failed := hw.failed
  ended := hw.ended
  peers := by
    rw [peerKeys, List.map_append, List.nodup_append]
    refine ⟨hw.peers, by simp, fun k hk k' hk' hkk' => ?_⟩
    obtain ⟨b, hb, rfl⟩ := List.mem_map.mp hk
    rw [List.map_singleton, List.mem_singleton] at hk'
    exact List.find?_eq_none.mp h b hb (samePeer_iff.mpr (hkk'.trans hk'))
  channel := by
    intro b hb
    obtain hb | hb := List.mem_append.mp hb
    · exact hw.channel b hb
    · rw [List.mem_singleton.mp hb]
      rintro (h | h) <;> cases h

theorem Wired.filter (hw : Wired c) {p : PeerBinding → Bool}
    (hp : ∀ b, b.permissionTidFresh = true ∨ b.channelTidFresh = true → p b = true) :
    Wired { c with bindings := c.bindings.filter p } where
  slots := by
    refine hw.slots.subset fun k s hk => ⟨hk, fun hflag => ?_⟩
    have hany {g : PeerBinding → Bool} {key : Bytes} (hg : ∀ b, g b = true → p b = true)
        (h : (c.bindings.any fun b => b.peer.key = key && g b) = true) :
        ((c.bindings.filter p).any fun b => b.peer.key = key && g b) = true := by
      obtain ⟨b, hb, hbg⟩ := List.any_eq_true.mp h
      have hgb : g b = true := (Bool.and_eq_true _ _ ▸ hbg).2
      exact List.any_eq_true.mpr ⟨b, List.mem_filter.mpr ⟨hb, hg b hgb⟩, hbg⟩
    cases s with
    | allocate => exact hflag
    | refresh => exact hflag
    | permission key => exact hany (fun b hb => hp b (.inl hb)) hflag
    | channel key => exact hany (fun b hb => hp b (.inr hb)) hflag
  failed := hw.failed
  ended := hw.ended
  peers := hw.peers.sublist (List.filter_sublist.map _)
  channel b hb := hw.channel b (List.mem_filter.mp hb).1

theorem stale_fresh {b : PeerBinding}
    (h : b.permissionTidFresh = true ∨ b.channelTidFresh = true) : (!stale env b) = true := by
  obtain h | h := h <;> simp [stale, h]

theorem flags_set {i : Nat} {b b' : PeerBinding} (hb : bs[i]? = some b)
    (hb' : flags [b'] = flags [b]) : flags (bs.set i b') = flags bs := by
  rw [flags, List.map_set]
  have hx : (b'.peer.key, b'.permissionTidFresh, b'.channelTidFresh) =
      (b.peer.key, b.permissionTidFresh, b.channelTidFresh) := by simpa [flags] using hb'
  rw [hx]
  refine List.ext_getElem? fun j => ?_
  by_cases hij : i = j
  · subst hij
    rw [List.getElem?_set_self', List.getElem?_map, flags, List.getElem?_map, hb]
    rfl
  · rw [List.getElem?_set_ne hij, flags]

theorem Move.wired {a : Action} (h : Move env c a d) (hw : Wired c) : Wired d := by
  cases h with
  | note => exact hw.congr rfl rfl rfl rfl rfl hw.channel
  | auth => exact hw.congr rfl rfl rfl rfl rfl hw.channel
  | schedule => exact hw.congr rfl rfl rfl rfl rfl hw.channel
  | draw => exact hw.congr rfl rfl rfl rfl rfl hw.channel
  | bind h => exact hw.bind h
  | start _ h => exact hw.start h
  | @resend key tx h =>
    have hkind : (advance env tx).kind = tx.kind := rfl
    exact hw.resend h hkind _
  | finish h => exact hw.finish h
  | abort => exact hw.abort _ _
  | allocated h =>
    refine hw.setState .allocated c.refreshTidFresh c.out ?_ ?_ ?_
    · rw [h]; decide
    · exact fun _ => ⟨by simp [active, h], id⟩
    · intro hf
      exact nomatch h.symm.trans (hw.failed hf)
  | reject h =>
    refine hw.setState .failed c.refreshTidFresh _ h.2 ?_ ?_
    · intro hactive
      cases hactive
    · exact fun _ => rfl
  | giveUp h =>
    refine hw.setState .deallocated false c.out ?_ ?_ ?_
    · rw [h]; decide
    · intro hactive
      cases hactive
    · intro hf
      exact nomatch h.symm.trans (hw.failed hf)
  | permit => exact hw.updateBinding (fun _ => rfl) fun _ _ h => h
  | ready _ h => exact hw.updateBinding (fun _ => rfl) fun b hb _ _ => h b hb
  | keep => exact hw.updateBinding (fun _ => rfl) fun _ _ h => h
  | drop => exact hw.updateBinding (fun _ => rfl) fun _ _ h => h
  | collect => exact hw.filter fun _ => stale_fresh
  | accept => exact hw.updateBinding (fun _ => rfl) fun _ _ h => h
  | direct _ _ _ _ _ hr =>
    obtain ⟨n, -, rfl, -⟩ := hand_eq hr
    exact hw.congr rfl rfl rfl rfl rfl hw.channel
  | @flush i b pkt rest d' r hsend hb _ _ hr =>
    obtain ⟨n, -, rfl, -⟩ := hand_eq hr
    refine hw.congr rfl rfl rfl rfl ?_ ?_ <;> dsimp only <;> split
    · rfl
    · exact flags_set hb rfl
    · exact hw.channel
    · intro b' hb'
      obtain hb' | rfl := List.mem_or_eq_of_mem_set hb'
      · exact hw.channel b' hb'
      · exact hw.channel b (List.mem_of_getElem? hb)

theorem Wired.init (cfg : TurnConfig) (hasSend : Bool) : Wired (init cfg hasSend) where
  slots := .empty (occupies_empty rfl)
  failed := nofun
  ended := nofun
  peers := List.nodup_nil
  channel := nofun

theorem Goes.wired {l : List Traffic} (h : Goes env c l d) (hw : Wired c) : Wired d := by
  obtain ⟨as, has, -⟩ := h
  exact has.invariant (fun _ _ _ hw hm => hm.wired hw) hw

end
end Client
end Stice.Turn
