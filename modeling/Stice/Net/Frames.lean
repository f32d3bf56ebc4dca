import Stice.Net.Receive

/-! RFC 4571 frames end to end (`net/tcp.cpp`): what one `TcpTransport` sends in
`RFC4571` mode and another one receives. `recv` skips an empty frame and returns 0,
which its callers read as "nothing more", so a frame behind an empty one stays in the
buffer until more bytes arrive (`empty_frame_hides_next`). -/
namespace Stice.Tcp
open Lib

variable {b : RecvBuffer} {s : Bytes} {n : Nat} {p : Bytes} {l : Link}

/-! ## The frames of a stream -/

/-- The frame at the head of a stream: its size and its payload. -/
def cutFrame (s : Bytes) : Option (Nat × Bytes) :=
  if s.length < 2 then none
  else if s.length < 2 + headLength s then none
  else some (2 + headLength s, slice s 2 (headLength s))

theorem headLength_append (h : 2 ≤ s.length) (t : Bytes) : headLength (s ++ t) = headLength s := by
  rw [headLength, headLength, readU16Be_append (by omega)]

theorem cutFrame_eq_some (h : cutFrame s = some (n, p)) :
    2 ≤ s.length ∧ 2 + headLength s ≤ s.length ∧ n = 2 + headLength s ∧
      p = slice s 2 (headLength s) := by
  unfold cutFrame at h
  split at h
  · cases h
  · split at h
    · cases h
    · cases h
      exact ⟨by omega, by omega, rfl, rfl⟩

theorem cutFrame_pos (h : cutFrame s = some (n, p)) : 0 < n := by
  obtain ⟨-, -, rfl, -⟩ := cutFrame_eq_some h
  omega

theorem cutFrame_stable (t : Bytes)
    (h : cutFrame s = some (n, p)) : cutFrame (s ++ t) = some (n, p) ∧ n ≤ s.length := by
  obtain ⟨hhead, hlen, rfl, rfl⟩ := cutFrame_eq_some h
  have happ : (s ++ t).length = s.length + t.length := List.length_append
  refine ⟨?_, hlen⟩
  rw [cutFrame, headLength_append hhead, if_neg (by omega), if_neg (by omega)]
  have hslice : slice (s ++ t) 2 (headLength s) = slice s 2 (headLength s) := by
    rw [slice, slice, List.drop_append_of_le_length hhead, List.take_append_of_le_length]
    rw [List.length_drop]
    omega
  rw [hslice]

def framer : Framer UInt8 Bytes where
  cut := cutFrame
  pos := cutFrame_pos
  stable := cutFrame_stable

/-- A payload whose length fits the two bytes of its header. -/
def Fits (p : Bytes) : Prop := p.length ≤ 65535

theorem length_frame (p : Bytes) : (frame .rfc4571 p).length = 2 + p.length := by
  simp [frame]

theorem headLength_frame (h : Fits p) : headLength (frame .rfc4571 p) = p.length := by
  have hdrop : (frame .rfc4571 p).drop 0 = be16 (UInt16.ofNat p.length) ++ p := rfl
  have hread : readU16Be (frame .rfc4571 p) 0 = UInt16.ofNat p.length := readU16Be_of_drop hdrop
  rw [headLength, hread, UInt16.toNat_ofNat', Nat.mod_eq_of_lt]
  unfold Fits at h
  omega

theorem cut_frame (h : Fits p) (t : Bytes) :
    framer.cut (frame .rfc4571 p ++ t) = some ((frame .rfc4571 p).length, p) := by
  have hlen := length_frame p
  have hcut : framer.cut (frame .rfc4571 p) = some ((frame .rfc4571 p).length, p) := by
    simp only [framer, cutFrame, headLength_frame h]
    rw [if_neg (by omega), if_neg (by omega), hlen]
    simp [frame, slice, be16]
  exact (framer.stable t hcut).1

/-- The framer waits for the whole frame. -/
theorem cut_part_of_frame {p s : Bytes} (h : Fits p) (hs : s <+: frame .rfc4571 p)
    (hlt : s.length < (frame .rfc4571 p).length) : framer.cut s = none := by
  obtain ⟨rest, hrest⟩ := hs
  simp only [framer, cutFrame]
  split
  · rfl
  · rename_i hhead
    have hlength : headLength s = p.length := by
      rw [← headLength_append (by omega) rest, hrest, headLength_frame h]
    rw [length_frame] at hlt
    rw [if_pos (by omega)]

/-- The payloads whose whole frames are among the first `n` bytes. -/
def complete : List Bytes → Nat → List Bytes
  | [], _ => []
  | p :: ps, n =>
      if 2 + p.length ≤ n then p :: complete ps (n - (2 + p.length)) else []

theorem prefix_of_complete (ps : List Bytes) (n : Nat) : complete ps n <+: ps := by
  induction ps generalizing n with
  | nil => exact List.nil_prefix
  | cons p ps ih =>
    unfold complete
    split
    · exact (List.prefix_cons_inj p).mpr (ih _)
    · exact List.nil_prefix

/-- However much of a stream of frames has arrived, it parses to its complete frames. -/
theorem parses_complete {ps : List Bytes} {s tail : Bytes} (hps : ∀ p ∈ ps, Fits p)
    (htail : framer.cut tail = none) (hs : s <+: (ps.map (frame .rfc4571)).flatten ++ tail) :
    ∃ rest, framer.Parses s (complete ps s.length) rest ∧ framer.cut rest = none := by
  induction ps generalizing s with
  | nil => exact ⟨s, .done s, Framer.cut_none_of_prefix hs htail⟩
  | cons p ps ih =>
    have hp : Fits p := hps p List.mem_cons_self
    have hlen := length_frame p
    rw [List.map_cons, List.flatten_cons, List.append_assoc] at hs
    unfold complete
    split
    · rename_i hle
      -- the whole frame has arrived
      obtain ⟨s', rfl⟩ : frame .rfc4571 p <+: s :=
        List.prefix_of_prefix_length_le (List.prefix_append _ _) hs (by omega)
      have hs' := (List.prefix_append_right_inj _).mp hs
      obtain ⟨rest, hparse, hrest⟩ := ih (fun q hq => hps q (List.mem_cons_of_mem p hq)) hs'
      refine ⟨rest, .more (cut_frame hp s') ?_, hrest⟩
      rw [List.drop_left, List.length_append, hlen, Nat.add_sub_cancel_left]
      exact hparse
    · rename_i hlt
      have hpart : s <+: frame .rfc4571 p :=
        List.prefix_of_prefix_length_le hs (List.prefix_append _ _) (by omega)
      exact ⟨s, .done s, cut_part_of_frame hp hpart (by omega)⟩

/-! ## The receiver's loop -/

/-- `recv` with a buffer of 65536 bytes until it returns 0, as `handleInboundTcp` and the
mux call it. Every pass but the last removes a frame. -/
def drainRecv : Nat → RecvBuffer → List Bytes × RecvBuffer
  | 0, b => ([], b)
  | fuel + 1, b =>
      let r := b.recv .rfc4571 65536
      if r.ret ≤ 0 then ([], r.buffer)
      else
        let (ps, b') := drainRecv fuel r.buffer
        (r.out :: ps, b')

theorem recv_waits (h : framer.cut b.unread = none) : b.recv .rfc4571 65536 = ⟨0, [], b⟩ := by
  simp only [framer, cutFrame] at h
  simp only [RecvBuffer.recv]
  split
  · rfl
  · rename_i hhead
    rw [if_neg hhead] at h
    split at h
    · rename_i hlen
      rw [if_neg (by omega), if_pos hlen]
    · cases h

theorem recv_frame (h : framer.cut b.unread = some (n, p)) (hp : p ≠ []) :
    0 < (b.recv .rfc4571 65536).ret ∧ (b.recv .rfc4571 65536).out = p ∧
      (b.recv .rfc4571 65536).buffer.unread = b.unread.drop n := by
  obtain ⟨hhead, hlen, rfl, rfl⟩ := cutFrame_eq_some h
  have hlong : headLength b.unread < 65536 := (readU16Be b.unread 0).toNat_lt
  have hpos : headLength b.unread ≠ 0 := by
    intro hzero
    apply hp
    rw [hzero, slice, List.take_zero]
  have hrecv : b.recv .rfc4571 65536 =
      ⟨headLength b.unread, slice b.unread 2 (headLength b.unread),
        b.consume (2 + headLength b.unread)⟩ := by
    simp only [RecvBuffer.recv]
    rw [if_neg (by omega), if_neg hpos, if_neg (by omega), Nat.min_eq_left (by omega),
      toInt_of_le (by unfold intMax; omega)]
  rw [hrecv]
  refine ⟨by dsimp only; omega, ?_, RecvBuffer.unread_consume _ _⟩
  simp only [Received.out, Int.toNat_natCast, slice, List.take_take, Nat.min_self]

/-- The loop returns every frame when none of them is empty. -/
theorem drainRecv_spec {s rest : Bytes} {ps : List Bytes} (h : framer.Parses s ps rest)
    (hrest : framer.cut rest = none) (hps : ∀ p ∈ ps, p ≠ []) {fuel : Nat} {b : RecvBuffer}
    (hb : b.unread = s) (hfuel : s.length < fuel) :
    (drainRecv fuel b).1 = ps ∧ (drainRecv fuel b).2.unread = rest := by
  induction h generalizing fuel b with
  | done s =>
    cases fuel with
    | zero => omega
    | succ fuel =>
      rw [← hb] at hrest
      simp [drainRecv, recv_waits hrest, hb]
  | @more s n p ps rest hcut _ ih =>
    cases fuel with
    | zero => omega
    | succ fuel =>
      subst hb
      obtain ⟨hret, hout, hbuf⟩ := recv_frame hcut (hps p List.mem_cons_self)
      have hpos := framer.pos hcut
      have hle := (framer.stable [] hcut).2
      have hshort : (b.unread.drop n).length < fuel := by
        rw [List.length_drop]
        omega
      obtain ⟨hall, hleft⟩ :=
        ih hrest (fun q hq => hps q (List.mem_cons_of_mem p hq)) hbuf hshort
      simp only [drainRecv]
      rw [if_neg (by omega)]
      exact ⟨by rw [hout, hall], hleft⟩

/-! ## Two transports and the bytes between them -/

/-- A sender in `RFC4571` mode with the payloads it has accepted, and a receiver with
the bytes that have arrived and the payloads its loop has returned. -/
structure Link where
  sender : Session
  accepted : List Bytes
  arrived : Bytes
  buffer : RecvBuffer
  returned : List Bytes

inductive LinkEvent
  | send (data : Bytes) (answers : List WriteResult)
  | flushSends (answers : List WriteResult)
  | arrive (chunk : Bytes)

def Link.start (tls : Bool) : Link := ⟨.start .rfc4571 tls, [], [], .empty, []⟩

/-- The stream brings what has been written, in order; the receiver then runs its loop. -/
def Link.step (l : Link) : LinkEvent → Link
  | .send data answers =>
      { l with
        sender := l.sender.step (.send data, answers)
        accepted := if l.sender.transport.accepts then l.accepted ++ [data] else l.accepted }
  | .flushSends answers => { l with sender := l.sender.step (.flushSends, answers) }
  | .arrive chunk =>
      if (l.arrived ++ chunk).isPrefixOf l.sender.wire then
        let b := l.buffer.arrive chunk
        let (ps, b') := drainRecv (b.unread.length + 1) b
        { l with arrived := l.arrived ++ chunk, buffer := b', returned := l.returned ++ ps }
      else l

/-- The non-empty payloads returned are those whose frames have arrived. -/
def Link.Delivers (l : Link) : Prop :=
  l.returned.filter (· ≠ []) = (complete l.accepted l.arrived.length).filter (· ≠ [])

theorem flushSends_framing (t : TcpTransport) (answers : List WriteResult) :
    (t.flushSends answers).1.framing = t.framing := by
  unfold TcpTransport.flushSends
  dsimp only
  split
  · rfl
  · split
    · split <;> rfl
    · rfl

theorem send_framing (t : TcpTransport) (data : Bytes) (answers : List WriteResult) :
    (t.send data answers).1.framing = t.framing := by
  unfold TcpTransport.send TcpTransport.flushIfConnected
  split
  · dsimp only
    split
    · exact flushSends_framing _ answers
    · rfl
  · rfl

/-- Every payload sent has a byte, and not more than its header can count. -/
def Countable (_ : Link) (e : LinkEvent) : Prop :=
  ∀ data answers, e = .send data answers → data ≠ [] ∧ Fits data

/-- The stream is made of the frames of the accepted payloads, and the receiver has cut
what has arrived of it. -/
structure Link.Ok (l : Link) : Prop where
  sender : l.sender.Ok
  framing : l.sender.transport.framing = .rfc4571
  noControl : l.sender.ctrlFrames = []
  frames : l.sender.dataFrames = l.accepted.map (frame .rfc4571)
  countable : ∀ p ∈ l.accepted, p ≠ [] ∧ Fits p
  written : l.arrived <+: l.sender.wire
  parses : framer.Parses l.arrived l.returned l.buffer.unread
  waits : framer.cut l.buffer.unread = none

theorem wire_grows (s : Session) (c : Call × List WriteResult) : s.wire <+: (s.step c).wire := by
  obtain ⟨c, answers⟩ := c
  cases c <;> exact List.prefix_append _ _

theorem Link.Ok.stream (h : l.Ok) :
    l.sender.wire <+: (l.accepted.map (frame .rfc4571)).flatten := by
  obtain ⟨frames, hmerge, hwire⟩ := h.sender.2.inOrder
  have hmerge : Merge l.sender.dataFrames l.sender.ctrlFrames frames := hmerge
  rw [h.noControl] at hmerge
  rw [hmerge.eq_of_only_left] at hwire
  rw [← h.frames]
  exact hwire

theorem Link.start_ok (tls : Bool) : (Link.start tls).Ok where
  sender := Tcp.start_ok _ _
  framing := rfl
  noControl := rfl
  frames := rfl
  countable := nofun
  written := List.nil_prefix
  parses := .done []
  waits := rfl

theorem Link.Ok.send (h : l.Ok) {data : Bytes} (answers : List WriteResult)
    (hdata : data ≠ [] ∧ Fits data) : (l.step (.send data answers)).Ok where
  sender := step_ok h.sender _ (by rintro _ ⟨⟩)
  framing := (send_framing _ data answers).trans h.framing
  noControl := h.noControl
  frames := by
    have hframes : (l.sender.step (.send data, answers)).dataFrames =
        if l.sender.transport.accepts then
          l.sender.dataFrames ++ [frame l.sender.transport.framing data]
        else l.sender.dataFrames := by
      simp only [Session.step, TcpTransport.send]
      split <;> rfl
    simp only [Link.step]
    rw [hframes, h.framing, h.frames]
    split
    · rw [List.map_append, List.map_singleton]
    · rfl
  countable := by
    simp only [Link.step]
    split
    · intro p hp
      rcases List.mem_append.mp hp with hold | hnew
      · exact h.countable p hold
      · rw [List.mem_singleton.mp hnew]
        exact hdata
    · exact h.countable
  written := h.written.trans (wire_grows l.sender _)
  parses := h.parses
  waits := h.waits

theorem Link.Ok.flushSends (h : l.Ok) (answers : List WriteResult) :
    (l.step (.flushSends answers)).Ok where
  sender := step_ok h.sender _ (by rintro _ ⟨⟩)
  framing := (flushSends_framing _ answers).trans h.framing
  noControl := h.noControl
  frames := h.frames
  countable := h.countable
  written := h.written.trans (wire_grows l.sender _)
  parses := h.parses
  waits := h.waits

/-- What has arrived of the stream parses to its complete frames. -/
theorem Link.Ok.complete (h : l.Ok) {s : Bytes} (hs : s <+: l.sender.wire) :
    ∃ rest, framer.Parses s (Tcp.complete l.accepted s.length) rest ∧ framer.cut rest = none := by
  have hstream : s <+: (l.accepted.map (frame .rfc4571)).flatten ++ [] := by
    rw [List.append_nil]
    exact hs.trans h.stream
  exact parses_complete (fun p hp => (h.countable p hp).2) rfl hstream

theorem Link.Ok.arrive (h : l.Ok) (chunk : Bytes) : (l.step (.arrive chunk)).Ok := by
  simp only [Link.step]
  split
  · rename_i hwire
    have hwire := List.isPrefixOf_iff_prefix.mp hwire
    have hsofar := h.parses.append chunk
    obtain ⟨ps, rest, hnew, hrest⟩ := framer.exists_parses (l.buffer.unread ++ chunk)
    obtain ⟨rest', hall, hrest'⟩ := h.complete hwire
    -- the new frames are the last of the complete ones, so none of them is empty
    have hps : l.returned ++ ps = Tcp.complete l.accepted (l.arrived ++ chunk).length :=
      ((hsofar.trans hnew).unique hrest hall hrest').1
    have hne : ∀ p ∈ ps, p ≠ [] := by
      intro p hp
      have hmem : p ∈ l.returned ++ ps := List.mem_append_right _ hp
      rw [hps] at hmem
      exact (h.countable p ((prefix_of_complete _ _).subset hmem)).1
    have hunread := RecvBuffer.unread_arrive l.buffer chunk
    have hfuel : (l.buffer.unread ++ chunk).length <
        (l.buffer.arrive chunk).unread.length + 1 := by
      rw [hunread]
      omega
    obtain ⟨hret, hleft⟩ := drainRecv_spec hnew hrest hne hunread hfuel
    refine ⟨h.sender, h.framing, h.noControl, h.frames, h.countable, hwire, ?_, ?_⟩
    · dsimp only
      rw [hret, hleft]
      exact hsofar.trans hnew
    · dsimp only
      rw [hleft]
      exact hrest
  · exact h

/-- In every run that sends countable payloads, the receiver returns exactly the payloads
whose frames have arrived. -/
theorem frames_delivered (tls : Bool) (l : Link)
    (h : Reach (· = Link.start tls) (Guarded Countable Link.step) l) : l.Delivers := by
  have hok : l.Ok := by
    apply Reach.invariant (P := Link.Ok) _ _ h
    · rintro _ rfl
      exact Link.start_ok tls
    · rintro l e _ hl ⟨he, rfl⟩
      cases e with
      | send data answers => exact hl.send answers (he data answers rfl)
      | flushSends answers => exact hl.flushSends answers
      | arrive chunk => exact hl.arrive chunk
  obtain ⟨rest, hall, hrest⟩ := hok.complete hok.written
  rw [Link.Delivers, (hok.parses.unique hok.waits hall hrest).1]

/-- Two frames in three chunks: the first with a part of the second's header. -/
theorem frames_delivered_three_chunks :
    Link.Delivers ((((((Link.start false).step (.send [1, 2] [.ok 100])).step
      (.send [3] [.ok 100])).step (.arrive [0, 2, 1, 2, 0])).step (.arrive [1])).step
      (.arrive [3])) := by
  apply frames_delivered false
  refine .next _ (.next _ (.next _ (.next _ (.next _ (.start rfl) ⟨?_, rfl⟩) ⟨?_, rfl⟩)
    ⟨?_, rfl⟩) ⟨?_, rfl⟩) ⟨?_, rfl⟩
  · rintro _ _ ⟨⟩
    exact ⟨by decide, by unfold Fits; decide⟩
  · rintro _ _ ⟨⟩
    exact ⟨by decide, by unfold Fits; decide⟩
  · rintro _ _ ⟨⟩
  · rintro _ _ ⟨⟩
  · rintro _ _ ⟨⟩

/-- An empty payload and one byte arrive together: `recv` returns 0 for the empty frame,
and the byte behind it is not returned. -/
theorem empty_frame_hides_next :
    ¬ Link.Delivers ((((Link.start false).step (.send [] [.ok 100])).step
      (.send [1] [.ok 100])).step (.arrive [0, 0, 0, 1, 1])) := by
  unfold Link.Delivers
  decide

end Stice.Tcp
