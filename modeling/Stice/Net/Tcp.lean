import Stice.Types
import Stice.Lib.Reach
import Stice.Lib.Mux

/-! The send side of `TcpTransport` (`net/tcp.cpp`): two byte queues with lazily
compacted prefixes, drained control queue first. The socket is a list of
answers, one for each `::send` or `TlsSession::write`. A `Session` adds what an
observer of one connection sees: the frames enqueued by `send` and by
`sendControl`, and the bytes the socket accepted.

A control frame enqueued while a data frame is partly written goes onto the
wire inside that frame (`control_splits_data_frame`). Runs in which this does
not happen keep every frame whole (`wire_inOrder`). Byte counters and the TLS
poll hints are left out. -/
namespace Stice.Tcp
open Lib

variable (tls : Bool) (answers : List WriteResult) (q : SendQueue) {s : Session}

inductive TcpState
  | disconnected | connecting | tlsHandshaking | connected | failed
  deriving DecidableEq, Repr

inductive FramingMode
  | rfc4571 | raw
  deriving DecidableEq, Repr

/-- A queue, the length of its consumed prefix, and the length of the
interrupted TLS write. -/
structure SendQueue where
  bytes : Bytes
  off : Nat
  tlsPendingLen : Nat
  deriving DecidableEq, Repr

structure TcpTransport where
  state : TcpState
  framing : FramingMode
  tlsActive : Bool
  sendQueue : SendQueue
  ctrlQueue : SendQueue
  deriving DecidableEq, Repr

/-- The answer to one write call. `wantRead` is an answer of TLS only, where
`wouldBlock` is `WantWrite`. -/
inductive WriteResult
  | ok (n : Nat) | wouldBlock | wantRead | failed
  deriving DecidableEq, Repr

/-- The return value of `drain`: -1, `POLLIN`, `POLLIN | POLLOUT` or 0. -/
inductive DrainResult
  | drained | pollIn | pollInOut | failed
  deriving DecidableEq, Repr

def SendQueue.empty : SendQueue := ⟨[], 0, 0⟩

def SendQueue.unsent (q : SendQueue) : Bytes := q.bytes.drop q.off

def SendQueue.append (q : SendQueue) (data : Bytes) : SendQueue :=
  { q with bytes := q.bytes ++ data }

/-- The length passed to the write call. -/
def offered (tls : Bool) (q : SendQueue) : Nat :=
  let avail := q.bytes.length - q.off
  if tls then
    if q.tlsPendingLen ≠ 0 then min q.tlsPendingLen avail else min avail 16384
  else min avail 65536

/-- A write call that transferred nothing: TLS remembers the length it has to
resume with. `none` leaves the loop, `some r` returns `r` from `drain`. -/
def interrupted (tls : Bool) (q : SendQueue) : WriteResult → SendQueue × Option DrainResult
  | .wouldBlock =>
      if tls then ({ q with tlsPendingLen := offered tls q }, some .pollInOut) else (q, none)
  | .wantRead =>
      if tls then ({ q with tlsPendingLen := offered tls q }, some .pollIn)
      else (q, some .failed)
  | .ok _ => if tls then (q, none) else (q, some .failed)
  | .failed => (q, some .failed)

/-- The queue, the bytes the socket took, an early return, and the answers not
asked for. -/
structure Drained where
  queue : SendQueue
  taken : Bytes
  early : Option DrainResult
  answers : List WriteResult

/-- `while (off < q.size())`. When the answers end the socket blocks. -/
def drainLoop (tls : Bool) : List WriteResult → SendQueue → Drained
  | [], q =>
      if q.off < q.bytes.length then
        let (q', r) := interrupted tls q .wouldBlock
        ⟨q', [], r, []⟩
      else ⟨q, [], none, []⟩
  | a :: answers, q =>
      if q.off < q.bytes.length then
        let n := match a with
          | .ok n => min n (offered tls q)
          | _ => 0
        if n = 0 then
          let (q', r) := interrupted tls q a
          ⟨q', [], r, answers⟩
        else
          let d := drainLoop tls answers { q with off := q.off + n, tlsPendingLen := 0 }
          { d with taken := slice q.bytes q.off n ++ d.taken }
      else ⟨q, [], none, a :: answers⟩

/-- What `drain` does after its loop: a drained queue is cleared, a long
consumed prefix is erased. -/
def compact (q : SendQueue) : SendQueue × DrainResult :=
  if q.bytes.length ≤ q.off then (.empty, .drained)
  else if 1048576 ≤ q.off then ({ q with bytes := q.bytes.drop q.off, off := 0 }, .pollInOut)
  else (q, .pollInOut)

def drain (tls : Bool) (answers : List WriteResult) (q : SendQueue) :
    SendQueue × Bytes × DrainResult × List WriteResult :=
  let d := drainLoop tls answers q
  match d.early with
  | some r => (d.queue, d.taken, r, d.answers)
  | none => ((compact d.queue).1, d.taken, (compact d.queue).2, d.answers)

/-- `TcpTransport::flushSends` with the bytes the socket took. The data queue is
touched only once the control queue is drained. -/
def TcpTransport.flushSends (t : TcpTransport) (answers : List WriteResult) :
    TcpTransport × Bytes :=
  let (ctrl, w, r, answers) := drain t.tlsActive answers t.ctrlQueue
  let t := { t with ctrlQueue := ctrl }
  if r = .failed then ({ t with state := .failed }, w)
  else if r = .drained then
    let (data, w', r, _) := drain t.tlsActive answers t.sendQueue
    let t := { t with sendQueue := data }
    (if r = .failed then { t with state := .failed } else t, w ++ w')
  else (t, w)

/-- The bytes `send` and `sendControl` append for one message. -/
def frame (mode : FramingMode) (data : Bytes) : Bytes :=
  match mode with
  | .rfc4571 => be16 (UInt16.ofNat data.length) ++ data
  | .raw => data

/-- 16 MiB, the constant local to `send`. -/
def kSendQueueHighWater : Nat := 16 * 1024 * 1024

def TcpTransport.closed (t : TcpTransport) : Bool :=
  t.state = .failed || t.state = .disconnected

/-- Whether `send` accepts a message. -/
def TcpTransport.accepts (t : TcpTransport) : Bool :=
  !t.closed && t.sendQueue.bytes.length ≤ kSendQueueHighWater

/-- The tail of `send` and `sendControl`: an immediate flush when connected. -/
def TcpTransport.flushIfConnected (t : TcpTransport) (answers : List WriteResult) :
    TcpTransport × Bytes :=
  if t.state = .connected then t.flushSends answers else (t, [])

def TcpTransport.send (t : TcpTransport) (data : Bytes) (answers : List WriteResult) :
    TcpTransport × Bytes × Bool :=
  if t.accepts then
    let (t, w) := { t with sendQueue := t.sendQueue.append (frame t.framing data) }
      |>.flushIfConnected answers
    (t, w, true)
  else (t, [], false)

/-- Control frames ignore the high watermark. -/
def TcpTransport.sendControl (t : TcpTransport) (data : Bytes) (answers : List WriteResult) :
    TcpTransport × Bytes × Bool :=
  if t.closed then (t, [], false)
  else
    let (t, w) := { t with ctrlQueue := t.ctrlQueue.append (frame t.framing data) }
      |>.flushIfConnected answers
    (t, w, true)

/-! ## Sessions -/

/-- One connection as an observer of its socket sees it. -/
structure Session where
  transport : TcpTransport
  dataFrames : List Bytes
  ctrlFrames : List Bytes
  wire : Bytes
  deriving DecidableEq, Repr

inductive Call
  | send (data : Bytes) | sendControl (data : Bytes) | flushSends
  deriving DecidableEq, Repr

def Session.start (mode : FramingMode) (tls : Bool) : Session :=
  ⟨⟨.connected, mode, tls, .empty, .empty⟩, [], [], []⟩

def Session.step (s : Session) (c : Call × List WriteResult) : Session :=
  match c.1 with
  | .send data =>
      let (t, w, ok) := s.transport.send data c.2
      ⟨t, if ok then s.dataFrames ++ [frame s.transport.framing data] else s.dataFrames,
        s.ctrlFrames, s.wire ++ w⟩
  | .sendControl data =>
      let (t, w, ok) := s.transport.sendControl data c.2
      ⟨t, s.dataFrames,
        if ok then s.ctrlFrames ++ [frame s.transport.framing data] else s.ctrlFrames,
        s.wire ++ w⟩
  | .flushSends =>
      let (t, w) := s.transport.flushSends c.2
      ⟨t, s.dataFrames, s.ctrlFrames, s.wire ++ w⟩

/-- The two queues as lanes of a multiplexer. -/
def Session.lanes (s : Session) : Mux UInt8 :=
  ⟨s.dataFrames, s.ctrlFrames, s.transport.sendQueue.unsent, s.transport.ctrlQueue.unsent,
    s.wire⟩

/-- The bytes on the wire are a prefix of whole frames, data frames in their
order and control frames in theirs. -/
def Session.InOrder (s : Session) : Prop :=
  ∃ frames, Merge s.dataFrames s.ctrlFrames frames ∧ s.wire <+: frames.flatten

/-- No data frame is partly written: the unsent data is a list of whole frames. -/
def Session.DataAligned (s : Session) : Prop :=
  ∃ sent todo, s.dataFrames = sent ++ todo ∧ s.transport.sendQueue.unsent = todo.flatten

/-- `sendControl` is called between two data frames only. -/
def ControlBetweenFrames (s : Session) (c : Call × List WriteResult) : Prop :=
  ∀ data, c.1 = .sendControl data → s.DataAligned

/-! ## Draining a queue -/

@[simp] theorem unsent_empty : SendQueue.empty.unsent = [] := rfl

theorem unsent_append (data : Bytes) (h : q.off ≤ q.bytes.length) :
    (q.append data).unsent = q.unsent ++ data := by
  simp only [SendQueue.unsent, SendQueue.append]
  rw [List.drop_append_of_le_length h]

/-- An interrupted write moves nothing and does not report `drained`. -/
theorem interrupted_spec (a : WriteResult) (h : q.off ≤ q.bytes.length) :
    (interrupted tls q a).1.unsent = q.unsent.drop 0 ∧ ([] : Bytes) = q.unsent.take 0 ∧
      (interrupted tls q a).1.off ≤ (interrupted tls q a).1.bytes.length ∧
      (interrupted tls q a).2 ≠ some .drained := by
  cases a <;> cases tls <;> exact ⟨rfl, rfl, h, by simp [interrupted]⟩

theorem offered_le : offered tls q ≤ q.bytes.length - q.off := by
  simp only [offered]
  split
  · split <;> omega
  · omega

/-- The loop takes a prefix of what is left and stays inside the queue. -/
theorem drainLoop_spec (h : q.off ≤ q.bytes.length) :
    ∃ n, (drainLoop tls answers q).queue.unsent = q.unsent.drop n ∧
      (drainLoop tls answers q).taken = q.unsent.take n ∧
      (drainLoop tls answers q).queue.off ≤ (drainLoop tls answers q).queue.bytes.length ∧
      (drainLoop tls answers q).early ≠ some .drained := by
  induction answers generalizing q with
  | nil =>
    simp only [drainLoop]
    split
    · exact ⟨0, interrupted_spec tls q .wouldBlock h⟩
    · exact ⟨0, by simp, by simp, h, by simp⟩
  | cons a answers ih =>
    simp only [drainLoop]
    by_cases hq : q.off < q.bytes.length
    · simp only [hq, ↓reduceIte]
      generalize hn : (match a with | .ok n => min n (offered tls q) | _ => 0) = n
      by_cases h0 : n = 0
      · simp only [h0, ↓reduceIte]
        exact ⟨0, interrupted_spec tls q a h⟩
      · simp only [h0, ↓reduceIte]
        have hoff : n ≤ offered tls q := by
          cases a <;> simp only [← hn] <;> omega
        have hlen := offered_le tls q
        obtain ⟨m, hu, ht, hoff, hearly⟩ := ih ⟨q.bytes, q.off + n, 0⟩ (by dsimp only; omega)
        refine ⟨n + m, ?_, ?_, hoff, hearly⟩
        · rw [hu]
          simp [SendQueue.unsent, List.drop_drop, Nat.add_assoc]
        · rw [ht]
          simp only [SendQueue.unsent, slice, List.take_add, List.drop_drop]
    · simp only [hq, ↓reduceIte]
      exact ⟨0, by simp, by simp, h, by simp⟩

theorem compact_spec (h : q.off ≤ q.bytes.length) :
    (compact q).1.unsent = q.unsent ∧ (compact q).1.off ≤ (compact q).1.bytes.length ∧
      ((compact q).2 = .drained → (compact q).1.unsent = []) := by
  unfold compact
  split
  · refine ⟨?_, by simp [SendQueue.empty], fun _ => rfl⟩
    simp only [SendQueue.unsent]
    exact (List.drop_eq_nil_of_le (by assumption)).symm
  · split
    · exact ⟨by simp [SendQueue.unsent], by simp, by simp⟩
    · exact ⟨rfl, h, by simp⟩

/-- `drain` writes a prefix of the unsent bytes and keeps the rest; it reports
`drained` only when nothing is left. -/
theorem drain_spec (h : q.off ≤ q.bytes.length) :
    ∃ n, (drain tls answers q).1.unsent = q.unsent.drop n ∧
      (drain tls answers q).2.1 = q.unsent.take n ∧
      (drain tls answers q).1.off ≤ (drain tls answers q).1.bytes.length ∧
      ((drain tls answers q).2.2.1 = .drained → (drain tls answers q).1.unsent = []) := by
  obtain ⟨n, hu, ht, hoff, hearly⟩ := drainLoop_spec tls answers q h
  cases he : (drainLoop tls answers q).early with
  | none =>
    obtain ⟨hc, hcoff, hcd⟩ := compact_spec _ hoff
    simp only [drain, he]
    exact ⟨n, hc.trans hu, ht, hcoff, hcd⟩
  | some r =>
    simp only [drain, he]
    refine ⟨n, hu, ht, hoff, ?_⟩
    rintro rfl
    exact absurd he hearly

/-! ## Frames stay whole -/

/-- Both queues stand inside their buffers. -/
def TcpTransport.OffsOk (t : TcpTransport) : Prop :=
  t.sendQueue.off ≤ t.sendQueue.bytes.length ∧ t.ctrlQueue.off ≤ t.ctrlQueue.bytes.length

/-- The session invariant: both offsets are inside their queues and the frames
on the wire are whole. -/
def Session.Ok (s : Session) : Prop := s.transport.OffsOk ∧ s.lanes.Framed

theorem start_ok (mode : FramingMode) (tls : Bool) : (Session.start mode tls).Ok :=
  ⟨⟨Nat.le_refl 0, Nat.le_refl 0⟩, Mux.framed_empty⟩

theorem ok_flush (h : s.Ok) (answers : List WriteResult) :
    Session.Ok ⟨(s.transport.flushSends answers).1, s.dataFrames, s.ctrlFrames,
      s.wire ++ (s.transport.flushSends answers).2⟩ := by
  obtain ⟨⟨hs, hc⟩, hf⟩ := h
  obtain ⟨n, hcu, hct, hcoff, hcd⟩ := drain_spec s.transport.tlsActive answers _ hc
  have hctrl := hf.emitUrgent n
  unfold TcpTransport.flushSends
  simp only
  generalize drain s.transport.tlsActive answers s.transport.ctrlQueue = d at *
  obtain ⟨ctrl, w, r, answers'⟩ := d
  dsimp only at hcu hct hcoff hcd ⊢
  have hctrl' : Mux.Framed ⟨s.dataFrames, s.ctrlFrames, s.transport.sendQueue.unsent,
      ctrl.unsent, s.wire ++ w⟩ := by
    rw [hcu, hct]
    exact hctrl
  split
  · exact ⟨⟨hs, hcoff⟩, hctrl'⟩
  · split
    · obtain ⟨m, hsu, hst, hsoff, -⟩ := drain_spec s.transport.tlsActive answers' _ hs
      have hdata := hctrl'.emitBulk (hcd (by assumption)) m
      generalize drain s.transport.tlsActive answers' s.transport.sendQueue = e at *
      obtain ⟨data, w', r', answers''⟩ := e
      dsimp only at hsu hst hsoff ⊢
      have hdata' : Mux.Framed ⟨s.dataFrames, s.ctrlFrames, data.unsent, ctrl.unsent,
          s.wire ++ (w ++ w')⟩ := by
        rw [hsu, hst, ← List.append_assoc]
        exact hdata
      split
      · exact ⟨⟨hsoff, hcoff⟩, hdata'⟩
      · exact ⟨⟨hsoff, hcoff⟩, hdata'⟩
    · exact ⟨⟨hs, hcoff⟩, hctrl'⟩

theorem ok_flushIfConnected (h : s.Ok) (answers : List WriteResult) :
    Session.Ok ⟨(s.transport.flushIfConnected answers).1, s.dataFrames, s.ctrlFrames,
      s.wire ++ (s.transport.flushIfConnected answers).2⟩ := by
  unfold TcpTransport.flushIfConnected
  split
  · exact ok_flush h answers
  · simpa using h

theorem ok_append_data (h : s.Ok) (f : Bytes) :
    Session.Ok ⟨{ s.transport with sendQueue := s.transport.sendQueue.append f },
      s.dataFrames ++ [f], s.ctrlFrames, s.wire⟩ := by
  obtain ⟨⟨hs, hc⟩, hf⟩ := h
  refine ⟨⟨by simp only [SendQueue.append, List.length_append]; omega, hc⟩, ?_⟩
  have := hf.pushBulk f
  simpa [Session.lanes, Mux.pushBulk, unsent_append _ _ hs] using this

theorem ok_append_ctrl (h : s.Ok) (ha : s.DataAligned) (f : Bytes) :
    Session.Ok ⟨{ s.transport with ctrlQueue := s.transport.ctrlQueue.append f },
      s.dataFrames, s.ctrlFrames ++ [f], s.wire⟩ := by
  obtain ⟨⟨hs, hc⟩, hf⟩ := h
  refine ⟨⟨hs, by simp only [SendQueue.append, List.length_append]; omega⟩, ?_⟩
  have := hf.pushUrgent ha f
  simpa [Session.lanes, Mux.pushUrgent, unsent_append _ _ hc] using this

theorem step_ok (h : s.Ok) (c : Call × List WriteResult)
    (hc : ControlBetweenFrames s c) : (s.step c).Ok := by
  obtain ⟨c, answers⟩ := c
  cases c with
  | send data =>
    simp only [Session.step, TcpTransport.send]
    split
    · exact ok_flushIfConnected (ok_append_data h _) answers
    · simpa using h
  | sendControl data =>
    simp only [Session.step, TcpTransport.sendControl]
    split
    · simpa using h
    · exact ok_flushIfConnected (ok_append_ctrl h (hc data rfl) _) answers
  | flushSends => exact ok_flush h answers

/-- In every run that enqueues control frames between data frames only, the
wire carries whole frames in order, whatever the socket accepts and when. -/
theorem wire_inOrder (mode : FramingMode) (tls : Bool) (s : Session)
    (h : Reach (· = Session.start mode tls) (Guarded ControlBetweenFrames Session.step) s) :
    s.InOrder := by
  have hok : s.Ok := by
    apply Reach.invariant (P := Session.Ok) _ _ h
    · rintro _ rfl
      exact start_ok mode tls
    · rintro s c _ hs ⟨hc, rfl⟩
      exact step_ok hs c hc
  exact hok.2.inOrder

/-- A data frame written in two parts, then a control frame. -/
theorem wire_inOrder_two_parts :
    Session.InOrder (((Session.start .rfc4571 false).step (.send [0x61, 0x62], [.ok 3])).step
      (.flushSends, [.ok 1]) |>.step (.sendControl [0x63], [.ok 3])) := by
  apply wire_inOrder .rfc4571 false
  refine .next _ (.next _ (.next _ (.start rfl) ⟨?_, rfl⟩) ⟨?_, rfl⟩) ⟨?_, rfl⟩
  · rintro _ ⟨⟩
  · rintro _ ⟨⟩
  · intro _ _
    exact ⟨[[0, 2, 0x61, 0x62]], [], by decide, by decide⟩

/-- The socket takes three of the four bytes of a data frame; the control frame
then goes out before the fourth. -/
theorem control_splits_data_frame :
    ¬ Session.InOrder (((Session.start .rfc4571 false).step (.send [0x61, 0x62], [.ok 3])).step
      (.sendControl [0x63], [.ok 3])) := by
  have hrun : ((Session.start .rfc4571 false).step (.send [0x61, 0x62], [.ok 3])).step
      (.sendControl [0x63], [.ok 3]) =
      ⟨⟨.connected, .rfc4571, false, ⟨[0, 2, 0x61, 0x62], 3, 0⟩, .empty⟩,
        [[0, 2, 0x61, 0x62]], [[0, 1, 0x63]], [0, 2, 0x61, 0, 1, 0x63]⟩ := by decide
  rw [hrun]
  rintro ⟨frames, hm, hp⟩
  dsimp only at hm hp
  -- the control frame stands before or after the data frame
  rcases hm with _ | hm | hm
  · cases hm with
    | right hm => cases hm; revert hp; decide
  · cases hm with
    | left hm => cases hm; revert hp; decide

end Stice.Tcp
