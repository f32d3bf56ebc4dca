import Stice.Net.Frames
import Stice.Turn.StunConn
import Stice.Ice.Binding

/-! The agent's input from a TURN server over TCP (`ice/agent.cpp`): the control connection
of a relay entry (`handleInboundTurnTcp`) and the RFC 6062 data connection
(`handleInboundTurnDataTcp`), which becomes a tunnel for RFC 4571 frames once its
CONNECTION-BIND is answered. Both handlers first empty the transport's buffer, then cut
frames from what they have. The TURN client, `handleInboundUdp` and the entry that waits for
the bind are behind the actions. -/
namespace Stice.Ice.Inbound
open Lib Tcp Turn

/-- What a handler does and learns in one call. -/
inductive Action
  /-- `readFrame` returned `SIZE_MAX`. -/
  | invalid
  /-- The transport is closed, and the TURN client told of it. -/
  | fail
  | handleInbound (frame : Bytes)
  | bind
  | handleInboundUdp (payload : Bytes)
  deriving DecidableEq, Repr

variable {c : StunConn} {fuel : Nat} {actions : List Action}

/-- A frame, or the payload of one, is passed on. -/
def Action.dispatches : Action → Bool
  | .invalid | .fail => false
  | .handleInbound _ | .bind | .handleInboundUdp _ => true

/-! ## Emptying the transport -/

/-- `recv` with a buffer of 4096 bytes until it returns 0. -/
def drainRaw : Nat → RecvBuffer → List Bytes × RecvBuffer
  | 0, b => ([], b)
  | fuel + 1, b =>
      let r := b.recv .raw 4096
      if r.ret ≤ 0 then ([], r.buffer)
      else
        let (chunks, b') := drainRaw fuel r.buffer
        (r.out :: chunks, b')

theorem recv_raw_ret (b : RecvBuffer) : (b.recv .raw 4096).ret ≤ 0 ↔ b.unread = [] := by
  simp only [RecvBuffer.recv]
  split
  · rename_i hempty
    exact ⟨fun _ => List.eq_nil_of_length_eq_zero hempty, fun _ => Int.le_refl 0⟩
  · rename_i hsome
    have hmin : min b.unread.length 4096 ≤ intMax := by
      unfold intMax
      omega
    dsimp only
    rw [toInt_of_le hmin]
    constructor
    · intro h
      omega
    · intro h
      rw [h] at hsome
      exact absurd rfl hsome

/-- The loop takes everything there is. -/
theorem drainRaw_spec {b : RecvBuffer} (hfuel : b.unread.length < fuel) :
    (drainRaw fuel b).1.flatten = b.unread ∧ (drainRaw fuel b).2.unread = [] := by
  induction fuel generalizing b with
  | zero => omega
  | succ fuel ih =>
    obtain ⟨hout, hbuf⟩ := recv_raw b 4096 (by decide)
    simp only [drainRaw]
    split
    · rename_i hret
      have hempty := (recv_raw_ret b).mp hret
      rw [hempty] at hbuf ⊢
      exact ⟨rfl, hbuf⟩
    · rename_i hret
      have hsome : b.unread ≠ [] := fun h => hret ((recv_raw_ret b).mpr h)
      have hpos := List.length_pos_of_ne_nil hsome
      have hshort : (b.recv .raw 4096).buffer.unread.length < fuel := by
        rw [hbuf, List.length_drop]
        omega
      obtain ⟨hall, hleft⟩ := ih hshort
      dsimp only
      rw [List.flatten_cons, hall, hout, hbuf]
      exact ⟨List.take_append_drop 4096 b.unread, hleft⟩

/-- The reads of one `onReadable`, and what the handler's loop then takes. -/
def receive (b : RecvBuffer) (reads : List Bytes) : List Bytes × RecvBuffer :=
  let b := reads.foldl RecvBuffer.arrive b
  drainRaw (b.unread.length + 1) b

theorem unread_arrivals (b : RecvBuffer) (reads : List Bytes) :
    (reads.foldl RecvBuffer.arrive b).unread = b.unread ++ reads.flatten := by
  induction reads generalizing b with
  | nil => simp
  | cons chunk reads ih =>
    rw [List.foldl_cons, ih, RecvBuffer.unread_arrive, List.flatten_cons, List.append_assoc]

theorem receive_spec (b : RecvBuffer) (reads : List Bytes) :
    (receive b reads).1.flatten = b.unread ++ reads.flatten ∧ (receive b reads).2.unread = [] := by
  rw [← unread_arrivals]
  exact drainRaw_spec (Nat.lt_succ_self _)

theorem unread_feeds (c : StunConn) (chunks : List Bytes) :
    (chunks.foldl StunConn.feed c).unread = c.unread ++ chunks.flatten := by
  induction chunks generalizing c with
  | nil => simp
  | cons chunk chunks ih =>
    rw [List.foldl_cons, ih, StunConn.unread_feed, List.flatten_cons, List.append_assoc]

/-! ## The control connection -/

/-- The transport and the parser of a relay entry with a TURN client over TCP, and what
each call has done. `isOpen` is false once `turnTcp` has been reset. -/
structure TurnTcp where
  isOpen : Bool
  transport : RecvBuffer
  turnTcpConn : StunConn
  calls : List (List Action)

def TurnTcp.start : TurnTcp := ⟨true, .empty, .empty, []⟩

/-- The loop over the frames, with the pointer `frame` as the last pass left it: invalid
data does not set it, and `!frame` is tested before `SIZE_MAX`. The Boolean says whether
the connection is still open. -/
def drainFrames : Nat → Option Bytes → StunConn → List Action × StunConn × Bool
  | 0, _, c => ([], c, true)
  | fuel + 1, frame, c =>
      match c.readFrame with
      | (.none, c) => ([], c, true)
      | (.invalid, c) =>
          if frame.isNone then ([.invalid], c, true) else ([.invalid, .fail], c, false)
      | (.frame f, c) =>
          let (actions, c, isOpen) := drainFrames fuel (some f) c
          (.handleInbound f :: actions, c, isOpen)

def TurnTcp.handleInboundTurnTcp (s : TurnTcp) (reads : List Bytes) : TurnTcp :=
  if s.isOpen then
    let (chunks, b) := receive s.transport reads
    let conn := chunks.foldl StunConn.feed s.turnTcpConn
    let (actions, conn, isOpen) := drainFrames (conn.unread.length + 1) none conn
    ⟨isOpen, b, conn, s.calls ++ [actions]⟩
  else s

/-! ## The data connection -/

/-- A CONNECTION-BIND success response. -/
def isBindSuccess (frame : Bytes) : Bool :=
  Stun.isMessage frame &&
    match Stun.decode frame with
    | none => false
    | some m => Agent.isResponseType m.cls && m.cls ≠ .errorResponse && m.method = .connectionBind

/-- `turnDataConn_`, and what each call has done. -/
structure DataConn where
  bound : Bool
  transport : RecvBuffer
  stunConn : StunConn
  rfc4571Buf : Bytes
  calls : List (List Action)

def DataConn.start : DataConn := ⟨false, .empty, .empty, [], []⟩

/-- Phase 1. `frame` is null at the start of every pass, so invalid data always ends the
loop at `!frame` and the branch that closes the transport is never taken. The Boolean
says whether the bind is answered. -/
def awaitBind : Nat → StunConn → List Action × StunConn × Bool
  | 0, c => ([], c, false)
  | fuel + 1, c =>
      match c.readFrame with
      | (.none, c) => ([], c, false)
      | (.invalid, c) => ([.invalid], c, false)
      | (.frame f, c) => if isBindSuccess f then ([.bind], c, true) else awaitBind fuel c

/-- Phase 2: the payloads of the complete frames, and the bytes that stay. -/
def cutFrames : Nat → Bytes → List Bytes × Bytes
  | 0, buf => ([], buf)
  | fuel + 1, buf =>
      if 2 ≤ buf.length then
        let len := headLength buf
        if buf.length - 2 < len then ([], buf)
        else
          let (payloads, rest) := cutFrames fuel (buf.drop (2 + len))
          (slice buf 2 len :: payloads, rest)
      else ([], buf)

/-- The bytes `recv` returned go to the parser of the current phase. -/
def DataConn.feed (s : DataConn) (chunks : List Bytes) (b : RecvBuffer) : DataConn :=
  if s.bound then { s with transport := b, rfc4571Buf := s.rfc4571Buf ++ chunks.flatten }
  else { s with transport := b, stunConn := chunks.foldl StunConn.feed s.stunConn }

/-- Phase 1. `takeBuffered` hands what follows the response to the tunnel. -/
def DataConn.readBind (s : DataConn) : List Action × DataConn :=
  if s.bound then ([], s)
  else
    match awaitBind (s.stunConn.unread.length + 1) s.stunConn with
    | (actions, c, true) =>
        (actions, { s with bound := true, stunConn := .empty,
                           rfc4571Buf := s.rfc4571Buf ++ c.unread })
    | (actions, c, false) => (actions, { s with stunConn := c })

def DataConn.handleInboundTurnDataTcp (s : DataConn) (reads : List Bytes) : DataConn :=
  let (chunks, b) := receive s.transport reads
  let (actions, s) := (s.feed chunks b).readBind
  if s.bound then
    let (payloads, rest) := cutFrames (s.rfc4571Buf.length + 1) s.rfc4571Buf
    { s with rfc4571Buf := rest
             calls := s.calls ++ [actions ++ payloads.map .handleInboundUdp] }
  else { s with calls := s.calls ++ [actions] }

/-! ## Corrupt streams -/

/-- A call that meets invalid data fails the connection, and no frame is passed on after
the first invalid byte. -/
def Detected (calls : List (List Action)) : Prop :=
  (∀ call ∈ calls, Action.invalid ∈ call → Action.fail ∈ call) ∧
    calls.flatten.Pairwise fun a b => a = .invalid → b.dispatches = false

/-- What the handler has to parse: the bytes it holds and those that have arrived. -/
def TurnTcp.pending (s : TurnTcp) (reads : List Bytes) : Bytes :=
  s.turnTcpConn.unread ++ (s.transport.unread ++ reads.flatten)

/-- While the connection is open, no call begins at invalid data. -/
def HeadValid (s : TurnTcp) (reads : List Bytes) : Prop :=
  s.isOpen = true → consumeSingleTurnFrame (s.pending reads) ≠ .invalid

/-- The frames before a CONNECTION-BIND response are followed by invalid data. -/
def MeetsInvalid (s : Bytes) : Prop :=
  ∃ (frames : List Bytes) (rest : Bytes), turnFramer.Parses s (frames.map .frame) rest ∧
    (∀ f ∈ frames, isBindSuccess f = false) ∧ consumeSingleTurnFrame rest = .invalid

def DataConn.pending (s : DataConn) (reads : List Bytes) : Bytes :=
  s.stunConn.unread ++ (s.transport.unread ++ reads.flatten)

/-- Before the bind is answered, no call meets invalid data. -/
def PreambleValid (s : DataConn) (reads : List Bytes) : Prop :=
  s.bound = false → ¬ MeetsInvalid (s.pending reads)

theorem readFrame_invalid (h : consumeSingleTurnFrame c.unread = .invalid) :
    c.readFrame.1 = .invalid := by
  have hcut : turnFramer.cut c.unread = some (1, .invalid) := by
    simp [turnFramer, cutTurnFrame, h]
  exact (StunConn.readFrame_of_cut_some hcut).1

theorem consume_of_readFrame_invalid (h : c.readFrame.1 = .invalid) :
    consumeSingleTurnFrame c.unread = .invalid := by
  cases hcut : turnFramer.cut c.unread with
  | none =>
    rw [StunConn.readFrame_of_cut_none hcut] at h
    cases h
  | some x =>
    rw [(StunConn.readFrame_of_cut_some hcut).1] at h
    simp only [turnFramer, cutTurnFrame] at hcut
    split at hcut
    · cases hcut
    · assumption
    · cases hcut
      cases h

theorem cut_of_readFrame {c c' : StunConn} {f : Bytes} (h : c.readFrame = (.frame f, c')) :
    ∃ n, turnFramer.cut c.unread = some (n, .frame f) ∧ c'.unread = c.unread.drop n := by
  cases hcut : turnFramer.cut c.unread with
  | none =>
    rw [StunConn.readFrame_of_cut_none hcut] at h
    cases h
  | some x =>
    obtain ⟨n, r⟩ := x
    obtain ⟨hresult, -, hunread⟩ := StunConn.readFrame_of_cut_some hcut
    rw [h] at hresult hunread
    subst hresult
    exact ⟨n, rfl, hunread⟩

/-- Frames passed on, and at most one piece of invalid data, at which the connection fails. -/
def Orderly (actions : List Action) (isOpen : Bool) : Prop :=
  ∃ frames : List Bytes,
    (isOpen = true ∧ actions = frames.map .handleInbound) ∨
      (isOpen = false ∧ actions = frames.map .handleInbound ++ [.invalid, .fail])

theorem Orderly.cons {actions : List Action} {isOpen : Bool} (h : Orderly actions isOpen)
    (f : Bytes) : Orderly (.handleInbound f :: actions) isOpen := by
  obtain ⟨frames, ⟨ho, rfl⟩ | ⟨ho, rfl⟩⟩ := h
  · exact ⟨f :: frames, .inl ⟨ho, rfl⟩⟩
  · exact ⟨f :: frames, .inr ⟨ho, rfl⟩⟩

theorem Orderly.fails {isOpen : Bool} (h : Orderly actions isOpen)
    (hinvalid : Action.invalid ∈ actions) : Action.fail ∈ actions := by
  obtain ⟨frames, ⟨-, rfl⟩ | ⟨-, rfl⟩⟩ := h
  · simp at hinvalid
  · simp

theorem Orderly.pairwise {isOpen : Bool} (h : Orderly actions isOpen) :
    actions.Pairwise fun a b => a = .invalid → b.dispatches = false := by
  obtain ⟨frames, ⟨-, rfl⟩ | ⟨-, rfl⟩⟩ := h
  · induction frames with
    | nil => exact .nil
    | cons f frames ih => exact .cons (fun _ _ h => nomatch h) ih
  · induction frames with
    | nil => simp [Action.dispatches]
    | cons f frames ih => exact .cons (fun _ _ h => nomatch h) ih

/-- Once a frame has been read, invalid data is noticed. -/
theorem drainFrames_some (fuel : Nat) (f : Bytes) (c : StunConn) :
    Orderly (drainFrames fuel (some f) c).1 (drainFrames fuel (some f) c).2.2 := by
  induction fuel generalizing f c with
  | zero => exact ⟨[], .inl ⟨rfl, rfl⟩⟩
  | succ fuel ih =>
    unfold drainFrames
    split
    · exact ⟨[], .inl ⟨rfl, rfl⟩⟩
    · exact ⟨[], .inr ⟨rfl, rfl⟩⟩
    · rename_i g c' _
      exact (ih g c').cons g

theorem drainFrames_none {fuel : Nat} {c : StunConn}
    (h : consumeSingleTurnFrame c.unread ≠ .invalid) :
    Orderly (drainFrames fuel none c).1 (drainFrames fuel none c).2.2 := by
  cases fuel with
  | zero => exact ⟨[], .inl ⟨rfl, rfl⟩⟩
  | succ fuel =>
    unfold drainFrames
    split
    · exact ⟨[], .inl ⟨rfl, rfl⟩⟩
    · rename_i hread
      exact absurd (consume_of_readFrame_invalid (by rw [hread])) h
    · rename_i f c' _
      exact (drainFrames_some fuel f c').cons f

/-- Invalid data at the head is read over: the loop ends, and the connection stays open. -/
theorem drainFrames_head (h : consumeSingleTurnFrame c.unread = .invalid) :
    (drainFrames (fuel + 1) none c).1 = [.invalid] := by
  have hread : c.readFrame = (.invalid, c.readFrame.2) := Prod.ext (readFrame_invalid h) rfl
  unfold drainFrames
  rw [hread]
  rfl

/-! ### Whole runs -/

theorem calls_turnTcp (s : TurnTcp) (l : List (List Bytes)) :
    s.calls <+: (l.foldl TurnTcp.handleInboundTurnTcp s).calls := by
  induction l generalizing s with
  | nil => exact List.prefix_rfl
  | cons reads l ih =>
    refine List.IsPrefix.trans ?_ (ih _)
    unfold TurnTcp.handleInboundTurnTcp
    split
    · exact List.prefix_append _ _
    · exact List.prefix_rfl

/-- The call, while the connection is open. -/
theorem handleInboundTurnTcp_calls {s : TurnTcp} (ho : s.isOpen = true) (reads : List Bytes) :
    ∃ (fuel : Nat) (c : StunConn), c.unread = s.pending reads ∧
      (s.handleInboundTurnTcp reads).calls = s.calls ++ [(drainFrames (fuel + 1) none c).1] ∧
      (s.handleInboundTurnTcp reads).isOpen = (drainFrames (fuel + 1) none c).2.2 := by
  have hconn := unread_feeds s.turnTcpConn (receive s.transport reads).1
  rw [(receive_spec s.transport reads).1] at hconn
  generalize hc : (receive s.transport reads).1.foldl StunConn.feed s.turnTcpConn = c at hconn
  refine ⟨c.unread.length, c, hconn, ?_, ?_⟩ <;>
    simp only [TurnTcp.handleInboundTurnTcp, ho, ↓reduceIte, hc]

/-- What good calls leave. -/
def TurnTcp.Sound (s : TurnTcp) : Prop :=
  (∀ call ∈ s.calls, Action.invalid ∈ call → Action.fail ∈ call) ∧
    Orderly s.calls.flatten s.isOpen

theorem TurnTcp.Sound.step {s : TurnTcp} (h : s.Sound) (reads : List Bytes)
    (hvalid : HeadValid s reads) : (s.handleInboundTurnTcp reads).Sound := by
  cases ho : s.isOpen with
  | false =>
    have hsame : s.handleInboundTurnTcp reads = s := by
      simp [TurnTcp.handleInboundTurnTcp, ho]
    rw [hsame]
    exact h
  | true =>
    obtain ⟨fuel, c, hpending, hcalls, hopen⟩ := handleInboundTurnTcp_calls ho reads
    have hvalid := hvalid ho
    rw [← hpending] at hvalid
    have hnew := @drainFrames_none (fuel + 1) c hvalid
    obtain ⟨hfail, frames, ⟨-, hold⟩ | ⟨hclosed, -⟩⟩ := h
    · refine ⟨?_, ?_⟩
      · rw [hcalls]
        intro call hcall
        rcases List.mem_append.mp hcall with hmem | hmem
        · exact hfail call hmem
        · rw [List.mem_singleton.mp hmem]
          exact hnew.fails
      · rw [hcalls, hopen, List.flatten_append, hold, List.flatten_singleton]
        clear hold
        induction frames with
        | nil => exact hnew
        | cons f frames ih => exact ih.cons f
    · rw [ho] at hclosed
      cases hclosed

/-- The control connection notices invalid data in exactly the runs in which no call
begins with it. -/
theorem turnTcp_detected_iff (calls : List (List Bytes)) :
    Detected (calls.foldl TurnTcp.handleInboundTurnTcp .start).calls ↔
      AllSteps HeadValid TurnTcp.handleInboundTurnTcp .start calls := by
  refine @AllSteps.iff_of_lasting _ _ HeadValid _ TurnTcp.Sound (fun s => Detected s.calls)
    ?_ ?_ ?_ _ ?_ _
  · rintro s ⟨hfail, horder⟩
    exact ⟨hfail, horder.pairwise⟩
  · intro s reads hs hvalid
    exact hs.step reads hvalid
  · intro s reads l _ hinvalid hdetected
    simp only [HeadValid, Classical.not_imp, not_not] at hinvalid
    obtain ⟨ho, hinvalid⟩ := hinvalid
    obtain ⟨fuel, c, hpending, hcalls, -⟩ := handleInboundTurnTcp_calls ho reads
    rw [← hpending] at hinvalid
    have hmem : [Action.invalid] ∈ (s.handleInboundTurnTcp reads).calls := by
      rw [hcalls, drainFrames_head hinvalid]
      exact List.mem_append_right _ (List.mem_singleton_self _)
    have hfail := hdetected.1 _ ((calls_turnTcp _ l).subset hmem) (List.mem_singleton_self _)
    cases List.mem_singleton.mp hfail
  · exact ⟨nofun, [], .inl ⟨rfl, rfl⟩⟩

theorem awaitBind_actions (fuel : Nat) (c : StunConn) :
    (awaitBind fuel c).1 = [] ∨ (awaitBind fuel c).1 = [.bind] ∨
      ((awaitBind fuel c).1 = [.invalid] ∧ (awaitBind fuel c).2.2 = false ∧
        MeetsInvalid c.unread) := by
  induction fuel generalizing c with
  | zero => exact .inl rfl
  | succ fuel ih =>
    unfold awaitBind
    split
    · exact .inl rfl
    · rename_i hread
      refine .inr (.inr ⟨rfl, rfl, [], c.unread, .done _, nofun, ?_⟩)
      exact consume_of_readFrame_invalid (by rw [hread])
    · rename_i f c' hread
      split
      · exact .inr (.inl rfl)
      · rename_i hbind
        -- the frame is skipped: what the rest meets, the whole meets behind the frame
        rcases ih c' with hnone | hbound | ⟨hinvalid, hopen, frames, rest, hparse, hnot, hrest⟩
        · exact .inl hnone
        · exact .inr (.inl hbound)
        · refine .inr (.inr ⟨hinvalid, hopen, f :: frames, rest, ?_, ?_, hrest⟩)
          · obtain ⟨n, hcut, hunread⟩ := cut_of_readFrame hread
            rw [hunread] at hparse
            exact .more hcut hparse
          · intro g hg
            rcases List.mem_cons.mp hg with rfl | hg
            · exact Bool.eq_false_iff.mpr hbind
            · exact hnot g hg

theorem awaitBind_invalid {s : Bytes} (h : MeetsInvalid s) (hc : c.unread = s)
    (hfuel : s.length < fuel) : (awaitBind fuel c).1 = [.invalid] := by
  obtain ⟨frames, rest, hparse, hnot, hrest⟩ := h
  induction frames generalizing s fuel c with
  | nil =>
    cases hparse
    cases fuel with
    | zero => omega
    | succ fuel =>
      rw [← hc] at hrest
      have hread : c.readFrame = (.invalid, c.readFrame.2) :=
        Prod.ext (readFrame_invalid hrest) rfl
      unfold awaitBind
      rw [hread]
  | cons f frames ih =>
    cases hparse with
    | @more _ n _ _ _ hcut hmore =>
      cases fuel with
      | zero => omega
      | succ fuel =>
        subst hc
        obtain ⟨hresult, -, hunread⟩ := StunConn.readFrame_of_cut_some hcut
        have hpos := turnFramer.pos hcut
        have hle := (turnFramer.stable [] hcut).2
        have hshort : (c.unread.drop n).length < fuel := by
          rw [List.length_drop]
          omega
        have hread : c.readFrame = (.frame f, c.readFrame.2) := Prod.ext hresult rfl
        unfold awaitBind
        rw [hread]
        dsimp only
        rw [hnot f List.mem_cons_self]
        exact ih hunread hshort hmore (fun g hg => hnot g (List.mem_cons_of_mem f hg))

/-! ### The data connection, call by call -/

theorem call_bound {s : DataConn} (h : s.bound = true) (reads : List Bytes) :
    ∃ buf, buf = s.rfc4571Buf ++ (s.transport.unread ++ reads.flatten) ∧
      (s.handleInboundTurnDataTcp reads).bound = true ∧
      (s.handleInboundTurnDataTcp reads).transport.unread = [] ∧
      (s.handleInboundTurnDataTcp reads).rfc4571Buf = (cutFrames (buf.length + 1) buf).2 ∧
      (s.handleInboundTurnDataTcp reads).calls =
        s.calls ++ [(cutFrames (buf.length + 1) buf).1.map .handleInboundUdp] := by
  obtain ⟨htaken, hempty⟩ := receive_spec s.transport reads
  refine ⟨_, rfl, ?_⟩
  rw [← htaken]
  simp only [DataConn.handleInboundTurnDataTcp, DataConn.feed, DataConn.readBind, h, ↓reduceIte,
    List.nil_append]
  exact ⟨trivial, hempty, trivial, trivial⟩

theorem call_unbound {s : DataConn} (h : s.bound = false) (reads : List Bytes) :
    ∃ c : StunConn, c.unread = s.pending reads ∧
      (s.handleInboundTurnDataTcp reads).transport.unread = [] ∧
      (((awaitBind (c.unread.length + 1) c).2.2 = false ∧
        (s.handleInboundTurnDataTcp reads).bound = false ∧
        (s.handleInboundTurnDataTcp reads).stunConn = (awaitBind (c.unread.length + 1) c).2.1 ∧
        (s.handleInboundTurnDataTcp reads).rfc4571Buf = s.rfc4571Buf ∧
        (s.handleInboundTurnDataTcp reads).calls =
          s.calls ++ [(awaitBind (c.unread.length + 1) c).1]) ∨
      ((awaitBind (c.unread.length + 1) c).2.2 = true ∧
        ∃ buf, buf = s.rfc4571Buf ++ (awaitBind (c.unread.length + 1) c).2.1.unread ∧
        (s.handleInboundTurnDataTcp reads).bound = true ∧
        (s.handleInboundTurnDataTcp reads).rfc4571Buf = (cutFrames (buf.length + 1) buf).2 ∧
        (s.handleInboundTurnDataTcp reads).calls =
          s.calls ++ [(awaitBind (c.unread.length + 1) c).1 ++
            (cutFrames (buf.length + 1) buf).1.map .handleInboundUdp])) := by
  obtain ⟨htaken, hempty⟩ := receive_spec s.transport reads
  have hconn := unread_feeds s.stunConn (receive s.transport reads).1
  rw [htaken] at hconn
  generalize hc : (receive s.transport reads).1.foldl StunConn.feed s.stunConn = c at hconn
  refine ⟨c, hconn, ?_⟩
  simp only [DataConn.handleInboundTurnDataTcp, DataConn.feed, DataConn.readBind, h, hc,
    Bool.false_eq_true, ↓reduceIte]
  generalize awaitBind (c.unread.length + 1) c = r
  obtain ⟨actions, c', bound⟩ := r
  cases bound with
  | false =>
    dsimp only
    exact ⟨hempty, .inl ⟨rfl, rfl, rfl, rfl, rfl⟩⟩
  | true =>
    dsimp only
    exact ⟨hempty, .inr ⟨rfl, _, rfl, rfl, rfl, rfl⟩⟩

theorem calls_dataConn (s : DataConn) (l : List (List Bytes)) :
    s.calls <+: (l.foldl DataConn.handleInboundTurnDataTcp s).calls := by
  induction l generalizing s with
  | nil => exact List.prefix_rfl
  | cons reads l ih =>
    refine List.IsPrefix.trans ?_ (ih _)
    cases h : s.bound with
    | true =>
      obtain ⟨_, _, -, -, -, hcalls⟩ := call_bound h reads
      rw [hcalls]
      exact List.prefix_append _ _
    | false =>
      obtain ⟨_, _, -, ⟨-, -, -, -, hcalls⟩ | ⟨-, _, _, -, -, hcalls⟩⟩ := call_unbound h reads
      · rw [hcalls]
        exact List.prefix_append _ _
      · rw [hcalls]
        exact List.prefix_append _ _

/-- No call has met invalid data. -/
def DataConn.Clean (s : DataConn) : Prop := ∀ call ∈ s.calls, Action.invalid ∉ call

theorem DataConn.Clean.concat {s t : DataConn} {call : List Action} (h : s.Clean)
    (ht : t.calls = s.calls ++ [call]) (hcall : Action.invalid ∉ call) : t.Clean := by
  intro x hx
  rw [ht] at hx
  rcases List.mem_append.mp hx with hold | hnew
  · exact h x hold
  · rw [List.mem_singleton.mp hnew]
    exact hcall

theorem DataConn.Clean.step {s : DataConn} (h : s.Clean) (reads : List Bytes)
    (hvalid : PreambleValid s reads) : (s.handleInboundTurnDataTcp reads).Clean := by
  cases hb : s.bound with
  | true =>
    obtain ⟨_, _, -, -, -, hcalls⟩ := call_bound hb reads
    exact h.concat hcalls (by simp)
  | false =>
    obtain ⟨c, hpending, -, hcase⟩ := call_unbound hb reads
    have hclean : Action.invalid ∉ (awaitBind (c.unread.length + 1) c).1 := by
      rcases awaitBind_actions (c.unread.length + 1) c with hnone | hbind | ⟨-, -, hmeets⟩
      · simp [hnone]
      · simp [hbind]
      · rw [hpending] at hmeets
        exact absurd hmeets (hvalid hb)
    obtain ⟨-, -, -, -, hcalls⟩ | ⟨-, _, _, -, -, hcalls⟩ := hcase
    · exact h.concat hcalls hclean
    · exact h.concat hcalls (by simp [hclean])

/-- The data connection never fails at invalid data, so it must not meet any. -/
theorem dataConn_detected_iff (calls : List (List Bytes)) :
    Detected (calls.foldl DataConn.handleInboundTurnDataTcp .start).calls ↔
      AllSteps PreambleValid DataConn.handleInboundTurnDataTcp .start calls := by
  refine @AllSteps.iff_of_lasting _ _ PreambleValid _ DataConn.Clean (fun s => Detected s.calls)
    ?_ ?_ ?_ _ ?_ _
  · intro s hs
    refine ⟨fun call hcall hinvalid => absurd hinvalid (hs call hcall), ?_⟩
    rw [List.pairwise_iff_forall_sublist]
    rintro a b hab rfl
    have hmem : Action.invalid ∈ s.calls.flatten := hab.subset List.mem_cons_self
    obtain ⟨call, hcall, hinvalid⟩ := List.mem_flatten.mp hmem
    exact absurd hinvalid (hs call hcall)
  · intro s reads hs hvalid
    exact hs.step reads hvalid
  · intro s reads l _ hmeets hdetected
    simp only [PreambleValid, Classical.not_imp, not_not] at hmeets
    obtain ⟨hb, hmeets⟩ := hmeets
    obtain ⟨c, hpending, -, hcase⟩ := call_unbound hb reads
    have hinvalid := awaitBind_invalid hmeets hpending
      (show (s.pending reads).length < c.unread.length + 1 by rw [hpending]; omega)
    have hmem : [Action.invalid] ∈ (s.handleInboundTurnDataTcp reads).calls := by
      obtain ⟨-, -, -, -, hcalls⟩ | ⟨hbound, -⟩ := hcase
      · rw [hcalls, hinvalid]
        exact List.mem_append_right _ (List.mem_singleton_self _)
      · rcases awaitBind_actions (c.unread.length + 1) c with h | h | ⟨-, hopen, -⟩
        · rw [hinvalid] at h
          cases h
        · rw [hinvalid] at h
          cases h
        · rw [hopen] at hbound
          cases hbound
    have hfail := hdetected.1 _ ((calls_dataConn _ l).subset hmem) (List.mem_singleton_self _)
    cases List.mem_singleton.mp hfail
  · exact nofun

/-- Both handlers, for any stream and any calls: the control connection notices corrupt data
exactly if no call begins with it, the data connection exactly if there is none. -/
theorem corrupt_stream_detected (calls : List (List Bytes)) :
    (Detected (calls.foldl TurnTcp.handleInboundTurnTcp .start).calls ↔
      AllSteps HeadValid TurnTcp.handleInboundTurnTcp .start calls) ∧
    (Detected (calls.foldl DataConn.handleInboundTurnDataTcp .start).calls ↔
      AllSteps PreambleValid DataConn.handleInboundTurnDataTcp .start calls) :=
  ⟨turnTcp_detected_iff calls, dataConn_detected_iff calls⟩

/-- A byte that starts no frame, then a ChannelData message whose last byte comes later: the
byte is read over and the message passed on. -/
theorem corrupt_stream_read_over :
    ([[[0xff, 0x40, 0x00, 0x00]], [[0x00]]].foldl TurnTcp.handleInboundTurnTcp .start).calls =
      [[.invalid], [.handleInbound [0x40, 0x00, 0x00, 0x00]]] ∧
    ¬ Detected ([[[0xff, 0x40, 0x00, 0x00]], [[0x00]]].foldl
      TurnTcp.handleInboundTurnTcp .start).calls ∧
    ¬ Detected ([[[0xff, 0x40, 0x00, 0x00]]].foldl
      DataConn.handleInboundTurnDataTcp .start).calls := by
  unfold Detected
  decide +kernel

/-! ## The tunnel -/

theorem cutFrames_spec {s rest : Bytes} {ps : List Bytes} (h : framer.Parses s ps rest)
    (hrest : framer.cut rest = none) (hfuel : s.length < fuel) : cutFrames fuel s = (ps, rest) := by
  induction h generalizing fuel with
  | done s =>
    cases fuel with
    | zero => omega
    | succ fuel =>
      simp only [framer, cutFrame] at hrest
      simp only [cutFrames]
      split
      · rename_i hhead
        rw [if_neg (by omega)] at hrest
        split at hrest
        · rw [if_pos (by omega)]
        · cases hrest
      · rfl
  | @more s n p ps rest hcut _ ih =>
    cases fuel with
    | zero => omega
    | succ fuel =>
      obtain ⟨hhead, hlen, rfl, rfl⟩ := cutFrame_eq_some hcut
      have hshort : (s.drop (2 + headLength s)).length < fuel := by
        rw [List.length_drop]
        omega
      simp only [cutFrames]
      rw [if_pos hhead, if_neg (by omega), ih hrest hshort]

/-- The payloads passed to `handleInboundUdp`. -/
def DataConn.handed (s : DataConn) : List Bytes :=
  s.calls.flatten.filterMap fun
    | .handleInboundUdp payload => some payload
    | _ => none

theorem handed_concat {s t : DataConn} {ps : List Bytes}
    (h : t.calls = s.calls ++ [actions ++ ps.map .handleInboundUdp])
    (hactions : actions = [] ∨ actions = [.bind]) : t.handed = s.handed ++ ps := by
  have hmap : (ps.map Action.handleInboundUdp).filterMap
      (fun | .handleInboundUdp payload => some payload | _ => none) = ps := by
    rw [List.filterMap_map]
    exact List.filterMap_some
  rw [DataConn.handed, h, List.flatten_append, List.filterMap_append, List.flatten_singleton,
    List.filterMap_append, hmap]
  rcases hactions with rfl | rfl <;> rfl

/-- A response that is a frame of its own. -/
def IsBindResponse (response : Bytes) : Prop :=
  consumeSingleTurnFrame response = .frame response.length ∧ isBindSuccess response = true

theorem IsBindResponse.cut {response : Bytes} (h : IsBindResponse response) (rest : Bytes) :
    turnFramer.cut (response ++ rest) = some (response.length, .frame response) := by
  have hcut : turnFramer.cut response = some (response.length, .frame response) := by
    simp [turnFramer, cutTurnFrame, h.1]
  exact (turnFramer.stable rest hcut).1

/-- Until it is whole, the response is waited for. -/
theorem IsBindResponse.cut_part {response s : Bytes} (h : IsBindResponse response)
    (hs : s <+: response) (hlt : s.length < response.length) : turnFramer.cut s = none := by
  obtain ⟨rest, rfl⟩ := hs
  cases hcut : turnFramer.cut s with
  | none => rfl
  | some x =>
    obtain ⟨hstable, hle⟩ := turnFramer.stable rest hcut
    have hwhole := h.cut []
    rw [List.append_nil, hstable] at hwhole
    have hsize : x.1 = (s ++ rest).length := congrArg Prod.fst (Option.some.inj hwhole)
    omega

theorem awaitBind_part (h : turnFramer.cut c.unread = none) :
    awaitBind (fuel + 1) c = ([], c, false) := by
  unfold awaitBind
  rw [StunConn.readFrame_of_cut_none h]

theorem awaitBind_response {response rest : Bytes} (h : IsBindResponse response) {fuel : Nat}
    {c : StunConn} (hc : c.unread = response ++ rest) :
    (awaitBind (fuel + 1) c).1 = [.bind] ∧ (awaitBind (fuel + 1) c).2.2 = true ∧
      (awaitBind (fuel + 1) c).2.1.unread = rest := by
  have hcut := h.cut rest
  rw [← hc] at hcut
  obtain ⟨hresult, -, hunread⟩ := StunConn.readFrame_of_cut_some hcut
  have hread : c.readFrame = (.frame response, c.readFrame.2) := Prod.ext hresult rfl
  unfold awaitBind
  rw [hread]
  dsimp only
  rw [if_pos h.2]
  refine ⟨rfl, rfl, ?_⟩
  dsimp only
  rw [hunread, hc, List.drop_left]

/-- After the bytes `arrived`: either a part of the response has come and is kept, or the
frames behind it have been cut. -/
def Tunnels (response arrived : Bytes) (s : DataConn) : Prop :=
  s.transport.unread = [] ∧
    ((s.bound = false ∧ s.stunConn.unread = arrived ∧ s.rfc4571Buf = [] ∧ s.handed = [] ∧
        arrived.length < response.length) ∨
      (s.bound = true ∧ ∃ body, arrived = response ++ body ∧
        framer.Parses body s.handed s.rfc4571Buf ∧ framer.cut s.rfc4571Buf = none))

theorem Tunnels.step {response arrived : Bytes} {s : DataConn} (hr : IsBindResponse response)
    (h : Tunnels response arrived s) (reads : List Bytes)
    (hstream : arrived ++ reads.flatten <+: response ∨ response <+: arrived ++ reads.flatten) :
    Tunnels response (arrived ++ reads.flatten) (s.handleInboundTurnDataTcp reads) := by
  obtain ⟨hempty, ⟨hb, hconn, hbuf, hhanded, hshort⟩ | ⟨hb, body, rfl, hparse, hwait⟩⟩ := h
  · obtain ⟨c, hpending, hempty', hcase⟩ := call_unbound hb reads
    rw [DataConn.pending, hconn, hempty, List.nil_append] at hpending
    refine ⟨hempty', ?_⟩
    by_cases hlong : response.length ≤ (arrived ++ reads.flatten).length
    · -- the response is whole now
      have hprefix : response <+: arrived ++ reads.flatten := by
        rcases hstream with hpart | hwhole
        · exact (hpart.eq_of_length_le hlong) ▸ List.prefix_rfl
        · exact hwhole
      obtain ⟨body, hbody⟩ := hprefix
      obtain ⟨hactions, hbound, hrest⟩ :=
        @awaitBind_response _ _ hr c.unread.length c (hpending.trans hbody.symm)
      obtain ⟨hnot, -⟩ | ⟨-, buf, hbuf', hbound', hleft, hcalls⟩ := hcase
      · rw [hbound] at hnot
        cases hnot
      · rw [hbuf, hrest, List.nil_append] at hbuf'
        subst hbuf'
        obtain ⟨ps, rest, hparse, hwait⟩ := framer.exists_parses buf
        rw [cutFrames_spec hparse hwait (Nat.lt_succ_self _)] at hleft hcalls
        refine .inr ⟨hbound', buf, hbody.symm, ?_, ?_⟩
        · rw [handed_concat hcalls (.inr hactions), hhanded, hleft]
          exact hparse
        · rw [hleft]
          exact hwait
    · -- a part of it is still missing
      have hpart : arrived ++ reads.flatten <+: response := by
        rcases hstream with hpart | hwhole
        · exact hpart
        · exact absurd hwhole.length_le hlong
      have hcut : turnFramer.cut c.unread = none := by
        rw [hpending]
        exact hr.cut_part hpart (by omega)
      rw [awaitBind_part hcut] at hcase
      obtain ⟨-, hbound, hconn', hbuf', hcalls⟩ | ⟨hnot, -⟩ := hcase
      · have hnone : (s.handleInboundTurnDataTcp reads).handed = s.handed ++ [] :=
          handed_concat hcalls (.inl rfl)
        refine .inl ⟨hbound, by rw [hconn', hpending], by rw [hbuf', hbuf], ?_, by omega⟩
        rw [hnone, hhanded, List.append_nil]
      · cases hnot
  · obtain ⟨buf, hbuf, hbound, hempty', hleft, hcalls⟩ := call_bound hb reads
    rw [hempty, List.nil_append] at hbuf
    obtain ⟨ps, rest, hmore, hrest⟩ := framer.exists_parses buf
    rw [cutFrames_spec hmore hrest (Nat.lt_succ_self _)] at hleft hcalls
    refine ⟨hempty', .inr ⟨hbound, body ++ reads.flatten, List.append_assoc _ _ _, ?_, ?_⟩⟩
    · have hnew : (s.handleInboundTurnDataTcp reads).handed = s.handed ++ ps := by
        have hcalls' : (s.handleInboundTurnDataTcp reads).calls =
            s.calls ++ [[] ++ ps.map .handleInboundUdp] := by
          rw [hcalls, List.nil_append]
        exact handed_concat hcalls' (.inl rfl)
      rw [hnew, hleft]
      have hsofar := hparse.append reads.flatten
      rw [← hbuf] at hsofar
      exact hsofar.trans hmore
    · rw [hleft]
      exact hrest

theorem Tunnels.run {response stream : Bytes} (hr : IsBindResponse response)
    (calls : List (List Bytes)) {arrived : Bytes} {s : DataConn} (h : Tunnels response arrived s)
    (hstream : arrived ++ calls.flatten.flatten <+: response ++ stream) :
    Tunnels response (arrived ++ calls.flatten.flatten)
      (calls.foldl DataConn.handleInboundTurnDataTcp s) := by
  induction calls generalizing arrived s with
  | nil => simpa using h
  | cons reads calls ih =>
    rw [List.flatten_cons, List.flatten_append, ← List.append_assoc] at hstream ⊢
    have hsofar := (List.prefix_append _ _).trans hstream
    have hstep := h.step hr reads
      (List.prefix_or_prefix_of_prefix hsofar (List.prefix_append response stream))
    exact ih hstep hstream

/-- However the bytes of a data connection are cut into calls and reads, the payloads handed
on are those of the complete frames behind the CONNECTION-BIND response. -/
theorem tunnel_hands_complete_frames (response tail : Bytes) (payloads : List Bytes)
    (hresponse : IsBindResponse response) (hpayloads : ∀ p ∈ payloads, Fits p)
    (htail : framer.cut tail = none) (calls : List (List Bytes))
    (harrived : calls.flatten.flatten <+:
      response ++ ((payloads.map (frame .rfc4571)).flatten ++ tail)) :
    (calls.foldl DataConn.handleInboundTurnDataTcp .start).handed =
      complete payloads (calls.flatten.flatten.length - response.length) := by
  have hpos : 0 < response.length := (size_le_of_frame hresponse.1).1
  have hrun := @Tunnels.run response _ hresponse calls [] .start
    ⟨rfl, .inl ⟨rfl, rfl, rfl, rfl, hpos⟩⟩ harrived
  rw [List.nil_append] at hrun
  obtain ⟨-, ⟨-, -, -, hnone, hshort⟩ | ⟨-, body, hbody, hparse, hwait⟩⟩ := hrun
  · rw [hnone, show calls.flatten.flatten.length - response.length = 0 by omega]
    cases payloads with
    | nil => rfl
    | cons p ps => rw [complete, if_neg (by omega)]
  · rw [hbody] at harrived
    have hframes := (List.prefix_append_right_inj _).mp harrived
    obtain ⟨rest, hall, hrest⟩ := parses_complete hpayloads htail hframes
    rw [(hparse.unique hwait hall hrest).1, hbody, List.length_append, Nat.add_sub_cancel_left]

/-- A response without attributes, an empty frame, one with a byte and the head of a third, in
two calls. -/
theorem tunnel_hands_two_frames :
    let response : Bytes :=
      [0x01, 0x0b, 0, 0, 0x21, 0x12, 0xa4, 0x42, 0, 1, 2, 3, 4, 5, 6, 7, 8, 9, 10, 11]
    ([[response.take 7], [response.drop 7 ++ [0, 0, 0, 1, 9], [0, 5, 7]]].foldl
      DataConn.handleInboundTurnDataTcp .start).handed = [[], [9]] := by
  intro response
  exact tunnel_hands_complete_frames response [0, 5, 7] [[], [9]]
    ⟨by decide +kernel, by decide +kernel⟩ (by simp [Fits]) (by decide)
    [[response.take 7], [response.drop 7 ++ [0, 0, 0, 1, 9], [0, 5, 7]]] (by decide)

end Stice.Ice.Inbound
