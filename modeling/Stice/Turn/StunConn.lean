import Stice.Lib.Framer
import Stice.Turn.ChannelData
import Stice.Stun.RoundTrip

/-! The self-delimiting STUN/ChannelData stream parser of TURN over TCP
(`turn/stunconn.hpp`, `turn/stunconn.cpp`). The lazily compacted buffer is a
representation of the unread suffix of the stream, and on that suffix the parser
is a framer: chunking and the times of the reads do not show in the results. -/
namespace Stice.Turn
open Lib

variable {s : StunConn × List ReadResult} {stream : Bytes}

inductive Consumed
  | incomplete
  | invalid
  | frame (size : Nat)
  deriving DecidableEq, Repr

/-- A frame of `frameSize` bytes is complete once that many are there. -/
def whenComplete (size frameSize : Nat) : Consumed :=
  if size < frameSize then .incomplete else .frame frameSize

/-- On TCP, ChannelData is padded to a 4-byte boundary. -/
def paddedFrameSize (frameSize : Nat) : Nat :=
  let padding := frameSize % 4
  if padding ≠ 0 then frameSize + (4 - padding) else frameSize

/-- What stands at the head of `buf`: the source returns 0 for `incomplete` and
`SIZE_MAX` for `invalid`. -/
def consumeSingleTurnFrame (buf : Bytes) : Consumed :=
  if buf.length < 4 then .incomplete
  else if byteAt buf 0 < 0x40 then
    if buf.length < 8 then .incomplete
    else if readU32Be buf 4 ≠ Stun.magicCookie then .invalid
    else whenComplete buf.length (Stun.messageHeaderSize + (readU16Be buf 2).toNat)
  else if channelMin ≤ readU16Be buf 0 ∧ readU16Be buf 0 ≤ channelMax then
    whenComplete buf.length (paddedFrameSize (channelDataHeaderSize + (readU16Be buf 2).toNat))
  else .invalid

theorem whenComplete_eq_frame {size frameSize n : Nat}
    (h : whenComplete size frameSize = .frame n) :
    n = frameSize ∧ n ≤ size := by
  unfold whenComplete at h
  split at h
  · cases h
  · injection h with h
    omega

theorem whenComplete_add {size frameSize : Nat} (h : whenComplete size frameSize ≠ .incomplete)
    (more : Nat) : whenComplete (size + more) frameSize = whenComplete size frameSize := by
  unfold whenComplete at *
  split at h
  · exact absurd rfl h
  · rename_i hsize
    rw [if_neg hsize, if_neg (by omega)]

theorem le_paddedFrameSize (n : Nat) : n ≤ paddedFrameSize n := by
  simp only [paddedFrameSize]
  split <;> omega

theorem paddedFrameSize_header (n : Nat) : paddedFrameSize (4 + n) = 4 + paddedSize n := by
  simp only [paddedFrameSize, paddedSize]
  split <;> omega

/-- `consumed` never passes the end of the buffer. -/
structure StunConn where
  buf : Bytes
  consumed : Nat
  le : consumed ≤ buf.length

namespace StunConn

theorem zero_le_length_nil : 0 ≤ ([] : Bytes).length := Nat.zero_le _

def empty : StunConn := ⟨[], 0, zero_le_length_nil⟩

def unread (c : StunConn) : Bytes := c.buf.drop c.consumed

def feed (c : StunConn) (data : Bytes) : StunConn :=
  if data.isEmpty then c
  else if 0 < c.consumed ∧ c.buf.length / 2 ≤ c.consumed then
    ⟨c.buf.drop c.consumed ++ data, 0, Nat.zero_le _⟩
  else ⟨c.buf ++ data, c.consumed, by rw [List.length_append]; have := c.le; omega⟩

end StunConn

theorem size_le_of_frame {buf : Bytes} {n : Nat} (h : consumeSingleTurnFrame buf = .frame n) :
    0 < n ∧ n ≤ buf.length := by
  simp only [consumeSingleTurnFrame] at h
  split at h
  · cases h
  · split at h
    · split at h
      · cases h
      · split at h
        · cases h
        · obtain ⟨rfl, hle⟩ := whenComplete_eq_frame h
          exact ⟨by simp only [Stun.messageHeaderSize]; omega, hle⟩
    · split at h
      · obtain ⟨rfl, hle⟩ := whenComplete_eq_frame h
        have := le_paddedFrameSize (channelDataHeaderSize + (readU16Be buf 2).toNat)
        exact ⟨by simp only [channelDataHeaderSize] at *; omega, hle⟩
      · cases h

/-- What `readFrame` reports: nothing, invalid data, or a frame. -/
inductive ReadResult
  | none
  | invalid
  | frame (data : Bytes)
  deriving DecidableEq, Repr

namespace StunConn

def readFrame (c : StunConn) : ReadResult × StunConn :=
  if hend : c.buf.length ≤ c.consumed then (.none, c)
  else
    match hframe : consumeSingleTurnFrame (c.buf.drop c.consumed) with
    | .incomplete => (.none, c)
    | .invalid => (.invalid, ⟨c.buf, c.consumed + 1, by omega⟩)
    | .frame n => (.frame ((c.buf.drop c.consumed).take n), ⟨c.buf, c.consumed + n, by
        have := (size_le_of_frame hframe).2
        rw [List.length_drop] at this
        omega⟩)

end StunConn

/-! ## The parser is a framer -/

/-- The head `readFrame` removes from the unread bytes. -/
def cutTurnFrame (s : Bytes) : Option (Nat × ReadResult) :=
  match consumeSingleTurnFrame s with
  | .incomplete => none
  | .invalid => some (1, .invalid)
  | .frame n => some (n, .frame (s.take n))

/-- Once the head is decided, more bytes do not change the decision. -/
theorem consumeSingleTurnFrame_append {s : Bytes}
    (h : consumeSingleTurnFrame s ≠ .incomplete) (t : Bytes) :
    consumeSingleTurnFrame (s ++ t) = consumeSingleTurnFrame s := by
  have hlen : ¬ s.length < 4 := by
    intro hs
    exact h (by simp [consumeSingleTurnFrame, hs])
  have happ : (s ++ t).length = s.length + t.length := List.length_append
  have h0 := byteAt_append (show 0 < s.length by omega) t
  have h2 := readU16Be_append (show 2 + 2 ≤ s.length by omega) t
  have hc := readU16Be_append (show 0 + 2 ≤ s.length by omega) t
  simp only [consumeSingleTurnFrame, h0, h2, hc, happ] at h ⊢
  rw [if_neg (show ¬ s.length + t.length < 4 by omega), if_neg hlen]
  rw [if_neg hlen] at h
  split
  · rename_i hstun
    rw [if_pos hstun] at h
    have h8 : ¬ s.length < 8 := by
      intro hs
      exact h (by simp [hs])
    rw [if_neg h8] at h
    rw [if_neg (show ¬ s.length + t.length < 8 by omega), if_neg h8,
      readU32Be_append (show 4 + 4 ≤ s.length by omega)]
    split
    · rfl
    · rename_i hcookie
      rw [if_neg hcookie] at h
      exact whenComplete_add h t.length
  · rename_i hstun
    rw [if_neg hstun] at h
    split
    · rename_i hchannel
      rw [if_pos hchannel] at h
      exact whenComplete_add h t.length
    · rfl

def turnFramer : Framer UInt8 ReadResult where
  cut := cutTurnFrame
  pos := by
    intro s n r h
    simp only [cutTurnFrame] at h
    split at h
    · cases h
    · cases h
      omega
    · rename_i hframe
      cases h
      exact (size_le_of_frame hframe).1
  stable := by
    intro s n r t h
    simp only [cutTurnFrame] at h ⊢
    have hdecided : consumeSingleTurnFrame s ≠ .incomplete := by
      intro hs
      simp [hs] at h
    rw [consumeSingleTurnFrame_append hdecided]
    split at h
    · cases h
    · rename_i hinvalid
      cases h
      refine ⟨rfl, ?_⟩
      cases s with
      | nil => simp [consumeSingleTurnFrame] at hinvalid
      | cons b s => simp
    · rename_i hframe
      cases h
      have hle := (size_le_of_frame hframe).2
      exact ⟨by simp [List.take_append_of_le_length hle], hle⟩

/-! ## The buffer represents the unread suffix -/

namespace StunConn

theorem unread_feed (c : StunConn) (data : Bytes) : (c.feed data).unread = c.unread ++ data := by
  unfold feed
  split
  · rename_i hdata
    rw [List.isEmpty_iff.mp hdata, List.append_nil]
  · split
    · rfl
    · exact List.drop_append_of_le_length c.le

theorem readFrame_of_cut_none {c : StunConn} (h : turnFramer.cut c.unread = none) :
    c.readFrame = (.none, c) := by
  unfold readFrame
  split
  · rfl
  · simp only [turnFramer, cutTurnFrame, unread] at h
    split <;> rename_i hframe
    · rfl
    · simp [hframe] at h
    · simp [hframe] at h

theorem readFrame_of_cut_some {c : StunConn} {n : Nat} {r : ReadResult}
    (h : turnFramer.cut c.unread = some (n, r)) :
    c.readFrame.1 = r ∧ r ≠ .none ∧ c.readFrame.2.unread = c.unread.drop n := by
  unfold readFrame
  simp only [turnFramer, cutTurnFrame, unread] at h
  split
  · rename_i hend
    rw [List.drop_eq_nil_of_le hend] at h
    simp [consumeSingleTurnFrame] at h
  · split <;> rename_i hframe
    · simp [hframe] at h
    · rw [hframe] at h
      cases h
      refine ⟨rfl, nofun, ?_⟩
      simp only [unread, List.drop_drop]
    · rw [hframe] at h
      cases h
      refine ⟨rfl, nofun, ?_⟩
      simp only [unread, List.drop_drop]

end StunConn

/-! ## Sessions -/

inductive Call
  | feed (data : Bytes)
  | readFrame
  deriving DecidableEq, Repr

/-- One call, with the results so far. -/
def callStep (s : StunConn × List ReadResult) : Call → StunConn × List ReadResult
  | .feed data => (s.1.feed data, s.2)
  | .readFrame =>
      match s.1.readFrame with
      | (.none, c) => (c, s.2)
      | (r, c) => (c, s.2 ++ [r])

/-- `while (readFrame(...) != 0)`: every pass removes at least one byte. -/
def drain : Nat → StunConn × List ReadResult → StunConn × List ReadResult
  | 0, s => s
  | fuel + 1, s =>
      match s.1.readFrame with
      | (.none, c) => (c, s.2)
      | (r, c) => drain fuel (c, s.2 ++ [r])

/-- Any calls, then reading until nothing is left to read. -/
def session (calls : List Call) : StunConn × List ReadResult :=
  let s := calls.foldl callStep (.empty, [])
  drain s.1.unread.length s

def fed : List Call → Bytes
  | [] => []
  | .feed data :: calls => data ++ fed calls
  | .readFrame :: calls => fed calls

/-- The session has cut the stream `stream` and holds the rest. -/
def Follows (stream : Bytes) (s : StunConn × List ReadResult) : Prop :=
  turnFramer.Parses stream s.2 s.1.unread

theorem Follows.feed (h : Follows stream s) (data : Bytes) :
    Follows (stream ++ data) (callStep s (.feed data)) := by
  simp only [Follows, callStep, StunConn.unread_feed]
  exact h.append data

/-- A read that waits changes nothing. -/
theorem read_of_cut_none (h : turnFramer.cut s.1.unread = none) (fuel : Nat) :
    callStep s .readFrame = s ∧ drain (fuel + 1) s = s := by
  simp [callStep, drain, StunConn.readFrame_of_cut_none h]

/-- A read that cuts records its result. -/
theorem read_of_cut_some {n : Nat} {r : ReadResult} (h : turnFramer.cut s.1.unread = some (n, r))
    (fuel : Nat) :
    callStep s .readFrame = (s.1.readFrame.2, s.2 ++ [r]) ∧
      drain (fuel + 1) s = drain fuel (s.1.readFrame.2, s.2 ++ [r]) := by
  obtain ⟨hr, hne, -⟩ := StunConn.readFrame_of_cut_some h
  have hread : s.1.readFrame = (r, s.1.readFrame.2) := Prod.ext hr rfl
  simp only [callStep, drain]
  rw [hread]
  cases r with
  | none => exact absurd rfl hne
  | invalid => exact ⟨rfl, rfl⟩
  | frame data => exact ⟨rfl, rfl⟩

theorem Follows.cut {n : Nat} {r : ReadResult} (h : Follows stream s)
    (hcut : turnFramer.cut s.1.unread = some (n, r)) :
    Follows stream (s.1.readFrame.2, s.2 ++ [r]) := by
  rw [Follows, (StunConn.readFrame_of_cut_some hcut).2.2]
  exact h.snoc hcut

theorem Follows.readFrame (h : Follows stream s) : Follows stream (callStep s .readFrame) := by
  cases hcut : turnFramer.cut s.1.unread with
  | none =>
    rw [(read_of_cut_none hcut 0).1]
    exact h
  | some x =>
    rw [(read_of_cut_some hcut 0).1]
    exact h.cut hcut

theorem Follows.calls (h : Follows stream s) (calls : List Call) :
    Follows (stream ++ fed calls) (calls.foldl callStep s) := by
  induction calls generalizing stream s with
  | nil => simpa [fed] using h
  | cons call calls ih =>
    cases call with
    | feed data =>
      have := ih (h.feed data)
      rwa [List.append_assoc] at this
    | readFrame => exact ih h.readFrame

/-- Draining keeps the stream and ends where `readFrame` returns 0. -/
theorem Follows.drain {fuel : Nat} (h : Follows stream s) (hfuel : s.1.unread.length ≤ fuel) :
    Follows stream (drain fuel s) ∧ turnFramer.cut (Turn.drain fuel s).1.unread = none := by
  induction fuel generalizing s with
  | zero =>
    have hnil : s.1.unread = [] := List.eq_nil_of_length_eq_zero (by omega)
    refine ⟨h, ?_⟩
    rw [Turn.drain, hnil]
    rfl
  | succ fuel ih =>
    cases hcut : turnFramer.cut s.1.unread with
    | none =>
      rw [(read_of_cut_none hcut fuel).2]
      exact ⟨h, hcut⟩
    | some x =>
      obtain ⟨n, r⟩ := x
      rw [(read_of_cut_some hcut fuel).2]
      apply ih (h.cut hcut)
      have hpos := turnFramer.pos hcut
      rw [(StunConn.readFrame_of_cut_some hcut).2.2, List.length_drop]
      omega

theorem session_follows (calls : List Call) :
    Follows (fed calls) (session calls) ∧ turnFramer.cut (session calls).1.unread = none := by
  have hstart : Follows [] (StunConn.empty, []) := .done []
  exact (hstart.calls calls).drain (Nat.le_refl _)

/-! ## Frames the encoders produce -/

inductive TurnFrame : Bytes → Prop
  | stun (m : Stun.Message) (password : Option Bytes) (creds : Option Stun.Credentials)
      (software : Option Bytes)
      (hbody : (m.encode password creds software).raw.length - Stun.messageHeaderSize < 65536) :
      TurnFrame (m.encode password creds software).raw
  | channelData {channel : UInt16} {data f : Bytes} (h : wrapChannelData channel data = some f) :
      TurnFrame f

theorem consume_wire {type : UInt16} (tid : Stun.TransactionID) {as : List Stun.Attribute}
    (htype : type.toNat < 16384) (hlen : (Stun.tlvs as).length < 65536) :
    consumeSingleTurnFrame (Stun.wire type (UInt16.ofNat (Stun.tlvs as).length) tid as) =
      .frame (20 + (Stun.tlvs as).length) := by
  have hbyte : byteAt (Stun.wire type (UInt16.ofNat (Stun.tlvs as).length) tid as) 0 < 0x40 := by
    change (type >>> 8).toUInt8 < 0x40
    rw [UInt8.lt_iff_toNat_lt]
    simp [Nat.shiftRight_eq_div_pow]
    omega
  simp only [consumeSingleTurnFrame, hbyte, Stun.readU32Be_wire_cookie,
    Stun.readU16Be_wire_length, Stun.length_wire, UInt16.toNat_ofNat', Nat.reducePow,
    Nat.mod_eq_of_lt hlen, Stun.messageHeaderSize, whenComplete]
  rw [if_neg (by omega), if_pos trivial, if_neg (by omega), if_neg (by simp), if_neg (by omega)]

theorem consume_wrapChannelData {channel : UInt16} {data f : Bytes}
    (h : wrapChannelData channel data = some f) : consumeSingleTurnFrame f = .frame f.length := by
  have hw := wrapChannelData_wrapped h
  have hpad := le_paddedSize data.length
  have hlen : f.length = 4 + paddedSize data.length := hw.length
  have hbyte : ¬ byteAt f 0 < 0x40 := by
    rw [UInt8.lt_iff_toNat_lt]
    exact Nat.not_lt.mpr hw.first_byte.1
  have hframe : paddedFrameSize (channelDataHeaderSize + data.length) = f.length := by
    rw [hlen, channelDataHeaderSize, paddedFrameSize_header]
  simp only [consumeSingleTurnFrame, hw.number, hw.len, hbyte, hframe, whenComplete]
  rw [if_neg (by omega), if_neg (by simp), if_pos hw.valid, if_neg (by omega)]

theorem TurnFrame.cut {f : Bytes} (h : TurnFrame f) :
    turnFramer.cut f = some (f.length, .frame f) := by
  have hconsume : consumeSingleTurnFrame f = .frame f.length := by
    cases h with
    | stun m password creds software hbody =>
      rw [Stun.encode_raw] at hbody ⊢
      rw [Stun.length_wire, Stun.messageHeaderSize, Nat.add_sub_cancel_left] at hbody
      rw [Stun.length_wire]
      exact consume_wire m.transactionID (Stun.encodeType_lt m.method m.cls) hbody
    | channelData h => exact consume_wrapChannelData h
  simp only [turnFramer, cutTurnFrame, hconsume, List.take_length]

/-- However a stream is cut into chunks and whenever frames are read, the
results are those of feeding it at once and reading until nothing is left; for a
stream of encoded frames they are these frames. -/
theorem session_eq (calls : List Call) :
    (session calls).1.readFrame.1 = .none ∧
      (session calls).2 = (session [.feed (fed calls)]).2 ∧
      ∀ frames : List Bytes, (∀ f ∈ frames, TurnFrame f) → fed calls = frames.flatten →
        (session calls).2 = frames.map .frame := by
  obtain ⟨hfollows, hend⟩ := session_follows calls
  refine ⟨by rw [StunConn.readFrame_of_cut_none hend], ?_, ?_⟩
  · obtain ⟨hfollows', hend'⟩ := session_follows [.feed (fed calls)]
    simp only [fed, List.append_nil] at hfollows'
    exact (hfollows.unique hend hfollows' hend').1
  · intro frames hframes hfed
    have hparses := @Framer.parses_flatten _ _ turnFramer frames .frame
      fun f hf => (hframes f hf).cut
    rw [← hfed] at hparses
    exact (hfollows.unique hend hparses rfl).1

/-- A binding request and a ChannelData frame, read back from chunks that cut
both of them. -/
theorem session_eq_three_chunks :
    let m : Stun.Message := ⟨.binding, .request, ⟨List.replicate 12 7, rfl⟩, [], []⟩
    let stun := (m.encode none none none).raw
    let data : Bytes := [64, 1, 0, 3, 97, 98, 99, 0]
    (session [.feed (stun.take 5), .readFrame, .feed (stun.drop 5 ++ data.take 7), .readFrame,
      .readFrame, .feed (data.drop 7)]).2 = [.frame stun, .frame data] := by
  intro m stun data
  apply (session_eq _).2.2 [stun, data]
  · intro f hf
    rcases List.mem_cons.mp hf with rfl | hf
    · exact .stun m none none none (by decide +kernel)
    · rw [List.mem_singleton.mp hf]
      exact @TurnFrame.channelData 0x4001 [97, 98, 99] data (by decide)
  · simp only [fed, data, List.flatten_cons, List.flatten_nil, List.append_nil]
    rw [← List.append_assoc, ← List.append_assoc, List.take_append_drop, List.append_assoc]
    rfl

end Stice.Turn
