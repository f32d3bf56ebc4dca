import Stice.Lib.Framer
import Stice.Net.Tcp

/-! The receive side of `TcpTransport` (`net/tcp.cpp`): a buffer with a consumed prefix that
`onReadable` and `recv` compact by rules of their own. -/
namespace Stice.Tcp
open Lib

/-- The bytes of `recvBuf_` and how many of them have been consumed. -/
structure RecvBuffer where
  bytes : Bytes
  off : Nat
  le : off ≤ bytes.length
  deriving DecidableEq

namespace RecvBuffer

def empty : RecvBuffer := ⟨[], 0, Nat.le_refl 0⟩

def unread (b : RecvBuffer) : Bytes := b.bytes.drop b.off

/-- One chunk read by `onReadable`. -/
def arrive (b : RecvBuffer) (chunk : Bytes) : RecvBuffer :=
  if 0 < b.off ∧ (1048576 ≤ b.off ∨ b.bytes.length ≤ b.off) then
    ⟨b.bytes.drop b.off ++ chunk, 0, Nat.zero_le _⟩
  else
    ⟨b.bytes ++ chunk, b.off, by
      have := b.le
      rw [List.length_append]
      omega⟩

def consume (b : RecvBuffer) (n : Nat) : RecvBuffer :=
  if h : b.bytes.length ≤ b.off + n then empty
  else if 1048576 ≤ b.off + n then ⟨b.bytes.drop (b.off + n), 0, Nat.zero_le _⟩
  else ⟨b.bytes, b.off + n, by omega⟩

@[simp] theorem unread_empty : empty.unread = [] := rfl

@[simp] theorem unread_arrive (b : RecvBuffer) (chunk : Bytes) :
    (b.arrive chunk).unread = b.unread ++ chunk := by
  unfold arrive unread
  split
  · rw [List.drop_zero]
  · exact List.drop_append_of_le_length b.le

@[simp] theorem unread_consume (b : RecvBuffer) (n : Nat) :
    (b.consume n).unread = b.unread.drop n := by
  unfold consume unread
  split
  · rename_i h
    rw [List.drop_drop, List.drop_eq_nil_of_le h]
    rfl
  · split
    · dsimp only
      rw [List.drop_zero, List.drop_drop]
    · rw [List.drop_drop]

end RecvBuffer

/-- `static_cast<int>` of a size. -/
def toInt (n : Nat) : Int := (n : Int).bmod 4294967296

/-- The largest `int`. -/
def intMax : Nat := 2147483647

theorem toInt_of_le {n : Nat} (h : n ≤ intMax) : toInt n = n := by
  unfold intMax at h
  exact Int.bmod_eq_of_le (by omega) (by omega)

theorem toInt_le (n : Nat) : toInt n ≤ n := by
  have h := Int.bmod_def (n : Int) 4294967296
  unfold toInt
  split at h <;> omega

/-- What `recv` leaves: its return value, the bytes it has copied, and the buffer. -/
structure Received where
  ret : Int
  copied : Bytes
  buffer : RecvBuffer
  deriving DecidableEq

/-- What the caller takes from the output buffer: as many bytes as were returned. -/
def Received.out (r : Received) : Bytes := r.copied.take r.ret.toNat

/-- The 16-bit length at the head of a frame. -/
def headLength (s : Bytes) : Nat := (readU16Be s 0).toNat

def RecvBuffer.recv (b : RecvBuffer) (mode : FramingMode) (outSize : Nat) : Received :=
  match mode with
  | .raw =>
      if b.unread.length = 0 then ⟨0, [], b⟩
      else
        let copyLen := min b.unread.length outSize
        ⟨toInt copyLen, b.unread.take copyLen, b.consume copyLen⟩
  | .rfc4571 =>
      if b.unread.length < 2 then ⟨0, [], b⟩
      else if headLength b.unread = 0 then ⟨0, [], b.consume 2⟩
      else if b.unread.length < 2 + headLength b.unread then ⟨0, [], b⟩
      else
        let copyLen := min (headLength b.unread) outSize
        ⟨toInt copyLen, slice b.unread 2 copyLen, b.consume (2 + headLength b.unread)⟩

/-! ## Raw mode -/

/-- A transport as its reader sees it: all chunks so far and all bytes returned. -/
structure RawReader where
  buffer : RecvBuffer
  received : Bytes
  returned : Bytes

inductive ReadEvent
  | arrive (chunk : Bytes) | recv (outSize : Nat)

def RawReader.start : RawReader := ⟨.empty, [], []⟩

def RawReader.step (r : RawReader) : ReadEvent → RawReader
  | .arrive chunk => ⟨r.buffer.arrive chunk, r.received ++ chunk, r.returned⟩
  | .recv outSize =>
      let got := r.buffer.recv .raw outSize
      ⟨got.buffer, r.received, r.returned ++ got.out⟩

/-- What has been returned and what is unread is what has been received. -/
def RawReader.Lossless (r : RawReader) : Prop := r.returned ++ r.buffer.unread = r.received

theorem recv_raw (b : RecvBuffer) (outSize : Nat) (h : outSize ≤ intMax) :
    (b.recv .raw outSize).out = b.unread.take outSize ∧
      (b.recv .raw outSize).buffer.unread = b.unread.drop outSize := by
  unfold RecvBuffer.recv Received.out
  dsimp only
  split
  · rename_i hempty
    rw [List.eq_nil_of_length_eq_zero hempty]
    simp
  · have hmin : min b.unread.length outSize ≤ intMax := by omega
    dsimp only
    rw [toInt_of_le hmin, Int.toNat_natCast, RecvBuffer.unread_consume, List.take_take]
    simp only [Nat.min_self]
    refine ⟨?_, ?_⟩
    · rw [Nat.min_comm, ← List.take_eq_take_min]
    · rcases Nat.le_total b.unread.length outSize with hle | hle
      · rw [Nat.min_eq_left hle, List.drop_length, List.drop_eq_nil_of_le hle]
      · rw [Nat.min_eq_right hle]

theorem RawReader.Lossless.step {r : RawReader} (h : r.Lossless) (e : ReadEvent)
    (hsize : ∀ n, e = .recv n → n ≤ intMax) : (r.step e).Lossless := by
  unfold Lossless at h ⊢
  cases e with
  | arrive chunk =>
    change r.returned ++ (r.buffer.arrive chunk).unread = r.received ++ chunk
    rw [RecvBuffer.unread_arrive, ← List.append_assoc, h]
  | recv outSize =>
    obtain ⟨hout, hrest⟩ := recv_raw r.buffer outSize (hsize outSize rfl)
    change (r.returned ++ (r.buffer.recv .raw outSize).out) ++
      (r.buffer.recv .raw outSize).buffer.unread = r.received
    rw [hout, hrest, List.append_assoc, List.take_append_drop, h]

theorem lossless_run (events : List ReadEvent) (h : ∀ n, .recv n ∈ events → n ≤ intMax)
    {r : RawReader} (hr : r.Lossless) : (events.foldl RawReader.step r).Lossless := by
  induction events generalizing r with
  | nil => exact hr
  | cons e events ih =>
    refine ih (fun n hn => h n (List.mem_cons_of_mem _ hn)) (hr.step e fun n hn => ?_)
    exact h n (hn ▸ List.mem_cons_self ..)

/-- For output sizes that an `int` can hold: after every interleaving what `recv` has returned is
a prefix of what has arrived, the rest is unread, and `recv` returns 0 only if nothing is. -/
theorem raw_receive_lossless (events : List ReadEvent)
    (h : ∀ n, .recv n ∈ events → 0 < n ∧ n ≤ intMax) :
    let r := events.foldl RawReader.step .start
    r.returned <+: r.received ∧ r.buffer.unread = r.received.drop r.returned.length ∧
      ∀ n, 0 < n → n ≤ intMax → (r.buffer.recv .raw n).ret = 0 → r.buffer.unread = [] := by
  intro r
  have hlossless : r.returned ++ r.buffer.unread = r.received :=
    lossless_run events (fun n hn => (h n hn).2) rfl
  refine ⟨⟨_, hlossless⟩, by rw [← hlossless, List.drop_left], fun n hpos hle hzero => ?_⟩
  unfold RecvBuffer.recv at hzero
  dsimp only at hzero
  split at hzero
  · rename_i hempty
    exact List.eq_nil_of_length_eq_zero hempty
  · rename_i hne
    have hmin : 0 < min r.buffer.unread.length n := by omega
    dsimp only at hzero
    rw [toInt_of_le (by omega)] at hzero
    omega

/-- One byte is read out of two. -/
theorem raw_receive_lossless_two :
    let r := [.arrive [1, 2], .recv 1].foldl RawReader.step .start
    r.returned = [1] ∧ r.returned <+: r.received ∧
      r.buffer.unread = r.received.drop r.returned.length ∧
      ∀ n, 0 < n → n ≤ intMax → (r.buffer.recv .raw n).ret = 0 → r.buffer.unread = [] := by
  refine ⟨by decide, raw_receive_lossless _ ?_⟩
  intro n hn
  have hn : n = 1 := by simpa using hn
  rw [hn]
  decide

theorem arrivals_unread (chunk : Bytes) (k : Nat) (r : RawReader) :
    ((List.replicate k (.arrive chunk)).foldl RawReader.step r).buffer.unread.length =
      r.buffer.unread.length + k * chunk.length := by
  induction k generalizing r with
  | zero => simp
  | succ k ih =>
    rw [List.replicate_succ, List.foldl_cons, ih]
    change ((r.buffer.arrive chunk).unread.length) + _ = _
    rw [RecvBuffer.unread_arrive, List.length_append, Nat.succ_mul]
    omega

/-- A reader with 65536 unread chunks of 64 KiB. -/
def backlog : RawReader :=
  (List.replicate 65536 (.arrive (List.replicate 65536 0))).foldl RawReader.step .start

/-- With room for all of them `recv` returns 0. -/
theorem raw_receive_overflow : backlog.buffer.unread ≠ [] ∧
    (backlog.buffer.recv .raw 4294967296).ret = 0 := by
  have hlength : backlog.buffer.unread.length = 4294967296 := by
    unfold backlog
    rw [arrivals_unread, List.length_replicate]
    rfl
  refine ⟨fun h => ?_, ?_⟩
  · rw [h] at hlength
    cases hlength
  · unfold RecvBuffer.recv
    dsimp only
    rw [hlength]
    decide

end Stice.Tcp
