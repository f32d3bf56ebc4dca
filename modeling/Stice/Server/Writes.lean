import Stice.Lib.Reach
import Stice.Net.Receive

/-! The write side of a server connection (`sendTcpRaw`, `flushTcp`). What the socket does
not take stays in `writeBuf` beyond `writeOff`, and every flush tells the backend whether
something is left. A `Writer` is one `TcpConn` with what an observer sees of it: the bytes
its socket has accepted and the reports to the backend. -/
namespace Stice.Server
open Lib Tcp

structure Writer where
  writeBuf : Bytes
  writeOff : Nat
  accepted : Bytes
  reports : List Bool
  deriving DecidableEq, Repr

/-- The answer to one `::send`. -/
inductive SendResult
  | sent (n : Nat) | wouldBlock | error
  deriving DecidableEq, Repr

namespace Writer

def start : Writer := ⟨[], 0, [], []⟩

def unsent (w : Writer) : Bytes := w.writeBuf.drop w.writeOff

/-- The loop of `flushTcpLocked`: the offset it reaches and whether it met no hard error. The
socket takes at most the length it is given, which is an `int`; 0 bytes count as an error.
When the answers end the socket blocks. -/
def flushLoop (buf : Bytes) : List SendResult → Nat → Nat × Bool
  | [], off => (off, true)
  | a :: answers, off =>
      if off < buf.length then
        match a with
        | .sent n =>
            let n := min n (toInt (buf.length - off)).toNat
            if n = 0 then (off, false) else flushLoop buf answers (off + n)
        | .wouldBlock => (off, true)
        | .error => (off, false)
      else (off, true)

def flushTcpLocked (w : Writer) (answers : List SendResult) : Writer × Bool :=
  let (off, ok) := flushLoop w.writeBuf answers w.writeOff
  let accepted := w.accepted ++ slice w.writeBuf w.writeOff (off - w.writeOff)
  if ok then
    if w.writeBuf.length ≤ off then (⟨[], 0, accepted, w.reports ++ [false]⟩, true)
    else (⟨w.writeBuf, off, accepted, w.reports ++ [true]⟩, true)
  else (⟨[], 0, accepted, w.reports ++ [false]⟩, false)

/-- The sent prefix is dropped before the data is appended. -/
def append (w : Writer) (data : Bytes) : Writer :=
  if 0 < w.writeOff then
    if w.writeBuf.length ≤ w.writeOff then { w with writeBuf := data, writeOff := 0 }
    else { w with writeBuf := w.writeBuf.drop w.writeOff ++ data, writeOff := 0 }
  else { w with writeBuf := w.writeBuf ++ data }

def sendTcpRaw (w : Writer) (data : Bytes) (answers : List SendResult) : Writer × Bool :=
  if data.isEmpty then (w, true) else (w.append data).flushTcpLocked answers

end Writer

inductive WriteCall
  | sendTcpRaw (data : Bytes) | flushTcp
  deriving DecidableEq, Repr

namespace Writer

def call (w : Writer) (c : WriteCall × List SendResult) : Writer × Bool :=
  match c.1 with
  | .sendTcpRaw data => w.sendTcpRaw data c.2
  | .flushTcp => w.flushTcpLocked c.2

def step (w : Writer) (c : WriteCall × List SendResult) : Writer := (w.call c).1

/-- The call meets no hard error. -/
def NoHardError (w : Writer) (c : WriteCall × List SendResult) : Prop := (w.call c).2 = true

end Writer

/-- What the calls were given to send. -/
def payloads : List (WriteCall × List SendResult) → Bytes
  | [] => []
  | (.sendTcpRaw data, _) :: calls => data ++ payloads calls
  | (.flushTcp, _) :: calls => payloads calls

namespace Writer

/-- The accepted bytes and the unsent ones are `data`, and the last report is right. -/
structure Carries (w : Writer) (data : Bytes) : Prop where
  le : w.writeOff ≤ w.writeBuf.length
  stream : w.accepted ++ w.unsent = data
  report : w.reports.getLast?.getD false = true ↔ w.unsent ≠ []

theorem flushLoop_le {buf : Bytes} (answers : List SendResult) {off : Nat}
    (h : off ≤ buf.length) :
    off ≤ (flushLoop buf answers off).1 ∧ (flushLoop buf answers off).1 ≤ buf.length := by
  induction answers generalizing off with
  | nil => exact ⟨Nat.le_refl off, h⟩
  | cons a answers ih =>
    unfold flushLoop
    split
    · cases a with
      | sent n =>
        dsimp only
        split
        · exact ⟨Nat.le_refl off, h⟩
        · -- a length that is too large for an `int` is negative and nothing is taken
          have hint := toInt_le (buf.length - off)
          obtain ⟨hfrom, hto⟩ := @ih (off + min n (toInt (buf.length - off)).toNat) (by omega)
          exact ⟨by omega, hto⟩
      | wouldBlock => exact ⟨Nat.le_refl off, h⟩
      | error => exact ⟨Nat.le_refl off, h⟩
    · exact ⟨Nat.le_refl off, h⟩

theorem Carries.flush {w : Writer} {data : Bytes} (h : w.accepted ++ w.unsent = data)
    (hle : w.writeOff ≤ w.writeBuf.length) {answers : List SendResult}
    (hok : (w.flushTcpLocked answers).2 = true) : (w.flushTcpLocked answers).1.Carries data := by
  obtain ⟨hfrom, hto⟩ := flushLoop_le answers hle
  unfold flushTcpLocked at hok ⊢
  generalize flushLoop w.writeBuf answers w.writeOff = r at hfrom hto hok ⊢
  obtain ⟨off, ok⟩ := r
  dsimp only at hfrom hto hok ⊢
  -- what the loop took is the head of what was unsent
  have hsplit : slice w.writeBuf w.writeOff (off - w.writeOff) ++ w.writeBuf.drop off =
      w.unsent := by
    have hoff : w.writeBuf.drop off = (w.writeBuf.drop w.writeOff).drop (off - w.writeOff) := by
      rw [List.drop_drop, Nat.add_sub_cancel' hfrom]
    rw [hoff, slice, List.take_append_drop]
    rfl
  have hstream : w.accepted ++ slice w.writeBuf w.writeOff (off - w.writeOff) ++
      w.writeBuf.drop off = data := by
    rw [List.append_assoc, hsplit, h]
  cases ok with
  | false => cases hok
  | true =>
    simp only [↓reduceIte]
    split
    · rename_i hall
      rw [List.drop_eq_nil_of_le hall] at hstream
      exact ⟨Nat.le_refl 0, hstream, by simp [unsent]⟩
    · rename_i hsome
      refine ⟨hto, hstream, ?_⟩
      have hleft : w.writeBuf.drop off ≠ [] := by
        intro hnil
        exact hsome (List.drop_eq_nil_iff.mp hnil)
      simp [unsent, hleft]

theorem unsent_append {w : Writer} (h : w.writeOff ≤ w.writeBuf.length) (data : Bytes) :
    (w.append data).unsent = w.unsent ++ data ∧
      (w.append data).writeOff ≤ (w.append data).writeBuf.length ∧
      (w.append data).accepted = w.accepted := by
  unfold append unsent
  split
  · split
    · rename_i hall
      rw [List.drop_eq_nil_of_le hall]
      exact ⟨rfl, Nat.zero_le _, rfl⟩
    · exact ⟨rfl, Nat.zero_le _, rfl⟩
  · refine ⟨List.drop_append_of_le_length h, ?_, rfl⟩
    dsimp only
    rw [List.length_append]
    omega

theorem Carries.step {w : Writer} {data : Bytes} (h : w.Carries data)
    (c : WriteCall × List SendResult) (hok : NoHardError w c) :
    (w.step c).Carries (data ++ payloads [c]) := by
  obtain ⟨c, answers⟩ := c
  cases c with
  | flushTcp =>
    simp only [payloads, List.append_nil]
    exact .flush h.stream h.le hok
  | sendTcpRaw new =>
    simp only [NoHardError, call, Writer.step, sendTcpRaw, payloads, List.append_nil] at hok ⊢
    split
    · rename_i hempty
      rw [List.isEmpty_iff.mp hempty, List.append_nil]
      exact h
    · rename_i hsome
      rw [if_neg hsome] at hok
      obtain ⟨hunsent, hle, haccepted⟩ := unsent_append h.le new
      refine .flush ?_ hle hok
      rw [hunsent, haccepted, ← List.append_assoc, h.stream]

theorem payloads_cons (c : WriteCall × List SendResult)
    (calls : List (WriteCall × List SendResult)) :
    payloads (c :: calls) = payloads [c] ++ payloads calls := by
  obtain ⟨c, answers⟩ := c
  cases c <;> simp [payloads]

theorem Carries.run {w : Writer} {data : Bytes} (h : w.Carries data)
    (calls : List (WriteCall × List SendResult)) (hok : AllSteps NoHardError Writer.step w calls) :
    (calls.foldl Writer.step w).Carries (data ++ payloads calls) := by
  induction calls generalizing w data with
  | nil => simpa [payloads] using h
  | cons c calls ih =>
    rw [payloads_cons, ← List.append_assoc]
    exact ih (h.step c hok.1) hok.2

/-- Without hard errors, the bytes the socket has accepted and the unsent ones are what was
to be sent, in order, and the backend knows whether there are unsent ones. -/
theorem writes_preserve_stream (calls : List (WriteCall × List SendResult))
    (hok : AllSteps NoHardError step start calls) :
    (calls.foldl step start).accepted ++ (calls.foldl step start).unsent = payloads calls ∧
      ((calls.foldl step start).reports.getLast?.getD false = true ↔
        (calls.foldl step start).unsent ≠ []) := by
  have hstart : start.Carries [] := ⟨Nat.le_refl 0, rfl, by decide⟩
  have hrun := hstart.run calls hok
  exact ⟨hrun.stream, hrun.report⟩

/-- Three bytes of which the socket takes two, and one more once it takes all. -/
theorem writes_preserve_two_sends :
    let calls := [(.sendTcpRaw [1, 2, 3], [.sent 2, .wouldBlock]), (.sendTcpRaw [4], [.sent 9])]
    (calls.foldl step start).accepted ++ (calls.foldl step start).unsent = [1, 2, 3, 4] := by
  intro calls
  exact (writes_preserve_stream calls ⟨rfl, rfl, trivial⟩).1

end Writer
end Stice.Server
