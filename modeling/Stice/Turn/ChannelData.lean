import Stice.Types

/-! ChannelData framing (`turn/channeldata.hpp`, `turn/channeldata.cpp`). -/
namespace Stice.Turn

variable {channel : UInt16} {data f : Bytes}

def channelMin : UInt16 := 0x4000
def channelMax : UInt16 := 0x7FFF
def channelDataHeaderSize : Nat := 4

def channelValid (c : UInt16) : Bool := channelMin ≤ c && c ≤ channelMax

/-- Demultiplexing: the first byte and the length field look like ChannelData. -/
def isChannelData (data : Bytes) : Bool :=
  channelDataHeaderSize ≤ data.length && 0x40 ≤ byteAt data 0 && byteAt data 0 ≤ 0x7F &&
    (readU16Be data 2).toNat + channelDataHeaderSize ≤ data.length

/-- `wrapChannelData`: `none` where the source returns 0. -/
def wrapChannelData (channel : UInt16) (data : Bytes) : Option Bytes :=
  if !channelValid channel then none
  else if 0xFFFF < data.length then none
  else some (be16 channel ++ be16 (UInt16.ofNat data.length) ++ data ++
    List.replicate (paddedSize data.length - data.length) 0)

/-- `unwrapChannelData`: the channel and the data. A frame without data is
`none` to every caller, as a return value of 0 is. -/
def unwrapChannelData (buf : Bytes) : Option (UInt16 × Bytes) :=
  if buf.length < channelDataHeaderSize then none
  else
    let channel := readU16Be buf 0
    let len := (readU16Be buf 2).toNat
    if !channelValid channel then none
    else if buf.length - channelDataHeaderSize < len then none
    else if len = 0 then none
    else some (channel, slice buf channelDataHeaderSize len)

/-- What `unwrapChannelData` writes to its out-parameters, also for a frame without data. -/
def readChannelData (buf : Bytes) : Option (UInt16 × Bytes) :=
  if buf.length < channelDataHeaderSize then none
  else
    let channel := readU16Be buf 0
    let len := (readU16Be buf 2).toNat
    if !channelValid channel then none
    else if buf.length - channelDataHeaderSize < len then none
    else some (channel, slice buf channelDataHeaderSize len)

/-- `randomChannelNumber`, from a random number. -/
def randomChannelNumber (r : UInt32) : UInt16 := channelMin ||| (r &&& 0x3FFF).toUInt16

/-- The fields of a frame. -/
structure Wrapped (channel : UInt16) (data f : Bytes) : Prop where
  valid : channelMin ≤ channel ∧ channel ≤ channelMax
  size : data.length ≤ 0xFFFF
  length : f.length = channelDataHeaderSize + paddedSize data.length
  number : readU16Be f 0 = channel
  len : (readU16Be f 2).toNat = data.length
  first : byteAt f 0 = (channel >>> 8).toUInt8
  payload : slice f channelDataHeaderSize data.length = data

theorem wrapChannelData_wrapped (h : wrapChannelData channel data = some f) :
    Wrapped channel data f := by
  simp only [wrapChannelData] at h
  split at h
  · cases h
  · split at h
    · cases h
    · rename_i hvalid hsize
      injection h with h
      have hpad := le_paddedSize data.length
      refine ⟨by simpa [channelValid] using hvalid, by omega, ?_, ?_, ?_, ?_, ?_⟩
      · simp only [← h, List.length_append, length_be16, List.length_replicate,
          channelDataHeaderSize]
        omega
      · apply @readU16Be_of_drop _ _ _ (be16 (UInt16.ofNat data.length) ++ data ++
          List.replicate (paddedSize data.length - data.length) 0)
        simp [← h]
      · rw [@readU16Be_of_drop f 2 (UInt16.ofNat data.length) (data ++
          List.replicate (paddedSize data.length - data.length) 0) (by simp [← h, be16])]
        simp only [UInt16.toNat_ofNat']
        omega
      · simp [← h, byteAt, be16]
      · simp [← h, slice, channelDataHeaderSize, be16]

/-- The first byte of a frame tells it from a STUN message. -/
theorem Wrapped.first_byte (h : Wrapped channel data f) :
    0x40 ≤ (byteAt f 0).toNat ∧ (byteAt f 0).toNat < 0x80 := by
  have hmin : 16384 ≤ channel.toNat := by
    simpa [channelMin, UInt16.le_iff_toNat_le] using h.valid.1
  have hmax : channel.toNat ≤ 32767 := by
    simpa [channelMax, UInt16.le_iff_toNat_le] using h.valid.2
  rw [h.first]
  simp [Nat.shiftRight_eq_div_pow]
  omega

theorem Wrapped.read (h : Wrapped channel data f) : readChannelData f = some (channel, data) := by
  have hpad := le_paddedSize data.length
  have hlen := h.length
  have hvalid : channelValid channel = true := by simpa [channelValid] using h.valid
  unfold readChannelData
  rw [h.number, h.len, if_neg (by omega)]
  dsimp only
  rw [hvalid, if_neg (by decide), if_neg (by omega), h.payload]

/-- The two differ on frames without data only. -/
theorem unwrapChannelData_eq (buf : Bytes) :
    unwrapChannelData buf = (readChannelData buf).filter fun p => !p.2.isEmpty := by
  unfold unwrapChannelData readChannelData
  dsimp only
  split
  · rfl
  · split
    · rfl
    · split
      · rfl
      · rename_i hsize _ hlen
        have hslice : (slice buf channelDataHeaderSize (readU16Be buf 2).toNat).length =
            (readU16Be buf 2).toNat := by
          simp [slice]
          omega
        by_cases hzero : (readU16Be buf 2).toNat = 0
        · simp [hzero, slice, Option.filter]
        · rw [if_neg hzero]
          have hne : (slice buf channelDataHeaderSize (readU16Be buf 2).toNat).isEmpty = false := by
            rw [List.isEmpty_eq_false_iff, ← List.length_pos_iff, hslice]
            omega
          simp [Option.filter, hne]

end Stice.Turn
