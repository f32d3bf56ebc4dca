import Stice.Stun.Message

/-! The three walks over the attributes of a message, with the reads of the source
checked: a read outside the buffer has no result. The walks stay inside, end, and
visit the same attributes, up to the MESSAGE-INTEGRITY that ends one of them. -/
namespace Stice.Stun

/-! ## Checked reads -/

def readU16? (p : Bytes) (off : Nat) : Option UInt16 :=
  if off + 2 ≤ p.length then some (readU16Be p off) else none

def readU32? (p : Bytes) (off : Nat) : Option UInt32 :=
  if off + 4 ≤ p.length then some (readU32Be p off) else none

def slice? (p : Bytes) (off n : Nat) : Option Bytes :=
  if off + n ≤ p.length then some (slice p off n) else none

/-- `while (offset + AttributeHeaderSize <= end)`. The body goes on with the next
offset or returns. The result comes with the offsets the body ran at; there is none
after a read outside the buffer or when the fuel is used up. -/
def walk {α β : Type} (stop : Nat) (body : Nat → α → Option (Nat × α ⊕ β)) (leave : α → β) :
    Nat → Nat → α → Option (List Nat × β)
  | 0, _, _ => none
  | fuel + 1, off, acc =>
      if off + attributeHeaderSize ≤ stop then
        match body off acc with
        | none => none
        | some (.inl (next, acc)) =>
            (walk stop body leave fuel next acc).map fun r => (off :: r.1, r.2)
        | some (.inr result) => some ([off], result)
      else some ([], leave acc)

def decodeBody (data : Bytes) (stop off : Nat) (attributes : List Attribute) :
    Option (Nat × List Attribute ⊕ Option (List Attribute)) := do
  let type ← readU16? data off
  let vlen ← readU16? data (off + 2)
  let off := off + attributeHeaderSize
  if stop < off + vlen.toNat then return .inr none
  let value ← slice? data off vlen.toNat
  return .inl (off + paddedSize vlen.toNat, attributes ++ [⟨type, value⟩])

def isMessage? (data : Bytes) : Option Bool := do
  if data.length < messageHeaderSize then return false
  let first ← data[0]?
  if first &&& 0xC0 ≠ 0 then return false
  let cookie ← readU32? data 4
  if cookie ≠ magicCookie then return false
  let length ← readU16? data 2
  if length &&& 0x03 ≠ 0 then return false
  return messageHeaderSize + length.toNat ≤ data.length

/-- `decode` with the offsets of the attributes it visits. -/
def decode? (data : Bytes) (fuel : Nat) : Option (List Nat × Option Message) := do
  if data.length < messageHeaderSize then return ([], none)
  if (← isMessage? data) = false then return ([], none)
  let type ← readU16? data 0
  let length ← readU16? data 2
  let _ ← readU32? data 4
  let _ ← slice? data 8 transactionIDSize
  let stop := messageHeaderSize + length.toNat
  if data.length < stop then return ([], none)
  let (visited, attributes) ← walk stop (decodeBody data stop) some fuel messageHeaderSize []
  let (method, cls) := decodeType type
  return (visited, attributes.map fun as => ⟨method, cls, tidAt data 8, as, data⟩)

def integrityBody (raw : Bytes) (off : Nat) (_ : Unit) : Option (Nat × Unit ⊕ Option Nat) := do
  let type ← readU16? raw off
  let vlen ← readU16? raw (off + 2)
  if type = AttrType.messageIntegrity then return .inr (some off)
  return .inl (off + (attributeHeaderSize + paddedSize vlen.toNat), ())

def Message.findIntegrityOffset? (m : Message) (fuel : Nat) : Option (List Nat × Option Nat) := do
  let length ← readU16? m.raw 2
  walk (messageHeaderSize + length.toNat) (integrityBody m.raw) (fun _ => none) fuel
    messageHeaderSize ()

def fingerprintBody (raw : Bytes) (off found : Nat) : Option (Nat × Nat ⊕ Nat) := do
  let type ← readU16? raw off
  let vlen ← readU16? raw (off + 2)
  let found := if type = AttrType.fingerprint then off else found
  return .inl (off + (attributeHeaderSize + paddedSize vlen.toNat), found)

/-- The walk of `checkFingerprint`. -/
def Message.findFingerprint? (m : Message) (fuel : Nat) : Option (List Nat × Nat) := do
  let length ← readU16? m.raw 2
  walk (messageHeaderSize + length.toNat) (fingerprintBody m.raw) id fuel messageHeaderSize 0

/-! ## Tiling -/

/-- The attribute whose header is at an offset. -/
def attributeAt (raw : Bytes) (off : Nat) : Attribute :=
  ⟨readU16Be raw off, slice raw (off + attributeHeaderSize) (readU16Be raw (off + 2)).toNat⟩

/-- The offset after the attribute at `off`. -/
def nextOffset (raw : Bytes) (off : Nat) : Nat :=
  off + (attributeHeaderSize + paddedSize (readU16Be raw (off + 2)).toNat)

/-- The attributes at `offs` lie end to end from `off` on and end at `stop`. -/
inductive Tiles (raw : Bytes) (stop : Nat) : Nat → List Nat → Prop
  | done : Tiles raw stop stop []
  | next {off : Nat} {offs : List Nat} :
      nextOffset raw off ≤ stop → Tiles raw stop (nextOffset raw off) offs →
      Tiles raw stop off (off :: offs)

variable {raw data : Bytes} {stop off fuel : Nat} {offs : List Nat}

theorem Tiles.length_le (h : Tiles raw stop off offs) : off + 4 * offs.length ≤ stop := by
  induction h with
  | done => exact Nat.le_refl _
  | next _ _ ih =>
    simp only [nextOffset, attributeHeaderSize, List.length_cons] at ih ⊢
    omega

theorem readU16?_eq (h : off + 2 ≤ raw.length) : readU16? raw off = some (readU16Be raw off) :=
  if_pos h

section Bodies
variable (hstop : stop ≤ raw.length) (hguard : off + attributeHeaderSize ≤ stop)
include hstop hguard

theorem header_eq : readU16? raw off = some (readU16Be raw off) ∧
    readU16? raw (off + 2) = some (readU16Be raw (off + 2)) := by
  simp only [attributeHeaderSize] at hguard
  exact ⟨readU16?_eq (by omega), readU16?_eq (by omega)⟩

theorem decodeBody_eq (as : List Attribute) : decodeBody raw stop off as =
    if stop < off + attributeHeaderSize + (readU16Be raw (off + 2)).toNat then some (.inr none)
    else some (.inl (nextOffset raw off, as ++ [attributeAt raw off])) := by
  obtain ⟨htype, hvlen⟩ := header_eq hstop hguard
  simp only [decodeBody, htype, hvlen, Option.bind_eq_bind, Option.bind_some]
  split
  · rfl
  · have hvalue : slice? raw (off + attributeHeaderSize) (readU16Be raw (off + 2)).toNat =
        some (attributeAt raw off).value := if_pos (by omega)
    simp only [hvalue, Option.bind_some, nextOffset, ← Nat.add_assoc]
    rfl

theorem integrityBody_eq : integrityBody raw off () =
    if (attributeAt raw off).type = .messageIntegrity then some (.inr (some off))
    else some (.inl (nextOffset raw off, ())) := by
  obtain ⟨htype, hvlen⟩ := header_eq hstop hguard
  simp only [integrityBody, htype, hvlen]
  rfl

theorem fingerprintBody_eq (found : Nat) : fingerprintBody raw off found = some (.inl
    (nextOffset raw off, if (attributeAt raw off).type = .fingerprint then off else found)) := by
  obtain ⟨htype, hvlen⟩ := header_eq hstop hguard
  simp only [fingerprintBody, htype, hvlen]
  rfl

end Bodies

/-- The walk of `decode` from any offset inside the buffer; where it succeeds the
offsets tile the rest of the message. -/
theorem decode_walk (hstop : stop ≤ raw.length) (hfuel : stop - off < fuel)
    (as : List Attribute) :
    ∃ visited, walk stop (decodeBody raw stop) some fuel off as =
        some (visited, (decodeAttrs raw stop fuel off).map (as ++ ·)) ∧
      (off % 4 = 0 → stop % 4 = 0 → off ≤ stop → ∀ bs, decodeAttrs raw stop fuel off = some bs →
        Tiles raw stop off visited ∧ bs = visited.map (attributeAt raw)) := by
  induction fuel generalizing off as with
  | zero => omega
  | succ fuel ih =>
    by_cases hguard : off + attributeHeaderSize ≤ stop
    · by_cases hlong : stop < off + attributeHeaderSize + (readU16Be raw (off + 2)).toNat
      · have hattrs : decodeAttrs raw stop (fuel + 1) off = none := by
          rw [decodeAttrs, if_pos hguard]
          exact if_pos hlong
        refine ⟨[off], ?_, fun _ _ _ bs hbs => by rw [hattrs] at hbs; cases hbs⟩
        rw [walk, if_pos hguard, decodeBody_eq hstop hguard, if_pos hlong, hattrs]
        rfl
      · have hattrs : decodeAttrs raw stop (fuel + 1) off =
            (decodeAttrs raw stop fuel (nextOffset raw off)).map (attributeAt raw off :: ·) := by
          rw [decodeAttrs, if_pos hguard, nextOffset, ← Nat.add_assoc]
          exact if_neg hlong
        have hpad := le_paddedSize (readU16Be raw (off + 2)).toNat
        obtain ⟨visited, hwalk, htiles⟩ := @ih (nextOffset raw off)
          (by simp only [nextOffset, attributeHeaderSize] at hguard ⊢; omega)
          (as ++ [attributeAt raw off])
        refine ⟨off :: visited, ?_, fun hoff hmod hle bs hbs => ?_⟩
        · rw [walk, if_pos hguard, decodeBody_eq hstop hguard, if_neg hlong, hattrs]
          simp only [hwalk]
          cases decodeAttrs raw stop fuel (nextOffset raw off) <;> simp
        · rw [hattrs, Option.map_eq_some_iff] at hbs
          obtain ⟨cs, hcs, rfl⟩ := hbs
          -- the message ends on a multiple of four, so the padding is inside
          have hnext : nextOffset raw off ≤ stop ∧ nextOffset raw off % 4 = 0 := by
            simp only [nextOffset, attributeHeaderSize, paddedSize] at hlong ⊢
            omega
          obtain ⟨htile, rfl⟩ := htiles hnext.2 hmod hnext.1 cs hcs
          exact ⟨.next hnext.1 htile, rfl⟩
    · refine ⟨[], by simp [walk, decodeAttrs, hguard], ?_⟩
      intro hoff hmod hle bs hbs
      have hend : off = stop := by
        simp only [attributeHeaderSize] at hguard
        omega
      rw [decodeAttrs, if_neg hguard] at hbs
      exact ⟨hend ▸ .done, (Option.some.inj hbs).symm⟩

/-- The offset of a MESSAGE-INTEGRITY. -/
def isIntegrity (raw : Bytes) (off : Nat) : Bool := (attributeAt raw off).type = .messageIntegrity

/-- The walk of `findIntegrityOffset` ends at the first MESSAGE-INTEGRITY. -/
theorem integrity_walk (h : Tiles raw stop off offs) (hstop : stop ≤ raw.length)
    (hfuel : offs.length < fuel) :
    walk stop (integrityBody raw) (fun _ => none) fuel off () =
        some (offs.take (offs.findIdx (isIntegrity raw) + 1), offs.find? (isIntegrity raw)) ∧
      integrityWalk raw stop fuel off = offs.find? (isIntegrity raw) := by
  induction h generalizing fuel with
  | done =>
    obtain ⟨fuel, rfl⟩ : ∃ n, fuel = n + 1 := ⟨fuel - 1, by omega⟩
    simp [walk, integrityWalk, attributeHeaderSize]
  | @next off offs hle _ ih =>
    obtain ⟨fuel, rfl⟩ : ∃ n, fuel = n + 1 := ⟨fuel - 1, by omega⟩
    have hguard : off + attributeHeaderSize ≤ stop := by
      simp only [nextOffset] at hle
      omega
    obtain ⟨hwalk, hmodel⟩ := ih (Nat.lt_of_succ_lt_succ hfuel)
    rw [walk, if_pos hguard, integrityBody_eq hstop hguard, integrityWalk, if_pos hguard]
    by_cases hmi : (attributeAt raw off).type = .messageIntegrity
    · have htype : readU16Be raw off = AttrType.messageIntegrity := hmi
      simp [isIntegrity, hmi, htype, List.findIdx_cons]
    · have htype : readU16Be raw off ≠ AttrType.messageIntegrity := hmi
      have hno : isIntegrity raw off = false := decide_eq_false hmi
      simp only [hmi, if_false, hwalk, htype, List.find?_cons, List.findIdx_cons, hno]
      exact ⟨rfl, hmodel⟩

/-- The walk of `checkFingerprint` visits all attributes. -/
theorem fingerprint_walk (h : Tiles raw stop off offs) (hstop : stop ≤ raw.length)
    (hfuel : offs.length < fuel) (found : Nat) :
    walk stop (fingerprintBody raw) id fuel off found =
      some (offs, fingerprintWalk raw stop fuel off found) := by
  induction h generalizing fuel found with
  | done =>
    obtain ⟨fuel, rfl⟩ : ∃ n, fuel = n + 1 := ⟨fuel - 1, by omega⟩
    simp [walk, fingerprintWalk, attributeHeaderSize]
  | @next off offs hle _ ih =>
    obtain ⟨fuel, rfl⟩ : ∃ n, fuel = n + 1 := ⟨fuel - 1, by omega⟩
    have hguard : off + attributeHeaderSize ≤ stop := by
      simp only [nextOffset] at hle
      omega
    rw [walk, if_pos hguard, fingerprintBody_eq hstop hguard, fingerprintWalk, if_pos hguard]
    simp only [ih (Nat.lt_of_succ_lt_succ hfuel)]
    rfl

/-! ## Messages -/

theorem isMessage?_eq (data : Bytes) : isMessage? data = some (isMessage data) := by
  unfold isMessage?
  by_cases hsize : data.length < messageHeaderSize
  · simp [isMessage, hsize]
  have hsize' : messageHeaderSize ≤ data.length := Nat.not_lt.mp hsize
  simp only [messageHeaderSize] at hsize'
  have hfirst : data[0]? = some (byteAt data 0) := by
    rw [byteAt, List.getD_eq_getElem?_getD, List.getElem?_eq_getElem (by omega)]
    rfl
  have hcookie : readU32? data 4 = some (readU32Be data 4) := if_pos (by omega)
  have hlength : readU16? data 2 = some (readU16Be data 2) := if_pos (by omega)
  have hmask : readU16Be data 2 &&& 0x03 = 0 ↔ (readU16Be data 2).toNat % 4 = 0 := by
    rw [← UInt16.toNat_inj, UInt16.toNat_and]
    exact Eq.congr_left (Nat.and_two_pow_sub_one_eq_mod _ 2)
  simp only [hfirst, hcookie, hlength, hsize, isMessage, Option.bind_eq_bind, Option.bind_some,
    ne_eq, hmask]
  by_cases hbits : byteAt data 0 &&& 0xC0 = 0 <;>
    by_cases hmagic : readU32Be data 4 = magicCookie <;>
    by_cases hmod : (readU16Be data 2).toNat % 4 = 0 <;>
      simp [hbits, hmagic, hmod, Nat.not_lt.mp hsize]

theorem decode?_eq (data : Bytes) :
    ∃ visited, decode? data data.length = some (visited, decode data) ∧
      ∀ d, decode data = some d → Tiles data d.stop messageHeaderSize visited ∧
        d.stop ≤ d.raw.length ∧ d.raw = data ∧ d.attributes = visited.map (attributeAt data) := by
  cases hmessage : isMessage data with
  | false =>
    have hnone : decode data = none := by simp [decode, hmessage]
    refine ⟨[], ?_, fun d hd => by rw [hnone] at hd; cases hd⟩
    simp only [decode?, isMessage?_eq, hmessage, hnone]
    split <;> rfl
  | true =>
    obtain ⟨hsize, hmod, hstop⟩ : messageHeaderSize ≤ data.length ∧
        (readU16Be data 2).toNat % 4 = 0 ∧
        messageHeaderSize + (readU16Be data 2).toNat ≤ data.length := by
      simp only [isMessage, Bool.and_eq_true, decide_eq_true_eq] at hmessage
      exact ⟨hmessage.1.1.1.1, hmessage.1.2, hmessage.2⟩
    have hreads : readU16? data 0 = some (readU16Be data 0) ∧
        readU16? data 2 = some (readU16Be data 2) ∧ readU32? data 4 = some (readU32Be data 4) ∧
        slice? data 8 transactionIDSize = some (slice data 8 transactionIDSize) := by
      simp only [messageHeaderSize] at hsize
      exact ⟨if_pos (by omega), if_pos (by omega), if_pos (by omega), if_pos hsize⟩
    obtain ⟨visited, hwalk, htiles⟩ := @decode_walk data _ messageHeaderSize data.length hstop
      (by simp only [messageHeaderSize] at hstop ⊢; omega) []
    refine ⟨visited, ?_, fun d hd => ?_⟩
    · simp only [decode?, isMessage?_eq, hmessage, hreads, Nat.not_lt.mpr hsize,
        Nat.not_lt.mpr hstop, hwalk, decode, if_true, if_false, Option.bind_eq_bind,
        Option.bind_some]
      cases decodeAttrs data (messageHeaderSize + (readU16Be data 2).toNat) data.length
        messageHeaderSize <;> rfl
    · simp only [decode, hmessage, if_true, Nat.not_lt.mpr hstop, if_false,
        Option.map_eq_some_iff] at hd
      obtain ⟨as, has, rfl⟩ := hd
      obtain ⟨htile, rfl⟩ := htiles rfl (by simp only [messageHeaderSize]; omega)
        (Nat.le_add_right _ _) as has
      exact ⟨htile, hstop, rfl, rfl⟩

/-- `decode` ends without a read outside the buffer. The offsets it visits in a message
it accepts tile the message up to its declared end. The walk of `checkFingerprint` visits
the same, that of `findIntegrityOffset` those up to the first MESSAGE-INTEGRITY, which is
the attribute `find` returns. -/
theorem walks_agree (data : Bytes) :
    ∃ fuel visited, decode? data fuel = some (visited, decode data) ∧
      ∀ d, decode data = some d →
        d.raw = data ∧ Tiles d.raw d.stop messageHeaderSize visited ∧
        d.attributes = visited.map (attributeAt d.raw) ∧
        (∃ fuel, d.findIntegrityOffset? fuel =
          some (visited.take (visited.findIdx (isIntegrity d.raw) + 1), d.findIntegrityOffset)) ∧
        (∃ fuel, d.findFingerprint? fuel = some (visited,
          fingerprintWalk d.raw d.stop d.raw.length messageHeaderSize 0)) ∧
        d.find .messageIntegrity =
          d.findIntegrityOffset.map fun off => (attributeAt d.raw off).value := by
  obtain ⟨visited, hdecode, haccepted⟩ := decode?_eq data
  refine ⟨data.length, visited, hdecode, fun d hd => ?_⟩
  obtain ⟨htiles, hstop, rfl, hattributes⟩ := haccepted d hd
  have hfuel : visited.length < d.raw.length := by
    have := htiles.length_le
    simp only [messageHeaderSize] at this
    omega
  have hlength : readU16? d.raw 2 = some (readU16Be d.raw 2) := by
    refine if_pos ?_
    have := htiles.length_le
    simp only [messageHeaderSize] at this
    omega
  obtain ⟨hwalk, hmodel⟩ := integrity_walk htiles hstop hfuel
  refine ⟨rfl, htiles, hattributes, ⟨d.raw.length, ?_⟩, ⟨d.raw.length, ?_⟩, ?_⟩
  · simp only [Message.findIntegrityOffset?, hlength, Option.bind_eq_bind, Option.bind_some]
    exact hwalk.trans (by rw [Message.findIntegrityOffset, hmodel])
  · simp only [Message.findFingerprint?, hlength, Option.bind_eq_bind, Option.bind_some]
    exact fingerprint_walk htiles hstop hfuel 0
  · rw [Message.find, hattributes, List.find?_map, Option.map_map, Message.findIntegrityOffset,
      hmodel]
    rfl

/-- A MESSAGE-INTEGRITY before another attribute. -/
def integrityFirst : Bytes :=
  [0, 1, 0, 28, 0x21, 0x12, 0xA4, 0x42] ++ List.replicate 12 0 ++ [0, 8, 0, 20] ++
    List.replicate 20 0 ++ [0x80, 0x22, 0, 0]

/-- The attribute after a MESSAGE-INTEGRITY is visited by `decode` only. -/
theorem integrity_walk_returns :
    (decode? integrityFirst 3).map Prod.fst = some [20, 44] ∧
      ((decode integrityFirst).bind (·.findIntegrityOffset? 3)) = some ([20], some 20) := by
  decide

end Stice.Stun
