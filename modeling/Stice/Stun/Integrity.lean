import Stice.Stun.RoundTrip

/-! What MESSAGE-INTEGRITY protects. Two buffers that agree up to and including
the first MESSAGE-INTEGRITY decode to the same attributes up to there, so a type
found there is found with the same value in both. `decode` keeps what follows,
so a type that occurs after it only is not protected. -/
namespace Stice.Stun
open Crypto

variable {a b : Bytes} {d : Message}

/-- The attributes up to and including the first MESSAGE-INTEGRITY. -/
def protectedAttributes : List Attribute → List Attribute
  | [] => []
  | a :: as => if a.type = .messageIntegrity then [a] else a :: protectedAttributes as

/-- The bytes from 20 to `stop`, where the walks read. -/
def AgreeTo (a b : Bytes) (stop : Nat) : Prop :=
  ∀ j, messageHeaderSize ≤ j → j < stop → a[j]? = b[j]?

theorem AgreeTo.byteAt {stop j : Nat} (h : AgreeTo a b stop) (hlo : messageHeaderSize ≤ j)
    (hhi : j < stop) : byteAt a j = byteAt b j := by
  simp only [Stice.byteAt, List.getD_eq_getElem?_getD, h j hlo hhi]

theorem AgreeTo.readU16Be {stop j : Nat} (h : AgreeTo a b stop) (hlo : messageHeaderSize ≤ j)
    (hhi : j + 2 ≤ stop) : readU16Be a j = readU16Be b j := by
  rw [Stice.readU16Be, Stice.readU16Be, h.byteAt hlo (by omega), h.byteAt (by omega) (by omega)]

theorem AgreeTo.slice {stop j n : Nat} (h : AgreeTo a b stop) (hlo : messageHeaderSize ≤ j)
    (hhi : j + n ≤ stop) : slice a j n = slice b j n := by
  apply List.ext_getElem?
  intro k
  simp only [Stice.slice, List.getElem?_take, List.getElem?_drop]
  split
  · exact h (j + k) (by omega) (by omega)
  · rfl

theorem le_integrityWalk {raw : Bytes} {stop fuel off i : Nat}
    (h : integrityWalk raw stop fuel off = some i) : off ≤ i := by
  induction fuel generalizing off with
  | zero => simp [integrityWalk] at h
  | succ fuel ih =>
    simp only [integrityWalk] at h
    split at h
    · split at h
      · injection h with h
        omega
      · have := ih h
        omega
    · simp at h

/-- One step of the decode loop that returned a list. -/
theorem decodeAttrs_succ {raw : Bytes} {stop fuel off : Nat} {as : List Attribute}
    (h : decodeAttrs raw stop (fuel + 1) off = some as)
    (hoff : off + attributeHeaderSize ≤ stop) :
    ∃ rest, as = ⟨readU16Be raw off, slice raw (off + 4) (readU16Be raw (off + 2)).toNat⟩ :: rest ∧
      decodeAttrs raw stop fuel (off + (4 + paddedSize (readU16Be raw (off + 2)).toNat)) =
        some rest := by
  simp only [decodeAttrs, hoff, ↓reduceIte] at h
  split at h
  · simp at h
  · obtain ⟨rest, hrest, has⟩ := Option.map_eq_some_iff.mp h
    exact ⟨rest, has.symm, by rw [← Nat.add_assoc]; exact hrest⟩

/-- The walks of two buffers that agree up to and including the first
MESSAGE-INTEGRITY go hand in hand until they meet it. -/
theorem protected_eq {stopA stopB fuelA fuelB off i j : Nat} {as bs : List Attribute}
    (hagree : AgreeTo a b (i + 4 + (readU16Be a (i + 2)).toNat)) (hoff : messageHeaderSize ≤ off)
    (hiA : integrityWalk a stopA fuelA off = some i) (hdA : decodeAttrs a stopA fuelA off = some as)
    (hiB : integrityWalk b stopB fuelB off = some j)
    (hdB : decodeAttrs b stopB fuelB off = some bs) :
    protectedAttributes as = protectedAttributes bs := by
  induction fuelA generalizing fuelB off as bs with
  | zero => simp [integrityWalk] at hiA
  | succ fuelA ih =>
    cases fuelB with
    | zero => simp [integrityWalk] at hiB
    | succ fuelB =>
      have hle := le_integrityWalk hiA
      simp only [integrityWalk] at hiA hiB
      split at hiA
      · split at hiB
        · rename_i hstopA hstopB
          obtain ⟨restA, rfl, hrestA⟩ := decodeAttrs_succ hdA hstopA
          obtain ⟨restB, rfl, hrestB⟩ := decodeAttrs_succ hdB hstopB
          have htype := hagree.readU16Be hoff (by omega)
          have hlen := hagree.readU16Be (show messageHeaderSize ≤ off + 2 by omega) (by omega)
          simp only [← htype, ← hlen] at hiB hrestB ⊢
          split at hiA
          · -- both walks stand at the first MESSAGE-INTEGRITY
            rename_i hmi
            obtain rfl : off = i := by injection hiA
            have hval := hagree.slice (show messageHeaderSize ≤ off + 4 by omega) (Nat.le_refl _)
            simp only [protectedAttributes, hmi, ↓reduceIte, hval]
          · rename_i hmi
            have hnext := le_integrityWalk hiA
            have hpad := le_paddedSize (readU16Be a (off + 2)).toNat
            have hval := hagree.slice (show messageHeaderSize ≤ off + 4 by omega)
              (show off + 4 + (readU16Be a (off + 2)).toNat ≤ _ by
                simp only [attributeHeaderSize] at hnext; omega)
            simp only [hmi, ↓reduceIte] at hiB
            simp only [protectedAttributes, hmi, ↓reduceIte, hval]
            rw [ih (by omega) hiA hrestA hiB hrestB]
        · simp at hiB
      · simp at hiA

theorem decode_eq_some {a : Bytes} (h : decode a = some d) :
    d.raw = a ∧ decodeAttrs d.raw d.stop d.raw.length messageHeaderSize = some d.attributes := by
  simp only [decode] at h
  split at h
  · split at h
    · simp at h
    · obtain ⟨as, has, rfl⟩ := Option.map_eq_some_iff.mp h
      exact ⟨rfl, has⟩
  · simp at h

theorem checkIntegrity_found {key : Bytes} (h : d.checkIntegrity key false = true) :
    ∃ i, d.findIntegrityOffset = some i := by
  cases hi : d.findIntegrityOffset with
  | none => simp [Message.checkIntegrity, hi] at h
  | some i => exact ⟨i, rfl⟩

theorem protectedAttributes_prefix (as : List Attribute) :
    ∃ rest, as = protectedAttributes as ++ rest := by
  induction as with
  | nil => exact ⟨[], rfl⟩
  | cons a as ih =>
    obtain ⟨rest, hrest⟩ := ih
    by_cases ha : a.type = .messageIntegrity
    · exact ⟨as, by simp [protectedAttributes, ha]⟩
    · refine ⟨rest, ?_⟩
      rw [protectedAttributes, if_neg ha, List.cons_append, ← hrest]

/-- The first match of a protected type is protected. -/
theorem find_protected {a : Attribute} (h : a ∈ protectedAttributes d.attributes) :
    d.find a.type = ((protectedAttributes d.attributes).find? fun b => b.type = a.type).map
      Attribute.value := by
  obtain ⟨rest, hrest⟩ := protectedAttributes_prefix d.attributes
  have hsome : ((protectedAttributes d.attributes).find? fun b => b.type = a.type).isSome := by
    rw [List.find?_isSome]
    exact ⟨a, h, by simp⟩
  rw [Message.find, hrest, List.find?_append, ← hrest, Option.or_of_isSome hsome]

/-- Two accepted buffers, one of them verified, that agree, the length field
apart, up to and including the first MESSAGE-INTEGRITY have the same protected attributes,
and every type that occurs among them is found with the same value. -/
theorem find_eq_of_protected (key a b : Bytes) (dA dB : Message) (i : Nat)
    (hA : decode a = some dA) (hB : decode b = some dB)
    (hkeyB : dB.checkIntegrity key false = true)
    (hi : dA.findIntegrityOffset = some i)
    (hagree : ∀ j, j < i + 4 + (readU16Be a (i + 2)).toNat → j ≠ 2 → j ≠ 3 → a[j]? = b[j]?) :
    protectedAttributes dA.attributes = protectedAttributes dB.attributes ∧
      ∀ t ∈ (protectedAttributes dA.attributes).map Attribute.type, dA.find t = dB.find t := by
  obtain ⟨rfl, hattrsA⟩ := decode_eq_some hA
  obtain ⟨rfl, hattrsB⟩ := decode_eq_some hB
  obtain ⟨j, hj⟩ := checkIntegrity_found hkeyB
  have hbody : AgreeTo dA.raw dB.raw (i + 4 + (readU16Be dA.raw (i + 2)).toNat) := by
    intro j hlo hhi
    simp only [messageHeaderSize] at hlo
    exact hagree j hhi (by omega) (by omega)
  have hsame := protected_eq hbody (Nat.le_refl _) hi hattrsA hj hattrsB
  refine ⟨hsame, ?_⟩
  intro t ht
  obtain ⟨x, hx, rfl⟩ := List.mem_map.mp ht
  rw [find_protected hx, hsame, ← find_protected (hsame ▸ hx)]

/-- Bytes appended after `n`, with a new length field, leave the rest in place. -/
theorem getElem?_extended {a x : Bytes} {n j : Nat} {len : UInt16} (hn : 4 ≤ n)
    (ha : n ≤ a.length) (hj : j < n) (h2 : j ≠ 2) (h3 : j ≠ 3) :
    a[j]? = (writeU16Be (a.take n ++ x) 2 len)[j]? := by
  have htake : (a.take n).length = n := by
    rw [List.length_take]
    omega
  rw [writeU16Be, getElem?_writeAt (by simp; omega) (by rw [length_be16]; omega),
    List.getElem?_append_left (by omega), List.getElem?_take_of_lt hj]

/-- A signed REFRESH with LIFETIME and FINGERPRINT, and the same with its
FINGERPRINT cut off. -/
theorem find_eq_of_protected_refresh :
    let a : Bytes := [0, 4, 0, 40, 33, 18, 164, 66, 7, 7, 7, 7, 7, 7, 7, 7, 7, 7, 7, 7,
      0, 13, 0, 4, 0, 0, 2, 88,
      0, 8, 0, 20, 255, 248, 133, 207, 170, 184, 205, 85, 58, 156, 248, 216, 84, 38, 214, 143,
      64, 57, 41, 71, 128, 40, 0, 4, 212, 21, 71, 162]
    let b := writeU16Be (a.take 52 ++ []) 2 32
    ∃ dA dB, decode a = some dA ∧ decode b = some dB ∧ dA.find .lifetime = dB.find .lifetime := by
  intro a b
  have hA : (decode a).map (fun d => (d.findIntegrityOffset,
      (protectedAttributes d.attributes).map Attribute.type)) =
        some (some 28, [.lifetime, .messageIntegrity]) := by decide +kernel
  have hB : (decode b).map (fun d => d.checkIntegrity [107] false) = some true := by
    decide +kernel
  have hlen : (readU16Be a (28 + 2)).toNat = 20 ∧ 52 ≤ a.length := by decide +kernel
  obtain ⟨dA, hdA, hvA⟩ := Option.map_eq_some_iff.mp hA
  obtain ⟨dB, hdB, hvB⟩ := Option.map_eq_some_iff.mp hB
  simp only [Prod.mk.injEq] at hvA
  obtain ⟨hiA, htA⟩ := hvA
  refine ⟨dA, dB, hdA, hdB, (find_eq_of_protected [107] a b dA dB 28 hdA hdB hvB hiA ?_).2
    _ (by simp [htA])⟩
  intro j hj h2 h3
  rw [hlen.1] at hj
  exact getElem?_extended (by omega) hlen.2 hj h2 h3

/-- A LIFETIME of zero appended after a valid MESSAGE-INTEGRITY is found. -/
theorem find_appended_lifetime :
    let a : Bytes := [0, 4, 0, 32, 33, 18, 164, 66, 7, 7, 7, 7, 7, 7, 7, 7, 7, 7, 7, 7,
      0, 8, 0, 20, 0, 27, 45, 19, 145, 1, 161, 129, 31, 52, 106, 251, 99, 73, 80, 32,
      61, 109, 207, 79, 128, 40, 0, 4, 254, 48, 226, 234]
    let b := writeU16Be (a.take 44 ++ tlv ⟨.lifetime, [0, 0, 0, 0]⟩) 2 32
    ∃ dA dB, decode a = some dA ∧ decode b = some dB ∧
      dA.checkIntegrity [107] false = true ∧ dB.checkIntegrity [107] false = true ∧
      dA.findIntegrityOffset = some 20 ∧
      (∀ j, j < 20 + 4 + (readU16Be a (20 + 2)).toNat → j ≠ 2 → j ≠ 3 → a[j]? = b[j]?) ∧
      dA.find .lifetime = none ∧ dB.find .lifetime = some [0, 0, 0, 0] := by
  intro a b
  have hA : (decode a).map (fun d => (d.checkIntegrity [107] false, d.findIntegrityOffset,
      d.find .lifetime)) = some (true, some 20, none) := by decide +kernel
  have hB : (decode b).map (fun d => (d.checkIntegrity [107] false, d.find .lifetime)) =
      some (true, some [0, 0, 0, 0]) := by decide +kernel
  have hlen : (readU16Be a (20 + 2)).toNat = 20 ∧ 44 ≤ a.length := by decide +kernel
  obtain ⟨dA, hdA, hvA⟩ := Option.map_eq_some_iff.mp hA
  obtain ⟨dB, hdB, hvB⟩ := Option.map_eq_some_iff.mp hB
  simp only [Prod.mk.injEq] at hvA hvB
  refine ⟨dA, dB, hdA, hdB, hvA.1, hvB.1, hvA.2.1, ?_, hvA.2.2, hvB.2⟩
  intro j hj h2 h3
  rw [hlen.1] at hj
  exact getElem?_extended (by omega) hlen.2 hj h2 h3

end Stice.Stun
