import Mathlib

/-! Cyclic redundancy codes in reflected form. The register holds the remainder with
its highest power in the lowest bit, so a division step shifts it down and a message
bit enters at the low end. `p` is the generator without its highest term. -/
namespace Stice.Lib.Crc

variable {w : Nat} (p : BitVec w)
variable {r : BitVec w} {bits : List Bool}

/-- One step of the division. -/
def shift (r : BitVec w) : BitVec w := if r.getLsbD 0 then p ^^^ (r >>> 1) else r >>> 1

def shifts : Nat → BitVec w → BitVec w
  | 0, r => r
  | n + 1, r => shifts n (shift p r)

def feed (r : BitVec w) (b : Bool) : BitVec w := shift p (r ^^^ (BitVec.ofBool b).setWidth w)

/-- The register after the bits of a message. -/
def remainder (r : BitVec w) (bits : List Bool) : BitVec w := bits.foldl (feed p) r

/-- The `n` lowest bits, lowest first. -/
def lowBits (n : Nat) (x : BitVec w) : List Bool := (List.range n).map x.getLsbD

theorem lowBits_succ (n : Nat) (x : BitVec w) :
    lowBits (n + 1) x = x.getLsbD 0 :: lowBits n (x >>> 1) := by
  simp [lowBits, List.range_succ_eq_map, Function.comp_def, Nat.add_comm]

@[simp] theorem remainder_append (r : BitVec w) (as bs : List Bool) :
    remainder p r (as ++ bs) = remainder p (remainder p r as) bs := List.foldl_append

/-! ## Linearity -/

theorem shift_xor (r s : BitVec w) : shift p (r ^^^ s) = shift p r ^^^ shift p s := by
  unfold shift
  rw [BitVec.getLsbD_xor, BitVec.ushiftRight_xor_distrib]
  cases r.getLsbD 0 <;> cases s.getLsbD 0
  · rfl
  · simp only [Bool.false_xor, if_true, Bool.false_eq_true, if_false]
    ac_rfl
  · simp only [Bool.xor_false, if_true, Bool.false_eq_true, if_false]
    ac_rfl
  · simp only [Bool.xor_self, if_true, Bool.false_eq_true, if_false]
    rw [show p ^^^ r >>> 1 ^^^ (p ^^^ s >>> 1) = p ^^^ p ^^^ (r >>> 1 ^^^ s >>> 1) by ac_rfl,
      BitVec.xor_self, BitVec.zero_xor]

theorem shifts_xor (n : Nat) (r s : BitVec w) :
    shifts p n (r ^^^ s) = shifts p n r ^^^ shifts p n s := by
  induction n generalizing r s with
  | zero => rfl
  | succ n ih => rw [shifts, shift_xor, ih, shifts, shifts]

theorem feed_xor (r s : BitVec w) (a b : Bool) :
    feed p (r ^^^ s) (a ^^ b) = feed p r a ^^^ feed p s b := by
  have hbit : (BitVec.ofBool (a ^^ b)).setWidth w =
      (BitVec.ofBool a).setWidth w ^^^ (BitVec.ofBool b).setWidth w := by
    rw [← BitVec.setWidth_xor]
    cases a <;> cases b <;> rfl
  unfold feed
  rw [← shift_xor, hbit]
  congr 1
  ac_rfl

theorem remainder_xor {as bs : List Bool} (h : as.length = bs.length) (r s : BitVec w) :
    remainder p (r ^^^ s) (List.zipWith Bool.xor as bs) =
      remainder p r as ^^^ remainder p s bs := by
  induction as generalizing bs r s with
  | nil => rw [List.length_eq_zero_iff.mp h.symm]; rfl
  | cons a as ih =>
    cases bs with
    | nil => cases h
    | cons b bs =>
      have hrest := ih (Nat.succ.inj h) (feed p r a) (feed p s b)
      rwa [← feed_xor] at hrest

/-! ## Words -/

theorem shifts_low_clear {n : Nat} {x : BitVec w} (h : ∀ i < n, x.getLsbD i = false) :
    shifts p n x = x >>> n := by
  induction n generalizing x with
  | zero => simp [shifts]
  | succ n ih =>
    have hshift : shift p x = x >>> 1 := by simp [shift, h 0 (by omega)]
    rw [shifts, hshift, ih, ← BitVec.shiftRight_add, Nat.add_comm]
    intro i hi
    simpa [Nat.add_comm] using h (i + 1) (by omega)

theorem bit_shiftRight (b : Bool) : (BitVec.ofBool b).setWidth w >>> 1 = 0#w := by
  ext i
  simp

/-- Feeding a word bit by bit is adding it to the register and shifting it out. -/
theorem remainder_lowBits {n : Nat} {x : BitVec w} (hx : x >>> n = 0#w) (r : BitVec w) :
    remainder p r (lowBits n x) = shifts p n (r ^^^ x) := by
  induction n generalizing x r with
  | zero =>
    have hx : x = 0#w := by simpa using hx
    rw [hx]
    simp [lowBits, remainder, shifts]
  | succ n ih =>
    -- the lowest bit is used up, the others move down as zeros would
    have hrest : shift p (x ^^^ (BitVec.ofBool (x.getLsbD 0)).setWidth w) = x >>> 1 := by
      have hlow : (x ^^^ (BitVec.ofBool (x.getLsbD 0)).setWidth w).getLsbD 0 = false := by
        rcases Nat.eq_zero_or_pos w with rfl | hw
        · exact BitVec.getLsbD_of_ge _ 0 (Nat.le_refl 0)
        · simp [hw]
      rw [shift, hlow, BitVec.ushiftRight_xor_distrib]
      rw [bit_shiftRight]
      simp
    have hnext := ih (x := x >>> 1) (by rw [← BitVec.shiftRight_add, Nat.add_comm, hx])
      (feed p r (x.getLsbD 0))
    rw [lowBits_succ]
    refine hnext.trans ?_
    rw [shifts, feed, ← hrest, ← shift_xor]
    congr 2
    rw [show ∀ a b c : BitVec w, a ^^^ c ^^^ (b ^^^ c) = a ^^^ b ^^^ (c ^^^ c) by intros; ac_rfl,
      BitVec.xor_self, BitVec.xor_zero]

/-! ## Errors -/

variable {p}

theorem shift_eq (hp : p.msb = true) (h : (shift p r).msb = false) :
    r.getLsbD 0 = false ∧ shift p r = r >>> 1 := by
  have hlow : r.getLsbD 0 = false := by
    by_contra hodd
    simp [shift, Bool.eq_true_of_not_eq_false hodd, hp] at h
  simp [shift, hlow]

theorem shift_eq_zero (hp : p.msb = true) (h : shift p r = 0#w) : r = 0#w := by
  obtain ⟨hlow, hshift⟩ := shift_eq hp (by rw [h, BitVec.msb_zero])
  apply BitVec.eq_of_getLsbD_eq
  intro i hi
  cases i with
  | zero => simpa using hlow
  | succ i =>
    have hbit := congrArg (BitVec.getLsbD · i) (hshift.symm.trans h)
    simpa [Nat.add_comm] using hbit

/-- A register that the bits bring to zero consists of these bits. -/
theorem eq_lowBits (hp : p.msb = true) (hlen : bits.length ≤ w) (h : remainder p r bits = 0#w) :
    bits = lowBits bits.length r ∧ r >>> bits.length = 0#w := by
  induction bits generalizing r with
  | nil => exact ⟨rfl, by simpa [remainder] using h⟩
  | cons b bits ih =>
    obtain ⟨hbits, hr⟩ := ih (Nat.le_of_succ_le hlen) h
    have hmsb : (feed p r b).msb = false := by
      have hbit := congrArg (BitVec.getLsbD · (w - 1 - bits.length)) hr
      have hlast : bits.length + (w - 1 - bits.length) = w - 1 := by
        simp only [List.length_cons] at hlen
        omega
      simpa [BitVec.msb_eq_getLsbD_last, hlast] using hbit
    obtain ⟨hlow, hshift⟩ := shift_eq hp hmsb
    have hb : b = r.getLsbD 0 := by
      have hw : 0 < w := by
        simp only [List.length_cons] at hlen
        omega
      rw [BitVec.getLsbD_xor, bne_eq_false_iff_eq] at hlow
      simpa [hw] using hlow.symm
    have hnext : feed p r b = r >>> 1 := by
      refine hshift.trans ?_
      rw [BitVec.ushiftRight_xor_distrib, bit_shiftRight, BitVec.xor_zero]
    rw [hnext] at hbits hr
    rw [← BitVec.shiftRight_add, Nat.add_comm] at hr
    exact ⟨by rw [List.length_cons, lowBits_succ, ← hb, ← hbits], hr⟩

theorem remainder_zeros (n : Nat) : remainder p 0#w (List.replicate n false) = 0#w := by
  induction n with
  | zero => rfl
  | succ n ih =>
    have hfeed : feed p 0#w false = 0#w := by simp [feed, shift]
    rw [List.replicate_succ, remainder, List.foldl_cons, hfeed]
    exact ih

theorem eq_zero_of_zeros {n : Nat} (hp : p.msb = true)
    (h : remainder p r (List.replicate n false) = 0#w) : r = 0#w := by
  induction n generalizing r with
  | zero => exact h
  | succ n ih =>
    rw [List.replicate_succ] at h
    have hfeed : feed p r false = 0#w := ih h
    exact shift_eq_zero hp (by simpa [feed] using hfeed)

theorem eq_zeros (h : ∀ b ∈ bits, b ≠ true) : bits = List.replicate bits.length false :=
  List.eq_replicate_of_mem fun b hb => Bool.eq_false_of_not_eq_true (h b hb)

/-- Errors within `w` consecutive bits are detected. -/
theorem remainder_burst {a : Nat} (hp : p.msb = true) (hbit : true ∈ bits)
    (hburst : ∀ i, bits[i]? = some true → a ≤ i ∧ i < a + w) : remainder p 0#w bits ≠ 0#w := by
  have hbefore : ∀ b ∈ bits.take a, b ≠ true := by
    rintro b hb rfl
    obtain ⟨i, hi⟩ := List.mem_iff_getElem?.mp hb
    rw [List.getElem?_take] at hi
    split at hi
    · have := hburst i hi
      omega
    · cases hi
  have hafter : ∀ b ∈ bits.drop (a + w), b ≠ true := by
    rintro b hb rfl
    obtain ⟨i, hi⟩ := List.mem_iff_getElem?.mp hb
    rw [List.getElem?_drop] at hi
    have := hburst _ hi
    omega
  have hsplit : bits = bits.take a ++ ((bits.drop a).take w ++ bits.drop (a + w)) := by
    rw [← List.drop_drop, List.take_append_drop, List.take_append_drop]
  intro h
  rw [hsplit, remainder_append, remainder_append, eq_zeros hbefore, remainder_zeros,
    eq_zeros hafter] at h
  obtain ⟨hbits, -⟩ := eq_lowBits hp (List.length_take_le _ _) (eq_zero_of_zeros hp h)
  have hwindow : true ∉ (bits.drop a).take w := by
    rw [hbits]
    simp [lowBits]
  rw [hsplit, List.mem_append, List.mem_append] at hbit
  rcases hbit with hbit | hbit | hbit
  · exact hbefore true hbit rfl
  · exact hwindow hbit
  · exact hafter true hbit rfl

end Stice.Lib.Crc
