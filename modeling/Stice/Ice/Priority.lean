import Stice.Ice.Candidate

/-! The arithmetic of priorities. A candidate's priority packs the three preferences of
RFC 8445 §5.1.2.1 into 32 bits, and a pair's priority weighs the two candidates' priorities
by `2 ^ 32 - 1` where RFC 8445 §6.1.2.3 has `2 ^ 32`. -/
namespace Stice.Ice

namespace Candidate
open Net

def typePreference : CandidateType → Nat
  | .host => 126
  | .peerReflexive => 110
  | .serverReflexive => 100
  | .relayed | .unknown => 0

/-- A TCP candidate's type preference is lowered by the offset and stops at zero. -/
def typePref (offset : Nat) (type : CandidateType) (transport : CandidateTransport) : Nat :=
  if transport = .udp then typePreference type else typePreference type - offset

def clampedIndex (index : Int) : Nat := (min index 4095).toNat

def clampedComponent (component : Int) : Nat := (max 1 (min component 256)).toNat

/-- RFC 6544 §4.2 for TCP, with the largest value for the other preference. -/
def localPref (type : CandidateType) (transport : CandidateTransport) (index : Int) : Nat :=
  (if transport = .udp then 65535 else (directionPref type transport).toNat * 2 ^ 13 + 8191) -
    clampedIndex index

theorem toNat_packed {t l c : UInt32} (ht : t.toNat < 2 ^ 7) (hl : l.toNat < 2 ^ 16)
    (hc : c.toNat < 2 ^ 8) :
    (((t <<< 24) ||| (l <<< 8)) + c).toNat = t.toNat * 2 ^ 24 + l.toNat * 2 ^ 8 + c.toNat := by
  have htop : (t <<< 24).toNat = t.toNat <<< 24 := by
    rw [UInt32.toNat_shiftLeft, Nat.mod_eq_of_lt]
    · rfl
    · simp only [Nat.shiftLeft_eq, UInt32.reduceToNat, Nat.reduceMod]
      omega
  have hmid : (l <<< 8).toNat = l.toNat * 2 ^ 8 := by
    rw [UInt32.toNat_shiftLeft, Nat.mod_eq_of_lt]
    · rw [Nat.shiftLeft_eq]
      rfl
    · simp only [Nat.shiftLeft_eq, UInt32.reduceToNat, Nat.reduceMod]
      omega
  have hor : ((t <<< 24) ||| (l <<< 8)).toNat = t.toNat * 2 ^ 24 + l.toNat * 2 ^ 8 := by
    rw [UInt32.toNat_or, htop, hmid, ← Nat.shiftLeft_add_eq_or_of_lt (by omega), Nat.shiftLeft_eq]
  rw [UInt32.toNat_add, hor, Nat.mod_eq_of_lt (by omega)]

theorem directionPref_le (type : CandidateType) (transport : CandidateTransport) :
    (directionPref type transport).toNat ≤ 6 := by
  cases type <;> cases transport <;> decide

theorem typePref_lt (offset : Nat) (type : CandidateType) (transport : CandidateTransport) :
    typePref offset type transport < 2 ^ 7 := by
  have hle : typePreference type ≤ 126 := by cases type <;> decide
  unfold typePref
  split <;> omega

theorem localPref_lt (type : CandidateType) (transport : CandidateTransport) (index : Int) :
    localPref type transport index < 2 ^ 16 := by
  have hdir := directionPref_le type transport
  unfold localPref
  split <;> omega

theorem clampedComponent_bounds (component : Int) :
    1 ≤ clampedComponent component ∧ clampedComponent component ≤ 256 := by
  unfold clampedComponent
  omega

section
variable {offset : UInt32} {type : CandidateType} {transport : CandidateTransport}

/-- The word of the type preference as the code computes it. -/
theorem typePref_word {pref : UInt32} (h : pref.toNat = typePreference type) :
    (if transport = .udp then pref else if offset ≤ pref then pref - offset else 0).toNat =
      typePref offset.toNat type transport := by
  unfold typePref
  split
  · exact h
  · split
    · rename_i hle
      rw [UInt32.toNat_sub_of_le _ _ hle, h]
    · rename_i hlt
      rw [UInt32.le_iff_toNat_le, h] at hlt
      rw [Nat.sub_eq_zero_of_le (by omega)]
      rfl

theorem clampedIndex_word (index : Int) :
    (if index > 4095 then 4095 else if index < 0 then 0
      else UInt32.ofNat index.toNat : UInt32).toNat
      = clampedIndex index := by
  unfold clampedIndex
  split
  · rw [show (4095 : UInt32).toNat = 4095 from rfl]
    omega
  · split
    · rw [show (0 : UInt32).toNat = 0 from rfl]
      omega
    · rw [UInt32.toNat_ofNat', Nat.mod_eq_of_lt] <;> omega

theorem localPref_word (type : CandidateType) (transport : CandidateTransport) :
    (if transport = .udp then (65535 : UInt32)
      else (directionPref type transport <<< 13) + 8191).toNat =
      if transport = .udp then 65535 else (directionPref type transport).toNat * 2 ^ 13 + 8191 := by
  cases type <;> cases transport <;> rfl

theorem clampedComponent_word (component : Int) :
    (UInt32.ofNat (256 - if component < 1 then 1
      else if component > 256 then 256 else component).toNat).toNat =
      256 - clampedComponent component := by
  have hcomp : (if component < 1 then 1 else if component > 256 then 256 else component) =
      (clampedComponent component : Int) := by
    unfold clampedComponent
    split
    · omega
    · split <;> omega
  have hbounds := clampedComponent_bounds component
  rw [hcomp, UInt32.toNat_ofNat', Nat.mod_eq_of_lt] <;> omega

end

section
variable (offset : UInt32) (type : CandidateType) {family : Family}

theorem computePriority_packed (hf : family ≠ .unspec) (component index : Int)
    (transport : CandidateTransport) :
    ∃ pref : UInt32, pref.toNat = typePreference type ∧
      computePriority offset type family component index transport =
        let top := if transport = .udp then pref else if offset ≤ pref then pref - offset else 0
        let l : UInt32 := if transport = .udp then 65535
          else (directionPref type transport <<< 13) + 8191
        let i : UInt32 := if index > 4095 then 4095
          else if index < 0 then 0 else UInt32.ofNat index.toNat
        ((top <<< 24) ||| ((if i ≤ l then l - i else l) <<< 8)) +
          UInt32.ofNat (256 - if component < 1 then 1
            else if component > 256 then 256 else component).toNat := by
  unfold computePriority
  rw [if_neg hf]
  cases type <;> exact ⟨_, rfl, rfl⟩

/-- The priority is the sum of its three fields, each in bits of its own. -/
theorem toNat_computePriority (hf : family ≠ .unspec) (component index : Int)
    (transport : CandidateTransport) :
    (computePriority offset type family component index transport).toNat =
      typePref offset.toNat type transport * 2 ^ 24 + localPref type transport index * 2 ^ 8 +
        (256 - clampedComponent component) := by
  obtain ⟨pref, htype, hpacked⟩ := computePriority_packed offset type hf component index transport
  have hbase := localPref_word type transport
  have hidx := clampedIndex_word index
  have hcomp := clampedComponent_word component
  have hbounds := clampedComponent_bounds component
  have hle : clampedIndex index ≤ 4095 := by
    unfold clampedIndex
    omega
  rw [hpacked]
  dsimp only
  generalize hl : (if transport = .udp then (65535 : UInt32)
    else (directionPref type transport <<< 13) + 8191) = l at hbase ⊢
  generalize hi : (if index > 4095 then 4095 else if index < 0 then 0
    else UInt32.ofNat index.toNat : UInt32) = i at hidx ⊢
  have hsub : i ≤ l := by
    rw [UInt32.le_iff_toNat_le, hbase, hidx]
    split <;> omega
  have hlocal : (l - i).toNat = localPref type transport index := by
    rw [UInt32.toNat_sub_of_le _ _ hsub, hbase, hidx, localPref]
  have htop := @typePref_word offset type transport _ htype
  rw [if_pos hsub, toNat_packed, htop, hlocal, hcomp]
  · rw [htop]
    exact typePref_lt _ _ _
  · rw [hlocal]
    exact localPref_lt _ _ _
  · rw [hcomp]
    omega

theorem localPref_antitone (transport : CandidateTransport) {i j : Int} (h : i ≤ j) :
    localPref type transport j ≤ localPref type transport i := by
  unfold localPref clampedIndex
  omega

theorem clampedComponent_mono {i j : Int} (h : i ≤ j) :
    clampedComponent i ≤ clampedComponent j := by
  unfold clampedComponent
  omega

/-- A type preference of zero cannot be lowered; there the local preferences decide. -/
theorem udp_fields_above {offset : Nat} (h : 1 ≤ offset) {transport : CandidateTransport}
    (ht : transport ≠ .udp) (i j : Int) :
    typePref offset type transport < typePref offset type .udp ∨
      typePref offset type transport = typePref offset type .udp ∧
        localPref type transport i < localPref type .udp j := by
  have hdir := directionPref_le type transport
  have htcp : typePref offset type transport = typePreference type - offset := if_neg ht
  have hudp : typePref offset type .udp = typePreference type := if_pos rfl
  rw [htcp, hudp]
  by_cases hzero : typePreference type = 0
  · refine .inr ⟨by omega, ?_⟩
    unfold localPref clampedIndex
    rw [if_neg ht, if_pos rfl]
    omega
  · exact .inl (by omega)

/-- For an address of either family, a priority is its three fields side by side, falls with
the index and with the component, and is larger over UDP than over TCP. -/
theorem computePriority_lexicographic (hoffset : 1 ≤ offset) (hf : family ≠ .unspec)
    (component index : Int) (transport : CandidateTransport) :
    let p := computePriority offset type family
    (p component index transport).toNat < 2 ^ 31 ∧
      ((p component index transport).toNat =
        typePref offset.toNat type transport * 2 ^ 24 + localPref type transport index * 2 ^ 8 +
          (256 - clampedComponent component) ∧
        localPref type transport index < 2 ^ 16 ∧ 256 - clampedComponent component < 2 ^ 8) ∧
      (∀ index', index ≤ index' → p component index' transport ≤ p component index transport) ∧
      (∀ component', component ≤ component' →
        p component' index transport ≤ p component index transport) ∧
      ∀ family' ≠ .unspec, ∀ component' index' transport', transport' ≠ .udp →
        computePriority offset type family' component' index' transport' <
          p component index .udp := by
  have hcomp := clampedComponent_bounds component
  have htype := typePref_lt offset.toNat type transport
  have hlocal := localPref_lt type transport index
  dsimp only
  refine ⟨?below, ⟨toNat_computePriority offset type hf component index transport, hlocal,
    by omega⟩, fun index' hle => ?index, fun component' hle => ?component,
    fun family' hf' component' index' transport' ht => ?udp⟩
  case below =>
    rw [toNat_computePriority offset type hf]
    omega
  case index =>
    have hanti := localPref_antitone type transport hle
    rw [UInt32.le_iff_toNat_le, toNat_computePriority offset type hf,
      toNat_computePriority offset type hf]
    omega
  case component =>
    have hmono := clampedComponent_mono hle
    rw [UInt32.le_iff_toNat_le, toNat_computePriority offset type hf,
      toNat_computePriority offset type hf]
    omega
  case udp =>
    have hcomp' := clampedComponent_bounds component'
    have hlocal' := localPref_lt type transport' index'
    rw [UInt32.lt_iff_toNat_lt, toNat_computePriority offset type hf,
      toNat_computePriority offset type hf']
    obtain habove | ⟨heq, habove⟩ := udp_fields_above type
      (UInt32.le_iff_toNat_le.mp hoffset) ht index' index
    · omega
    · rw [heq]
      omega

theorem computePriority_lexicographic_relayed :
    computePriority 27 .relayed .inet6 300 7 .tcpActive <
      computePriority 27 .relayed .inet 256 4096 .udp :=
  (computePriority_lexicographic 27 .relayed (by decide) (by decide) 256 4096 .udp).2.2.2.2
    .inet6 (by decide) 300 7 .tcpActive (by decide)

end

end Candidate

namespace CandidatePair

/-- The formula of RFC 8445 §6.1.2.3 with weight `w` for the smaller priority. -/
def weighted (w g d : Nat) : Nat := w * min g d + 2 * max g d + if d < g then 1 else 0

/-- The formula itself, for the controlling agent's priority `g`. -/
def rfcPriority (localPriority remotePriority : UInt32) (localIsControlling : Bool) : Nat :=
  if localIsControlling then weighted (2 ^ 32) localPriority.toNat remotePriority.toNat
  else weighted (2 ^ 32) remotePriority.toNat localPriority.toNat

/-- The formula with the weight the code has. -/
def codePriority (localPriority remotePriority : UInt32) (localIsControlling : Bool) : Nat :=
  if localIsControlling then weighted (2 ^ 32 - 1) localPriority.toNat remotePriority.toNat
  else weighted (2 ^ 32 - 1) remotePriority.toNat localPriority.toNat

theorem weighted_lt {g d : Nat} (hg : g < 2 ^ 32) (hd : d < 2 ^ 32) :
    weighted (2 ^ 32 - 1) g d < 2 ^ 64 := by
  unfold weighted
  split <;> omega

theorem toNat_weighted (g d : UInt32) :
    ((((1 : UInt64) <<< 32) - 1) * (if g.toUInt64 < d.toUInt64 then g.toUInt64 else d.toUInt64) +
      ((if g.toUInt64 > d.toUInt64 then g.toUInt64 else d.toUInt64) <<< (1 : UInt64)) +
        if g.toUInt64 > d.toUInt64 then 1 else 0).toNat =
      weighted (2 ^ 32 - 1) g.toNat d.toNat := by
  have hg := g.toNat_lt
  have hd := d.toNat_lt
  have hw : (((1 : UInt64) <<< 32) - 1).toNat = 2 ^ 32 - 1 := rfl
  have hlt : g.toUInt64 < d.toUInt64 ↔ g.toNat < d.toNat := by
    rw [UInt64.lt_iff_toNat_lt, UInt32.toNat_toUInt64, UInt32.toNat_toUInt64]
  have hgt : g.toUInt64 > d.toUInt64 ↔ d.toNat < g.toNat := by
    rw [gt_iff_lt, UInt64.lt_iff_toNat_lt, UInt32.toNat_toUInt64, UInt32.toNat_toUInt64]
  have hsum := weighted_lt hg hd
  have hmin : (if g.toUInt64 < d.toUInt64 then g.toUInt64 else d.toUInt64).toNat =
      min g.toNat d.toNat := by
    rw [apply_ite UInt64.toNat, UInt32.toNat_toUInt64, UInt32.toNat_toUInt64, if_congr hlt rfl rfl]
    split <;> omega
  have hmax : (if g.toUInt64 > d.toUInt64 then g.toUInt64 else d.toUInt64).toNat =
      max g.toNat d.toNat := by
    rw [apply_ite UInt64.toNat, UInt32.toNat_toUInt64, UInt32.toNat_toUInt64, if_congr hgt rfl rfl]
    split <;> omega
  have hone : (if g.toUInt64 > d.toUInt64 then 1 else 0 : UInt64).toNat =
      if d.toNat < g.toNat then 1 else 0 := by
    rw [apply_ite UInt64.toNat, if_congr hgt rfl rfl]
    rfl
  have hshift : (1 : UInt64).toNat % 64 = 1 := rfl
  -- Every partial sum is at most the whole one, which fits.
  unfold weighted at hsum ⊢
  rw [UInt64.toNat_add, UInt64.toNat_add, UInt64.toNat_mul, UInt64.toNat_shiftLeft, hshift, hw,
    hmin, hmax, hone, Nat.shiftLeft_eq]
  omega

theorem toNat_computePriority (l r : UInt32) (localIsControlling : Bool) :
    (computePriority l r localIsControlling).toNat = codePriority l r localIsControlling := by
  cases localIsControlling with
  | true => exact toNat_weighted l r
  | false => exact toNat_weighted r l

/-- Below `2 ^ 31` the smaller priority outweighs the rest of the sum under both weights. -/
theorem weighted_lt_iff {g d g' d' : Nat} (hg : g < 2 ^ 31) (hd : d < 2 ^ 31) (hg' : g' < 2 ^ 31)
    (hd' : d' < 2 ^ 31) :
    weighted (2 ^ 32 - 1) g d < weighted (2 ^ 32 - 1) g' d' ↔
      weighted (2 ^ 32) g d < weighted (2 ^ 32) g' d' := by
  have hmax : 2 * max g d + (if d < g then 1 else 0) < 2 ^ 32 := by split <;> omega
  have hmax' : 2 * max g' d' + (if d' < g' then 1 else 0) < 2 ^ 32 := by split <;> omega
  have hmin : min g d ≤ max g d := by omega
  have hmin' : min g' d' ≤ max g' d' := by omega
  unfold weighted
  obtain hlt | heq | hgt := Nat.lt_trichotomy (min g d) (min g' d')
  · omega
  · rw [heq]
    omega
  · omega

theorem codePriority_lt_iff {l r l' r' : UInt32} (hl : l.toNat < 2 ^ 31) (hr : r.toNat < 2 ^ 31)
    (hl' : l'.toNat < 2 ^ 31) (hr' : r'.toNat < 2 ^ 31) (c c' : Bool) :
    codePriority l r c < codePriority l' r' c' ↔ rfcPriority l r c < rfcPriority l' r' c' := by
  cases c <;> cases c' <;> apply weighted_lt_iff <;> assumption

/-- A pair's priority is computed without overflow, is the same for both agents, and orders
pairs as the formula does as long as the candidates' priorities are below `2 ^ 31`. -/
theorem computePriority_pair (l r : UInt32) :
    (∀ c, codePriority l r c < 2 ^ 64 ∧ (computePriority l r c).toNat = codePriority l r c) ∧
      computePriority l r true = computePriority r l false ∧
      ∀ l' r' c c', l.toNat < 2 ^ 31 → r.toNat < 2 ^ 31 → l'.toNat < 2 ^ 31 → r'.toNat < 2 ^ 31 →
        (computePriority l r c < computePriority l' r' c' ↔
          rfcPriority l r c < rfcPriority l' r' c') := by
  refine ⟨fun c => ⟨?_, toNat_computePriority l r c⟩, rfl, fun l' r' c c' hl hr hl' hr' => ?_⟩
  · have hl := l.toNat_lt
    have hr := r.toNat_lt
    cases c with
    | true => exact weighted_lt hl hr
    | false => exact weighted_lt hr hl
  · rw [UInt64.lt_iff_toNat_lt, toNat_computePriority, toNat_computePriority]
    exact codePriority_lt_iff hl hr hl' hr' c c'

theorem computePriority_pair_boundary :
    computePriority 0 0x7fffffff true < computePriority 1 1 false ↔
      rfcPriority 0 0x7fffffff true < rfcPriority 1 1 false :=
  (computePriority_pair 0 0x7fffffff).2.2 1 1 true false (by decide) (by decide) (by decide)
    (by decide)

end CandidatePair
end Stice.Ice
