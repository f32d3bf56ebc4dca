import Stice.Lib.Store
import Stice.Server.Alloc

/-! Relay ports (`allocRelayPort`): the random picks and the scan behind them find a port of
the range whenever one is free. -/
namespace Stice.Server
open Std Lib

/-- The ports of a range given by its ends in either order. -/
def InRange (first last port : UInt16) : Prop :=
  min first.toNat last.toNat ≤ port.toNat ∧ port.toNat ≤ max first.toNat last.toNat

theorem InRange.ne_zero {first last port : UInt16} (h : InRange first last port)
    (hpos : 1 ≤ min first.toNat last.toNat) : port ≠ 0 := by
  rintro rfl
  have hle : 1 ≤ (0 : UInt16).toNat := Nat.le_trans hpos h.1
  exact absurd hle (by decide)

theorem Config.first_pos (cfg : Config) :
    1 ≤ min cfg.relayPortBegin.toNat cfg.relayPortEnd.toNat := by
  have hpos := cfg.ports_pos
  omega

/-- The port at an offset into the range. -/
theorem inRange_ofNat {first last : UInt16} {i : Nat}
    (h : i < max first.toNat last.toNat - min first.toNat last.toNat + 1) :
    InRange first last (UInt16.ofNat (min first.toNat last.toNat + i)) := by
  have hfirst := first.toNat_lt
  have hlast := last.toNat_lt
  rw [InRange, UInt16.toNat_ofNat', Nat.mod_eq_of_lt (by omega)]
  omega

namespace Tables

theorem inRange_of_mem_random {first last port : UInt16} {random : Nat → UInt32}
    (h : port ∈ (relayPortCandidates first last random).1) : InRange first last port := by
  simp only [relayPortCandidates, List.mem_map] at h
  obtain ⟨i, -, rfl⟩ := h
  exact inRange_ofNat (Nat.mod_lt _ (Nat.succ_pos _))

/-- The scan visits the range. -/
theorem mem_scan_iff (first last port : UInt16) (random : Nat → UInt32) :
    port ∈ (relayPortCandidates first last random).2 ↔ InRange first last port := by
  simp only [relayPortCandidates, List.mem_map, List.mem_range]
  constructor
  · rintro ⟨i, hi, rfl⟩
    exact inRange_ofNat hi
  · intro h
    obtain ⟨hlo, hhi⟩ := h
    refine ⟨port.toNat - min first.toNat last.toNat, by omega, ?_⟩
    rw [Nat.add_sub_cancel' hlo, UInt16.ofNat_toNat]

theorem unused_of_portFree {t : Tables} {avoid : List UInt16} {port : UInt16}
    (h : t.portFree avoid port = true) : t.usedRelayPorts[port]? = none := by
  simp only [portFree, Bool.and_eq_true, Bool.not_eq_true'] at h
  exact TreeMap.getElem?_eq_none_of_contains_eq_false h.1

/-- A free port of the range is found and marked, or there is none. -/
theorem allocRelayPortIn_cases (first last : UInt16) (random : Nat → UInt32)
    (avoid : List UInt16) (t : Tables) :
    (∃ port, InRange first last port ∧ t.portFree avoid port = true ∧
      allocRelayPortIn first last random avoid t =
        (port, { t with usedRelayPorts := t.usedRelayPorts.insert port none })) ∨
    ((∀ port, InRange first last port → t.portFree avoid port = false) ∧
      allocRelayPortIn first last random avoid t = (0, t)) := by
  simp only [allocRelayPortIn]
  split
  · rename_i port hport
    left
    rcases Option.or_eq_some_iff.mp hport with hrandom | ⟨-, hscan⟩
    · exact ⟨port, inRange_of_mem_random (List.mem_of_find?_eq_some hrandom),
        List.find?_some hrandom, rfl⟩
    · exact ⟨port, (mem_scan_iff _ _ _ random).mp (List.mem_of_find?_eq_some hscan),
        List.find?_some hscan, rfl⟩
  · rename_i hnone
    right
    refine ⟨?_, rfl⟩
    intro port hrange
    have hscan := (Option.or_eq_none_iff.mp hnone).2
    have hmem := (mem_scan_iff first last port random).mpr hrange
    exact Bool.eq_false_iff.mpr (List.find?_eq_none.mp hscan port hmem)

/-- `allocRelayPort` finds a port exactly if one is free, and marks that port and no other. -/
theorem allocRelayPort_complete (first last : UInt16) (random : Nat → UInt32)
    (avoid : List UInt16) (t : Tables) (hpos : 1 ≤ min first.toNat last.toNat) :
    ((∃ port, InRange first last port ∧ t.portFree avoid port = true) →
      InRange first last (allocRelayPortIn first last random avoid t).1 ∧
      t.portFree avoid (allocRelayPortIn first last random avoid t).1 = true ∧
      ∀ port, (allocRelayPortIn first last random avoid t).2.usedRelayPorts[port]? =
        if port = (allocRelayPortIn first last random avoid t).1 then some none
        else t.usedRelayPorts[port]?) ∧
    ((allocRelayPortIn first last random avoid t).1 = 0 ↔
      ¬ ∃ port, InRange first last port ∧ t.portFree avoid port = true) ∧
    ((allocRelayPortIn first last random avoid t).1 = 0 →
      (allocRelayPortIn first last random avoid t).2 = t) := by
  obtain ⟨found, hrange, hfree, heq⟩ | ⟨hnone, heq⟩ :=
    allocRelayPortIn_cases first last random avoid t
  · have hne : found ≠ 0 := hrange.ne_zero hpos
    rw [heq]
    refine ⟨fun _ => ⟨hrange, hfree, ?_⟩, ⟨fun h => absurd h hne, ?_⟩, fun h => absurd h hne⟩
    · intro port
      dsimp only
      split
      · rename_i hsame
        rw [hsame]
        exact TreeMap.getElem?_insert_self
      · rename_i hother
        exact getElem?_insert_of_ne hother
    · intro h
      exact absurd ⟨found, hrange, hfree⟩ h
  · have hempty : ¬ ∃ port, InRange first last port ∧ t.portFree avoid port = true := by
      rintro ⟨port, hrange, hfree⟩
      rw [hnone port hrange] at hfree
      cases hfree
    rw [heq]
    exact ⟨fun h => absurd h hempty, ⟨fun _ => hempty, fun _ => rfl⟩, fun _ => rfl⟩

/-- Ports 1 and 2, given in the wrong order, with 1 to be avoided and every random number 0. -/
theorem allocRelayPort_complete_reversed :
    InRange 2 1 (allocRelayPortIn 2 1 (fun _ => 0) [1] Tables.empty).1 ∧
      Tables.empty.portFree [1] (allocRelayPortIn 2 1 (fun _ => 0) [1] Tables.empty).1 = true := by
  have hfree : ∃ port, InRange 2 1 port ∧ Tables.empty.portFree [1] port = true :=
    ⟨2, by unfold InRange; decide, by decide⟩
  obtain ⟨hrange, hport, -⟩ :=
    (allocRelayPort_complete 2 1 (fun _ => 0) [1] Tables.empty (by decide)).1 hfree
  exact ⟨hrange, hport⟩

end Tables
end Stice.Server
