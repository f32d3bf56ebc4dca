import Mathlib

/-! A queue whose elements keep their address while others are appended, as those of
`std::deque` do. The element at position `i` has the address `base + i`; a queue that takes
over the storage of another one continues at addresses its own elements never had, so an
address of the old storage designates nothing in the new one. -/
namespace Stice.Lib

structure Deque (α : Type) where
  base : Nat
  elems : List α
  deriving DecidableEq, Repr

namespace Deque

variable {α : Type} {d : Deque α} {a b : α} {p : Nat}

/-- The address behind the last element. -/
def stop (d : Deque α) : Nat := d.base + d.elems.length

/-- The element an address designates. -/
def at? (d : Deque α) (p : Nat) : Option α :=
  if d.base ≤ p then d.elems[p - d.base]? else none

/-- The elements with their addresses. -/
def refs (d : Deque α) : List (α × Nat) := d.elems.zipIdx d.base

def pushBack (d : Deque α) (a : α) : Deque α := { d with elems := d.elems ++ [a] }

def popBack (d : Deque α) : Deque α := { d with elems := d.elems.dropLast }

/-- Move assignment: the elements arrive in storage of their own. -/
def assign (d : Deque α) (l : List α) : Deque α := ⟨d.stop, l⟩

theorem at?_eq_some : d.at? p = some a ↔ d.base ≤ p ∧ d.elems[p - d.base]? = some a := by
  unfold at?
  split
  · rename_i hp
    exact (and_iff_right hp).symm
  · rename_i hp
    exact ⟨nofun, fun h => absurd h.1 hp⟩

theorem mem_refs : (a, p) ∈ d.refs ↔ d.at? p = some a := by
  rw [refs, List.mk_mem_zipIdx_iff_le_and_getElem?_sub, at?_eq_some]

theorem fst_mem_of_mem_refs {x : α × Nat} (h : x ∈ d.refs) : x.1 ∈ d.elems :=
  List.fst_mem_of_mem_zipIdx h

theorem exists_mem_refs (h : a ∈ d.elems) : ∃ p, (a, p) ∈ d.refs := by
  obtain ⟨i, hi⟩ := List.getElem?_of_mem h
  refine ⟨d.base + i, mem_refs.mpr (at?_eq_some.mpr ⟨Nat.le_add_right _ _, ?_⟩)⟩
  rwa [Nat.add_sub_cancel_left]

theorem at?_pushBack (h : d.at? p = some a) : (d.pushBack b).at? p = some a := by
  obtain ⟨hbase, hget⟩ := at?_eq_some.mp h
  have hlt := (List.getElem?_eq_some_iff.mp hget).1
  exact at?_eq_some.mpr ⟨hbase, (List.getElem?_append_left hlt).trans hget⟩

theorem at?_pushBack_stop (d : Deque α) (b : α) : (d.pushBack b).at? d.stop = some b := by
  refine at?_eq_some.mpr ⟨Nat.le_add_right _ _, ?_⟩
  rw [pushBack, stop, Nat.add_sub_cancel_left]
  exact List.getElem?_concat_length

theorem at?_of_pushBack (h : (d.pushBack b).at? p = some a) :
    d.at? p = some a ∨ p = d.stop ∧ a = b := by
  obtain ⟨hbase, hget⟩ := at?_eq_some.mp h
  rw [pushBack, List.getElem?_append] at hget
  split at hget
  · exact .inl (at?_eq_some.mpr ⟨hbase, hget⟩)
  · rename_i hlt
    have hzero := (List.getElem?_eq_some_iff.mp hget).1
    rw [List.length_singleton] at hzero
    change d.base ≤ p at hbase
    change ¬p - d.base < d.elems.length at hlt
    change p - d.base - d.elems.length < 1 at hzero
    refine .inr ⟨by unfold stop; omega, ?_⟩
    rw [Nat.lt_one_iff.mp hzero] at hget
    exact (Option.some.inj hget).symm

@[simp] theorem popBack_pushBack (d : Deque α) (a : α) : (d.pushBack a).popBack = d := by
  simp [pushBack, popBack]

end Deque

end Stice.Lib
