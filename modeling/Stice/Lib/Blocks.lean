import Mathlib

/-! A list cut into blocks of `n` elements; a shorter rest belongs to no block. -/
namespace Stice.Lib

variable {α : Type} {n : Nat} {xs ys : List α}

def blocks (n : Nat) (xs : List α) : List (List α) :=
  (List.range (xs.length / n)).map fun i => (xs.drop (n * i)).take n

theorem blocks_append (hn : 0 < n) (h : n ∣ xs.length) :
    blocks n (xs ++ ys) = blocks n xs ++ blocks n ys := by
  obtain ⟨k, hk⟩ := h
  have hcount : (xs ++ ys).length / n = k + ys.length / n := by
    rw [List.length_append, hk, Nat.mul_add_div hn]
  simp only [blocks, hcount, hk, Nat.mul_div_cancel_left k hn, List.range_add, List.map_append,
    List.map_map]
  congr 1
  · apply List.map_congr_left
    intro i hi
    have hlt : n * i + n ≤ xs.length := by
      rw [hk, ← Nat.mul_succ]
      exact Nat.mul_le_mul_left n (List.mem_range.mp hi)
    rw [List.drop_append_of_le_length (by omega), List.take_append_of_le_length]
    rw [List.length_drop]
    omega
  · apply List.map_congr_left
    intro i _
    rw [Function.comp_apply, Nat.mul_add, ← hk, ← List.drop_drop, List.drop_left]

theorem blocks_single (hn : 0 < n) (h : xs.length = n) : blocks n xs = [xs] := by
  subst h
  simp [blocks, Nat.div_self hn]

end Stice.Lib
