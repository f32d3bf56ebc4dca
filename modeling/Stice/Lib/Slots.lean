import Mathlib

/-! Entries of a table that occupy slots, at most one entry a slot. A flag for each slot
says that it is taken, so that nobody else enters. -/
namespace Stice.Lib

variable {K S : Type} {occ occ' : K → Option S} {flag flag' : S → Bool} {k : K} {s : S}

/-- The flag of an occupied slot is set, and no two entries occupy the same slot. -/
structure Exclusive (occ : K → Option S) (flag : S → Bool) : Prop where
  armed : ∀ k s, occ k = some s → flag s = true
  unique : ∀ k₁ k₂ s, occ k₁ = some s → occ k₂ = some s → k₁ = k₂

theorem Exclusive.empty (h : ∀ k, occ k = none) : Exclusive occ flag where
  armed k _ hk := nomatch (h k).symm.trans hk
  unique k _ _ hk := nomatch (h k).symm.trans hk

/-- Entries leave, and the flags of the others stay. -/
theorem Exclusive.subset (h : Exclusive occ flag)
    (hocc : ∀ k s, occ' k = some s → occ k = some s ∧ (flag s = true → flag' s = true)) :
    Exclusive occ' flag' where
  armed k s hk := (hocc k s hk).2 (h.armed k s (hocc k s hk).1)
  unique k₁ k₂ s h₁ h₂ := h.unique k₁ k₂ s (hocc k₁ s h₁).1 (hocc k₂ s h₂).1

/-- An entry takes a slot that is free. -/
theorem Exclusive.acquire (h : Exclusive occ flag) (hfree : flag s = false)
    (hocc : ∀ k' s', occ' k' = some s' → k' = k ∧ s' = s ∨ occ k' = some s')
    (hself : flag' s = true) (hflag : ∀ s', flag s' = true → flag' s' = true) :
    Exclusive occ' flag' := by
  have hnot : ∀ k', occ k' ≠ some s := by
    intro k' hk'
    rw [h.armed k' s hk'] at hfree
    cases hfree
  constructor
  case armed =>
    intro k' s' hk'
    obtain ⟨-, rfl⟩ | hk' := hocc k' s' hk'
    · exact hself
    · exact hflag s' (h.armed k' s' hk')
  case unique =>
    intro k₁ k₂ s' h₁ h₂
    obtain ⟨rfl, rfl⟩ | h₁ := hocc k₁ s' h₁
    · obtain ⟨rfl, -⟩ | h₂ := hocc k₂ s' h₂
      · rfl
      · exact absurd h₂ (hnot k₂)
    · obtain ⟨rfl, rfl⟩ | h₂ := hocc k₂ s' h₂
      · exact absurd h₁ (hnot k₁)
      · exact h.unique k₁ k₂ s' h₁ h₂

/-- An entry leaves its slot. -/
theorem Exclusive.release (h : Exclusive occ flag) (hk : occ k = some s)
    (hocc : ∀ k' s', occ' k' = some s' → k' ≠ k ∧ occ k' = some s')
    (hflag : ∀ s', s' ≠ s → flag s' = true → flag' s' = true) : Exclusive occ' flag' := by
  refine h.subset fun k' s' hk' => ?_
  obtain ⟨hne, hold⟩ := hocc k' s' hk'
  refine ⟨hold, hflag s' ?_⟩
  rintro rfl
  exact hne (h.unique k' k s' hold hk)

/-- Every flag that is set has an entry. -/
def Held (occ : K → Option S) (flag : S → Bool) : Prop := ∀ s, flag s = true → ∃ k, occ k = some s

theorem Held.mono (h : Held occ flag) (hflag : ∀ s, flag' s = true → flag s = true)
    (hocc : ∀ k s, occ k = some s → flag' s = true → occ' k = some s) : Held occ' flag' := by
  intro s hs
  obtain ⟨k, hk⟩ := h s (hflag s hs)
  exact ⟨k, hocc k s hk hs⟩

/-- An entry takes a slot under a key that is not in use. -/
theorem Held.acquire (h : Held occ flag) (hself : occ' k = some s)
    (hocc : ∀ k' s', occ k' = some s' → occ' k' = some s')
    (hflag : ∀ s', s' ≠ s → flag' s' = true → flag s' = true) : Held occ' flag' := by
  intro s' hs'
  by_cases hss : s' = s
  · exact ⟨k, hss ▸ hself⟩
  · obtain ⟨k', hk'⟩ := h s' (hflag s' hss hs')
    exact ⟨k', hocc k' s' hk'⟩

end Stice.Lib
