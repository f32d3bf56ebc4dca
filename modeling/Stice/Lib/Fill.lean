import Mathlib

/-! Filling a table of limited size with the combinations of two lists. A combination is
entered if it is legal and no entry joins it yet; a full table ends the row that reaches
for a further entry. -/
namespace Stice.Lib

section
variable {α β γ : Type} (capacity : Nat) (legal : α → β → Bool) (joins : γ → α → β → Bool)
  (make : α → β → γ)

def fillRow (a : α) : List β → List γ → List γ
  | [], table => table
  | b :: cols, table =>
      if !legal a b || table.any (joins · a b) then fillRow a cols table
      else if capacity ≤ table.length then table
      else fillRow a cols (table ++ [make a b])

def fill (rows : List α) (cols : List β) (table : List γ) : List γ :=
  rows.foldl (fun table a => fillRow capacity legal joins make a cols table) table

variable {capacity legal joins make} {rows : List α} {cols : List β} {table : List γ}

/-- What entering a legal combination keeps, a row keeps. -/
theorem fillRow_rule {P : List γ → Prop} {a : α}
    (hstep : ∀ table, ∀ b ∈ cols, legal a b = true → (∀ c ∈ table, joins c a b = false) →
      table.length < capacity → P table → P (table ++ [make a b]))
    (h : P table) : P (fillRow capacity legal joins make a cols table) := by
  induction cols generalizing table with
  | nil => exact h
  | cons b cols ih =>
    have hcols : ∀ table, ∀ b ∈ cols, legal a b = true → (∀ c ∈ table, joins c a b = false) →
        table.length < capacity → P table → P (table ++ [make a b]) :=
      fun table b hb => hstep table b (List.mem_cons_of_mem _ hb)
    unfold fillRow
    split
    · exact ih hcols h
    · rename_i hnew
      rw [Bool.or_eq_true, not_or, Bool.not_eq_true', Bool.not_eq_false, List.any_eq_true,
        not_exists] at hnew
      split
      · exact h
      · rename_i hfull
        refine ih hcols (hstep table b List.mem_cons_self hnew.1 ?_ (Nat.lt_of_not_le hfull) h)
        intro c hc
        exact Bool.eq_false_iff.mpr fun hjoins => hnew.2 c ⟨hc, hjoins⟩

theorem fill_rule {P : List γ → Prop}
    (hstep : ∀ table, ∀ a ∈ rows, ∀ b ∈ cols, legal a b = true →
      (∀ c ∈ table, joins c a b = false) → table.length < capacity → P table →
      P (table ++ [make a b]))
    (h : P table) : P (fill capacity legal joins make rows cols table) := by
  induction rows generalizing table with
  | nil => exact h
  | cons a rows ih =>
    refine ih (fun table a ha => hstep table a (List.mem_cons_of_mem _ ha)) ?_
    exact fillRow_rule (fun table => hstep table a List.mem_cons_self) h

/-! ## Nothing is lost -/

theorem prefix_fillRow (a : α) : table <+: fillRow capacity legal joins make a cols table :=
  fillRow_rule (P := fun t => table <+: t) (fun _ _ _ _ _ _ h => h.trans (List.prefix_append _ _))
    (List.prefix_refl table)

theorem prefix_fill : table <+: fill capacity legal joins make rows cols table :=
  fill_rule (P := fun t => table <+: t)
    (fun _ _ _ _ _ _ _ _ h => h.trans (List.prefix_append _ _)) (List.prefix_refl table)

/-! ## A table that did not get full has every legal combination -/

theorem fillRow_complete {a : α} {b : β} (hmake : ∀ b, joins (make a b) a b = true)
    (hlength : (fillRow capacity legal joins make a cols table).length < capacity)
    (hb : b ∈ cols) (hlegal : legal a b = true) :
    ∃ c ∈ fillRow capacity legal joins make a cols table, joins c a b = true := by
  induction cols generalizing table with
  | nil => cases hb
  | cons b' cols ih =>
    unfold fillRow at hlength ⊢
    split at hlength
    · rename_i hskip
      rw [if_pos hskip]
      rcases List.mem_cons.mp hb with rfl | hb
      · -- the combination was skipped because an entry joins it already
        rw [hlegal, Bool.not_true, Bool.false_or, List.any_eq_true] at hskip
        obtain ⟨c, hc, hjoins⟩ := hskip
        exact ⟨c, (prefix_fillRow a).subset hc, hjoins⟩
      · exact ih hlength hb
    · rename_i hnew
      rw [if_neg hnew]
      split at hlength
      · rename_i hfull
        exact absurd hlength (Nat.not_lt_of_le hfull)
      · rename_i hroom
        rw [if_neg hroom]
        rcases List.mem_cons.mp hb with rfl | hb
        · exact ⟨make a b, (prefix_fillRow a).subset (List.mem_append_right _ List.mem_cons_self),
            hmake b⟩
        · exact ih hlength hb

theorem fill_complete {a : α} {b : β} (hmake : ∀ a b, joins (make a b) a b = true)
    (hlength : (fill capacity legal joins make rows cols table).length < capacity)
    (ha : a ∈ rows) (hb : b ∈ cols) (hlegal : legal a b = true) :
    ∃ c ∈ fill capacity legal joins make rows cols table, joins c a b = true := by
  induction rows generalizing table with
  | nil => cases ha
  | cons a' rows ih =>
    rcases List.mem_cons.mp ha with rfl | ha
    · have hprefix : fillRow capacity legal joins make a cols table <+:
          fill capacity legal joins make (a :: rows) cols table := prefix_fill
      obtain ⟨c, hc, hjoins⟩ := fillRow_complete (hmake a)
        (Nat.lt_of_le_of_lt hprefix.length_le hlength) hb hlegal
      exact ⟨c, hprefix.subset hc, hjoins⟩
    · exact ih hlength ha

end

end Stice.Lib
