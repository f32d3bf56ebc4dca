import Mathlib

/-! A list as a table whose rows are changed in place: what holds of every row, what a change
leaves as it was, and how it moves a count. -/
namespace Stice.Lib

variable {α β : Type} {l : List α} {f : α → α} {j : Nat}

theorem exists_of_any {o : Option α} {p : α → Bool} (h : o.any p = true) :
    ∃ x, o = some x ∧ p x = true := by
  cases o with
  | none => cases h
  | some x => exact ⟨x, rfl, h⟩

theorem getElem?_modify_cases {k : Nat} {y : α} (h : (l.modify j f)[k]? = some y) :
    ∃ x, l[k]? = some x ∧ (y = x ∨ k = j ∧ y = f x) := by
  rw [List.getElem?_modify] at h
  obtain ⟨x, hx, rfl⟩ := Option.map_eq_some_iff.mp h
  refine ⟨x, hx, ?_⟩
  split
  · rename_i hj
    exact .inr ⟨hj.symm, rfl⟩
  · exact .inl rfl

theorem mem_modify_cases {y : α} (h : y ∈ l.modify j f) :
    y ∈ l ∨ ∃ x, l[j]? = some x ∧ y = f x := by
  obtain ⟨k, hk⟩ := List.mem_iff_getElem?.mp h
  obtain ⟨x, hx, rfl | ⟨rfl, rfl⟩⟩ := getElem?_modify_cases hk
  · exact .inl (List.mem_of_getElem? hx)
  · exact .inr ⟨x, hx, rfl⟩

theorem getElem?_concat_cases {k : Nat} {x y : α} (h : (l ++ [x])[k]? = some y) :
    l[k]? = some y ∨ l.length ≤ k ∧ y = x := by
  rw [List.getElem?_append] at h
  split at h
  · exact .inl h
  · rename_i hk
    exact .inr ⟨Nat.le_of_not_lt hk, List.mem_singleton.mp (List.mem_of_getElem? h)⟩

theorem forall_mem_modify {P : α → Prop} (h : ∀ x ∈ l, P x)
    (hf : ∀ x, l[j]? = some x → P (f x)) : ∀ y ∈ l.modify j f, P y := by
  intro y hy
  rcases mem_modify_cases hy with hmem | ⟨x, hx, rfl⟩
  · exact h y hmem
  · exact hf x hx

theorem forall_mem_concat {P : α → Prop} {x : α} (h : ∀ y ∈ l, P y) (hx : P x) :
    ∀ y ∈ l ++ [x], P y :=
  List.forall_mem_append.mpr ⟨h, List.forall_mem_singleton.mpr hx⟩

/-- A change of one row is not seen where that row looks the same. -/
theorem map_modify_of_row {g : α → β} (hf : ∀ x, l[j]? = some x → g (f x) = g x) :
    (l.modify j f).map g = l.map g := by
  refine List.ext_getElem? fun k => ?_
  rw [List.getElem?_map, List.getElem?_map, List.getElem?_modify]
  cases hx : l[k]? with
  | none => rfl
  | some x =>
    split
    · rename_i hjk
      exact congrArg some (hf x (hjk ▸ hx))
    · rfl

theorem map_modify_eq {g : α → β} (hf : ∀ x, g (f x) = g x) (j : Nat) :
    (l.modify j f).map g = l.map g :=
  map_modify_of_row fun x _ => hf x

theorem map_mapIdx_eq {g : α → β} {f : Nat → α → α} (hf : ∀ i x, g (f i x) = g x) :
    (l.mapIdx f).map g = l.map g := by
  refine List.ext_getElem? fun k => ?_
  rw [List.getElem?_map, List.getElem?_map, List.getElem?_mapIdx]
  cases l[k]? with
  | none => rfl
  | some x => exact congrArg some (hf k x)

/-- A change of one row moves a count by what that row counts before and after. -/
theorem pairwise_set {R : α → α → Prop} {x : α} (h : l.Pairwise R)
    (hx : ∀ y ∈ l, R x y ∧ R y x) (j : Nat) : (l.set j x).Pairwise R := by
  induction l generalizing j with
  | nil => exact .nil
  | cons y l ih =>
    obtain ⟨hy, hl⟩ := List.pairwise_cons.mp h
    cases j with
    | zero => exact .cons (fun z hz => (hx z (List.mem_cons_of_mem _ hz)).1) hl
    | succ j =>
      refine .cons ?_ (ih hl (fun z hz => hx z (List.mem_cons_of_mem _ hz)) j)
      intro z hz
      rcases List.mem_or_eq_of_mem_set hz with hz | rfl
      · exact hy z hz
      · exact (hx y List.mem_cons_self).2

theorem countP_modify (p : α → Bool) {x : α} (hx : l[j]? = some x) :
    (l.modify j f).countP p + (p x).toNat = l.countP p + (p (f x)).toNat := by
  induction l generalizing j with
  | nil => cases hx
  | cons y l ih =>
    cases j with
    | zero =>
      cases hx
      rw [List.modify_zero_cons, List.countP_cons, List.countP_cons]
      cases p x <;> cases p (f x) <;> simp
    | succ j =>
      have hrest := ih (j := j) hx
      rw [List.modify_succ_cons, List.countP_cons, List.countP_cons]
      omega

theorem countP_modify_same (p : α → Bool) (h : ∀ x, l[j]? = some x → p (f x) = p x) :
    (l.modify j f).countP p = l.countP p := by
  cases hx : l[j]? with
  | none =>
    rw [List.modify_eq_set_getElem?, hx]
    rfl
  | some x =>
    have hcount := countP_modify (f := f) p hx
    rw [h x hx] at hcount
    omega

theorem countP_map_same (p : α → Bool) (h : ∀ x, p (f x) = p x) :
    (l.map f).countP p = l.countP p := by
  rw [List.countP_map]
  exact List.countP_congr fun x _ => by rw [Function.comp_apply, h x]

/-- A filter that keeps what is counted leaves the count. -/
theorem countP_filter_same (p keeps : α → Bool) (h : ∀ x, p x = true → keeps x = true) :
    (l.filter keeps).countP p = l.countP p := by
  rw [List.countP_filter]
  refine List.countP_congr fun x _ => ?_
  rw [Bool.and_eq_true]
  exact ⟨fun hx => hx.1, fun hx => ⟨hx, h x hx⟩⟩

end Stice.Lib
