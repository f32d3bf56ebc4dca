import Mathlib

/-! Reading an ordered map after an update, with keys compared by equality: what
an entry of the new map says about the old one, and which old entries stay. -/
namespace Stice.Lib
open Std

section
variable {κ α : Type} [Ord κ] [TransOrd κ] [LawfulEqOrd κ] {m : TreeMap κ α} {a b : κ} {v w : α}

theorem getElem?_insert_of_ne (h : b ≠ a) : (m.insert a v)[b]? = m[b]? := by
  have hc : compare a b ≠ .eq := fun e => h (LawfulEqOrd.eq_of_compare e).symm
  rw [TreeMap.getElem?_insert, if_neg hc]

theorem getElem?_insert_some (h : (m.insert a v)[b]? = some w) :
    b = a ∧ w = v ∨ b ≠ a ∧ m[b]? = some w := by
  by_cases hb : b = a
  · subst hb
    rw [TreeMap.getElem?_insert_self] at h
    exact .inl ⟨rfl, (Option.some.inj h).symm⟩
  · rw [getElem?_insert_of_ne hb] at h
    exact .inr ⟨hb, h⟩

theorem getElem?_erase_of_ne (h : b ≠ a) : (m.erase a)[b]? = m[b]? := by
  have hc : compare a b ≠ .eq := fun e => h (LawfulEqOrd.eq_of_compare e).symm
  rw [TreeMap.getElem?_erase, if_neg hc]

theorem getElem?_erase_some (h : (m.erase a)[b]? = some w) : b ≠ a ∧ m[b]? = some w := by
  by_cases hb : b = a
  · subst hb
    rw [TreeMap.getElem?_erase_self] at h
    cases h
  · rw [getElem?_erase_of_ne hb] at h
    exact ⟨hb, h⟩

theorem getElem?_modify_of_ne (h : b ≠ a) (f : α → α) : (m.modify a f)[b]? = m[b]? := by
  have hc : compare a b ≠ .eq := fun e => h (LawfulEqOrd.eq_of_compare e).symm
  rw [TreeMap.getElem?_modify, if_neg hc]

theorem getElem?_modify_some {f : α → α} (h : (m.modify a f)[b]? = some w) :
    ∃ v, m[b]? = some v ∧ (b = a ∧ w = f v ∨ b ≠ a ∧ w = v) := by
  by_cases hb : b = a
  · subst hb
    rw [TreeMap.getElem?_modify_self] at h
    obtain ⟨v, hv, rfl⟩ := Option.map_eq_some_iff.mp h
    exact ⟨v, hv, .inl ⟨rfl, rfl⟩⟩
  · rw [getElem?_modify_of_ne hb] at h
    exact ⟨w, h, .inr ⟨hb, rfl⟩⟩

/-- An update of one object leaves every object there, changed or not. -/
theorem getElem?_modify_of_some {Q : α → Prop} (h : m[b]? = some v) (a : κ) (f : α → α)
    (hv : b ≠ a → Q v) (hf : b = a → Q (f v)) : ∃ w, (m.modify a f)[b]? = some w ∧ Q w := by
  by_cases hb : b = a
  · subst hb
    exact ⟨f v, by rw [TreeMap.getElem?_modify_self, h]; rfl, hf rfl⟩
  · exact ⟨v, by rw [getElem?_modify_of_ne hb]; exact h, hv hb⟩

theorem getElem?_foldl_erase_some {β : Type} {g : β → κ} {l : List β}
    (h : (l.foldl (fun m x => m.erase (g x)) m)[b]? = some w) : b ∉ l.map g ∧ m[b]? = some w := by
  induction l generalizing m with
  | nil => exact ⟨List.not_mem_nil, h⟩
  | cons x l ih =>
    obtain ⟨hl, h⟩ := ih h
    obtain ⟨hx, h⟩ := getElem?_erase_some h
    exact ⟨by simp only [List.map_cons, List.mem_cons, not_or]; exact ⟨hx, hl⟩, h⟩

theorem getElem?_foldl_erase_of_not_mem {β : Type} {g : β → κ} {l : List β} (h : b ∉ l.map g) :
    (l.foldl (fun m x => m.erase (g x)) m)[b]? = m[b]? := by
  induction l generalizing m with
  | nil => rfl
  | cons x l ih =>
    simp only [List.map_cons, List.mem_cons, not_or] at h
    rw [List.foldl_cons, ih h.2, getElem?_erase_of_ne h.1]

theorem getElem?_filter_eq_some {f : κ → α → Bool} :
    (m.filter f)[b]? = some w ↔ m[b]? = some w ∧ f b w = true := by
  rw [TreeMap.getElem?_filter]
  constructor
  · intro h
    obtain ⟨hw, hf⟩ := Option.pfilter_eq_some_iff.mp h
    rw [TreeMap.getKey_eq] at hf
    exact ⟨hw, hf⟩
  · rintro ⟨hw, hf⟩
    exact Option.pfilter_eq_some_iff.mpr ⟨hw, by rw [TreeMap.getKey_eq]; exact hf⟩

omit [LawfulEqOrd κ] in
theorem nodup_toList (m : TreeMap κ α) : m.toList.Nodup := by
  have h : (m.toList.map (·.1)).Nodup := by
    rw [TreeMap.map_fst_toList_eq_keys]
    exact TreeMap.nodup_keys
  exact List.Pairwise.of_map (fun x => x.1) (fun _ _ hne heq => hne (congrArg Prod.fst heq)) h

/-- How many entries pass a test that at most one passes. -/
theorem length_filter_toList {p : κ × α → Bool} {flag : Bool}
    (hunique : ∀ k₁ k₂ v₁ v₂, m[k₁]? = some v₁ → m[k₂]? = some v₂ → p (k₁, v₁) = true →
      p (k₂, v₂) = true → k₁ = k₂)
    (hexists : flag = true ↔ ∃ k v, m[k]? = some v ∧ p (k, v) = true) :
    (m.toList.filter p).length = if flag then 1 else 0 := by
  have hmem : ∀ x, x ∈ m.toList.filter p ↔ m[x.1]? = some x.2 ∧ p x = true := by
    intro x
    rw [List.mem_filter, TreeMap.mem_toList_iff_getElem?_eq_some]
  cases hflag : flag with
  | false =>
    have hnil : m.toList.filter p = [] := by
      refine List.eq_nil_iff_forall_not_mem.mpr fun x hx => ?_
      obtain ⟨hk, hp⟩ := (hmem x).mp hx
      rw [hexists.mpr ⟨x.1, x.2, hk, hp⟩] at hflag
      cases hflag
    rw [hnil]
    rfl
  | true =>
    obtain ⟨k, v, hk, hp⟩ := hexists.mp hflag
    have hall : ∀ x ∈ m.toList.filter p, x = (k, v) := by
      intro x hx
      obtain ⟨hx₁, hx₂⟩ := (hmem x).mp hx
      have hkey := hunique x.1 k x.2 v hx₁ hk hx₂ hp
      rw [hkey, hk] at hx₁
      exact Prod.ext hkey (Option.some.inj hx₁).symm
    have hrep := List.eq_replicate_of_mem hall
    have hn : (m.toList.filter p).Nodup := (nodup_toList m).filter p
    rw [hrep, List.nodup_replicate] at hn
    have hpos : 0 < (m.toList.filter p).length :=
      List.length_pos_of_mem ((hmem (k, v)).mpr ⟨hk, hp⟩)
    simp only [if_true]
    omega

end

end Stice.Lib
