import Mathlib

/-! Incremental framing of a stream. A framer looks at the unread part of a
stream and either waits or cuts off a nonempty head, and more input never
changes a cut it has made. So what it has cut and what is left are a function of
the stream, however the stream arrived. -/
namespace Stice.Lib

/-- A framer over elements `α` with results `ρ`: `cut` returns the size of the
head it removes and its result. -/
structure Framer (α ρ : Type) where
  cut : List α → Option (Nat × ρ)
  pos : ∀ {s n r}, cut s = some (n, r) → 0 < n
  stable : ∀ {s n r} (t : List α), cut s = some (n, r) → cut (s ++ t) = some (n, r) ∧ n ≤ s.length

namespace Framer
variable {α ρ : Type} (F : Framer α ρ)

/-- Cutting `s` again and again gives the results `rs` and leaves `rest`. -/
inductive Parses : List α → List ρ → List α → Prop
  | done (s : List α) : Parses s [] s
  | more {s : List α} {n : Nat} {r : ρ} {rs : List ρ} {rest : List α}
      (h : F.cut s = some (n, r)) (hrest : Parses (s.drop n) rs rest) : Parses s (r :: rs) rest

variable {F}

theorem Parses.append {s rest : List α} {rs : List ρ} (h : F.Parses s rs rest) (t : List α) :
    F.Parses (s ++ t) rs (rest ++ t) := by
  induction h with
  | done s => exact .done _
  | @more s n r rs rest h _ ih =>
    obtain ⟨hcut, hle⟩ := F.stable t h
    refine .more hcut ?_
    rw [List.drop_append_of_le_length hle]
    exact ih

theorem Parses.trans {s u v : List α} {rs rs' : List ρ} (h : F.Parses s rs u)
    (h' : F.Parses u rs' v) : F.Parses s (rs ++ rs') v := by
  induction h with
  | done s => exact h'
  | more h _ ih => exact .more h (ih h')

theorem Parses.snoc {s u : List α} {rs : List ρ} {n : Nat} {r : ρ} (h : F.Parses s rs u)
    (hcut : F.cut u = some (n, r)) : F.Parses s (rs ++ [r]) (u.drop n) :=
  h.trans (.more hcut (.done _))

/-- A framer that waits has cut the stream in the only way it can. -/
theorem Parses.unique {s u v : List α} {rs rs' : List ρ} (h : F.Parses s rs u)
    (hu : F.cut u = none) (h' : F.Parses s rs' v) (hv : F.cut v = none) : rs = rs' ∧ u = v := by
  induction h generalizing rs' with
  | done s =>
    cases h' with
    | done => exact ⟨rfl, rfl⟩
    | more hcut _ => simp [hu] at hcut
  | more h _ ih =>
    cases h' with
    | done => simp [hv] at h
    | more hcut hrest =>
      obtain ⟨rfl, rfl⟩ : _ ∧ _ := by simpa [h] using hcut
      obtain ⟨rfl, rfl⟩ := ih hu hrest
      exact ⟨rfl, rfl⟩

/-- A prefix of a stream on which the framer waits makes it wait too. -/
theorem cut_none_of_prefix {s t : List α} (h : s <+: t) (ht : F.cut t = none) :
    F.cut s = none := by
  obtain ⟨rest, rfl⟩ := h
  cases hs : F.cut s with
  | none => rfl
  | some x =>
    have hstable := (F.stable rest hs).1
    rw [ht] at hstable
    cases hstable

/-- Every stream can be cut until the framer waits. -/
theorem exists_parses (F : Framer α ρ) (s : List α) :
    ∃ rs rest, F.Parses s rs rest ∧ F.cut rest = none := by
  -- every cut shortens the stream
  induction hn : s.length using Nat.strongRecOn generalizing s with
  | ind n ih =>
    cases hs : F.cut s with
    | none => exact ⟨[], s, .done s, hs⟩
    | some x =>
      have hpos := F.pos hs
      have hle := (F.stable [] hs).2
      have hlt : (s.drop x.1).length < n := by
        rw [List.length_drop]
        omega
      obtain ⟨rs, rest, hparse, hrest⟩ := ih _ hlt (s.drop x.1) rfl
      exact ⟨x.2 :: rs, rest, .more hs hparse, hrest⟩

/-- A stream made of heads that `cut` removes whole parses to their results. -/
theorem parses_flatten {frames : List (List α)} {result : List α → ρ}
    (h : ∀ f ∈ frames, F.cut f = some (f.length, result f)) :
    F.Parses frames.flatten (frames.map result) [] := by
  induction frames with
  | nil => exact .done []
  | cons f frames ih =>
    obtain ⟨hcut, -⟩ := F.stable frames.flatten (h f (by simp))
    refine .more hcut ?_
    rw [List.flatten_cons, List.drop_left]
    exact ih fun g hg => h g (by simp [hg])

end Framer
end Stice.Lib
