import Mathlib

/-! Runs of a transition system and the invariant rule. A system is an initial
predicate and a labelled step relation; `Guarded` restricts the steps of a
deterministic system to those whose state and label meet a condition. -/
namespace Stice.Lib

/-- The states some run reaches. -/
inductive Reach {σ ι : Type} (init : σ → Prop) (step : σ → ι → σ → Prop) : σ → Prop
  | start {s : σ} (h : init s) : Reach init step s
  | next {s t : σ} (i : ι) (h : Reach init step s) (hs : step s i t) : Reach init step t

/-- The steps of the function `f` taken only where `ok` holds before the step. -/
def Guarded {σ ι : Type} (ok : σ → ι → Prop) (f : σ → ι → σ) (s : σ) (i : ι) (t : σ) : Prop :=
  ok s i ∧ t = f s i

theorem Reach.invariant {σ ι : Type} {init : σ → Prop} {step : σ → ι → σ → Prop}
    {P : σ → Prop} (hinit : ∀ s, init s → P s)
    (hstep : ∀ s i t, P s → step s i t → P t) {s : σ} (h : Reach init step s) : P s := by
  induction h with
  | start h => exact hinit _ h
  | next i _ hs ih => exact hstep _ i _ ih hs

/-- Every step of the run over the labels `l` meets the condition. -/
def AllSteps {σ ι : Type} (ok : σ → ι → Prop) (f : σ → ι → σ) : σ → List ι → Prop
  | _, [] => True
  | s, i :: l => ok s i ∧ AllSteps ok f (f s i) l

/-- A property that an invariant of the good steps implies and that a bad step destroys for
ever holds at the end of exactly the runs of good steps. -/
theorem AllSteps.iff_of_lasting {σ ι : Type} {ok : σ → ι → Prop} {f : σ → ι → σ}
    {good D : σ → Prop} (hD : ∀ s, good s → D s) (hstep : ∀ s i, good s → ok s i → good (f s i))
    (hbad : ∀ s i (l : List ι), good s → ¬ ok s i → ¬ D (l.foldl f (f s i))) {s : σ} (hs : good s)
    (l : List ι) : D (l.foldl f s) ↔ AllSteps ok f s l := by
  induction l generalizing s with
  | nil => exact ⟨fun _ => trivial, fun _ => hD s hs⟩
  | cons i l ih =>
    by_cases hok : ok s i
    · have hrest := ih (hstep s i hs hok)
      exact ⟨fun h => ⟨hok, hrest.mp h⟩, fun h => hrest.mpr h.2⟩
    · exact ⟨fun h => absurd h (hbad s i l hs hok), fun h => absurd h.1 hok⟩

/-- The state after the labels `l`, if each of them passes a check. -/
def checkedRun {σ ι : Type} (check : σ → ι → Bool) (f : σ → ι → σ) : σ → List ι → Option σ
  | s, [] => some s
  | s, i :: l => if check s i then checkedRun check f (f s i) l else none

/-- A check that implies the condition makes a run. -/
theorem Reach.of_checkedRun {σ ι : Type} {ok : σ → ι → Prop} {f : σ → ι → σ}
    {check : σ → ι → Bool} (init : σ → Prop) (hcheck : ∀ s i, check s i = true → ok s i)
    {s t : σ} {l : List ι} (h : Reach init (Guarded ok f) s)
    (hl : checkedRun check f s l = some t) :
    Reach init (Guarded ok f) t := by
  induction l generalizing s with
  | nil =>
    cases hl
    exact h
  | cons i l ih =>
    simp only [checkedRun] at hl
    split at hl
    · rename_i hi
      exact ih (.next i h ⟨hcheck s i hi, rfl⟩) hl
    · cases hl

/-- The runs of a function reach what it computes on any labels. -/
theorem Reach.foldl {σ ι : Type} {init : σ → Prop} {f : σ → ι → σ} {s : σ}
    (h : Reach init (fun s i t => t = f s i) s) (l : List ι) :
    Reach init (fun s i t => t = f s i) (l.foldl f s) := by
  induction l generalizing s with
  | nil => exact h
  | cons i l ih => exact ih (.next i h rfl)

/-- A path of labelled steps. -/
inductive Path {σ ι : Type} (step : σ → ι → σ → Prop) : σ → List ι → σ → Prop
  | nil (s : σ) : Path step s [] s
  | cons {s t u : σ} {i : ι} {l : List ι} (h : step s i t) (hl : Path step t l u) :
      Path step s (i :: l) u

section
variable {σ ι : Type} {step : σ → ι → σ → Prop} {s t u : σ} {l l' : List ι}

theorem Path.append (h : Path step s l t) (h' : Path step t l' u) : Path step s (l ++ l') u := by
  induction h with
  | nil s => exact h'
  | cons h _ ih => exact .cons h (ih h')

theorem Path.invariant {P : σ → Prop} (hstep : ∀ s i t, P s → step s i t → P t)
    (h : Path step s l t) (hs : P s) : P t := by
  induction h with
  | nil s => exact hs
  | cons h _ ih => exact ih (hstep _ _ _ hs h)

end

end Stice.Lib
