import Mathlib

/-! A stream whose items wait in a queue on their way or go past it. As long as an item
goes past an empty queue only, the items handed over are a subsequence of those accepted,
whatever is lost on the way. -/
namespace Stice.Lib
open List

/-- One step: the queue before it, the items accepted and handed over, the queue after. -/
inductive Passage {α : Type} : List α → List α → List α → List α → Prop
  | lose {q q' : List α} (h : q' <+ q) : Passage q [] [] q'
  | wait {q q' : List α} {x : α} (h : q' <+ q ++ [x]) : Passage q [x] [] q'
  | leave (x : α) (q : List α) : Passage (x :: q) [] [x] q
  | pass (x : α) : Passage [] [x] [x] []

/-- Queue and items handed over, in order. -/
def InOrder {α : Type} (accepted handed queue : List α) : Prop := handed ++ queue <+ accepted

section
variable {α : Type} {accepted handed queue a h q : List α}

theorem InOrder.sublist (ho : InOrder accepted handed queue) : handed <+ accepted :=
  (sublist_append_left handed queue).trans ho

theorem Passage.inOrder (hp : Passage queue a h q) (ho : InOrder accepted handed queue) :
    InOrder (accepted ++ a) (handed ++ h) q := by
  unfold InOrder at ho ⊢
  cases hp with
  | lose hq =>
    rw [append_nil, append_nil]
    exact (hq.append_left handed).trans ho
  | wait hq =>
    rw [append_nil]
    refine (hq.append_left handed).trans ?_
    rw [← append_assoc]
    exact ho.append_right _
  | leave x =>
    rw [append_nil, append_assoc]
    exact ho
  | pass x =>
    rw [append_nil] at ho ⊢
    exact ho.append_right [x]

/-- An empty queue stays empty unless an item begins to wait. -/
theorem Passage.empty (hp : Passage [] a h q) (ha : h = [] → a = []) : q = [] := by
  cases hp with
  | lose hq => exact sublist_nil.mp hq
  | wait => cases ha rfl
  | pass => rfl

end
end Stice.Lib
