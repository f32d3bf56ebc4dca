import Mathlib

/-! Messages about resources that go by a name, where a name is given out again after its
owner has released it. A message is faithful as long as the owner of the name, if there
is one, is the resource it is about. -/
namespace Stice.Lib

variable {N I : Type} {owner owner' : N → Option I} {msgs msgs' : List (N × I)} {n : N} {i : I}

def Faithful (owner : N → Option I) (msgs : List (N × I)) : Prop :=
  ∀ m ∈ msgs, ∀ i, owner m.1 = some i → i = m.2

theorem Faithful.nil (owner : N → Option I) : Faithful owner [] := fun _ h => nomatch h

/-- The message about `i` was delivered to `j`. -/
theorem Faithful.deliver {j : I} (h : Faithful owner msgs) (hm : (n, i) ∈ msgs)
    (hj : owner n = some j) : i = j := (h (n, i) hm j hj).symm

theorem Faithful.subset (h : Faithful owner msgs) (hsub : ∀ m ∈ msgs', m ∈ msgs) :
    Faithful owner msgs' := fun m hm => h m (hsub m hm)

/-- The owner of a name sends a message. -/
theorem Faithful.send (h : Faithful owner msgs) (hi : owner n = some i)
    (hsub : ∀ m ∈ msgs', m ∈ msgs ∨ m = (n, i)) : Faithful owner msgs' := by
  intro m hm j hj
  obtain hm | rfl := hsub m hm
  · exact h m hm j hj
  · exact Option.some.inj (hj.symm.trans hi)

theorem Faithful.release (h : Faithful owner msgs)
    (ho : ∀ m j, owner' m = some j → owner m = some j) : Faithful owner' msgs :=
  fun m hm j hj => h m hm j (ho m.1 j hj)

/-- A name is given out that no message carries. -/
theorem Faithful.acquire (h : Faithful owner msgs) (hn : ∀ m ∈ msgs, m.1 ≠ n)
    (ho : ∀ m, m ≠ n → owner' m = owner m) : Faithful owner' msgs := by
  intro m hm j hj
  rw [ho m.1 (hn m hm)] at hj
  exact h m hm j hj

end Stice.Lib
