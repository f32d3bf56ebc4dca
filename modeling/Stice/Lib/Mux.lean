import Mathlib

/-! Two framed streams multiplexed onto one wire. The urgent lane is drained
before the bulk lane, one symbol at a time, so a bulk frame can be cut short by
an urgent one. `Framed` is what holds as long as no urgent frame is enqueued
inside a bulk frame; `Framed.inOrder` is what it gives. -/
namespace Stice.Lib

/-- `zs` contains all of `xs` and all of `ys`, each in its own order. -/
inductive Merge {α : Type} : List α → List α → List α → Prop
  | nil : Merge [] [] []
  | left {a : α} {xs ys zs : List α} (h : Merge xs ys zs) : Merge (a :: xs) ys (a :: zs)
  | right {a : α} {xs ys zs : List α} (h : Merge xs ys zs) : Merge xs (a :: ys) (a :: zs)

theorem Merge.append {α : Type} {xs ys zs xs' ys' zs' : List α} (h : Merge xs ys zs)
    (h' : Merge xs' ys' zs') : Merge (xs ++ xs') (ys ++ ys') (zs ++ zs') := by
  induction h with
  | nil => exact h'
  | left _ ih => exact ih.left
  | right _ ih => exact ih.right

theorem Merge.only_left {α : Type} (xs : List α) : Merge xs [] xs := by
  induction xs with
  | nil => exact .nil
  | cons a xs ih => exact ih.left

theorem Merge.eq_of_only_left {α : Type} {xs zs : List α} (h : Merge xs [] zs) : zs = xs := by
  generalize hys : ([] : List α) = ys at h
  induction h with
  | nil => rfl
  | left _ ih => rw [ih hys]
  | right _ _ => cases hys

theorem Merge.only_right {α : Type} (ys : List α) : Merge [] ys ys := by
  induction ys with
  | nil => exact .nil
  | cons a ys ih => exact ih.right

theorem Merge.snoc_left {α : Type} {xs ys zs : List α} (h : Merge xs ys zs) (ws : List α) :
    Merge (xs ++ ws) ys (zs ++ ws) := by
  simpa using h.append (Merge.only_left ws)

theorem Merge.snoc_right {α : Type} {xs ys zs : List α} (h : Merge xs ys zs) (ws : List α) :
    Merge xs (ys ++ ws) (zs ++ ws) := by
  simpa using h.append (Merge.only_right ws)

/-- The two lanes: the frames enqueued so far, the symbols not yet written, and
everything written. -/
structure Mux (α : Type) where
  bulk : List (List α)
  urgent : List (List α)
  bulkRest : List α
  urgentRest : List α
  wire : List α

namespace Mux

variable {α : Type}
variable {m : Mux α}

def empty : Mux α := ⟨[], [], [], [], []⟩

def pushBulk (m : Mux α) (f : List α) : Mux α :=
  { m with bulk := m.bulk ++ [f], bulkRest := m.bulkRest ++ f }

def pushUrgent (m : Mux α) (f : List α) : Mux α :=
  { m with urgent := m.urgent ++ [f], urgentRest := m.urgentRest ++ f }

/-- Write `n` symbols of the bulk lane. -/
def emitBulk (m : Mux α) (n : Nat) : Mux α :=
  { m with bulkRest := m.bulkRest.drop n, wire := m.wire ++ m.bulkRest.take n }

/-- Write `n` symbols of the urgent lane. -/
def emitUrgent (m : Mux α) (n : Nat) : Mux α :=
  { m with urgentRest := m.urgentRest.drop n, wire := m.wire ++ m.urgentRest.take n }

/-- No bulk frame is partly written: what is left of the lane is a list of
whole frames. -/
def BulkAligned (m : Mux α) : Prop :=
  ∃ sent todo, m.bulk = sent ++ todo ∧ m.bulkRest = todo.flatten

/-- The wire is a prefix of an order-keeping merge of the enqueued frames. -/
def InOrder (m : Mux α) : Prop :=
  ∃ frames, Merge m.bulk m.urgent frames ∧ m.wire <+: frames.flatten

/-- Where the last written symbol stands: between two frames, inside a bulk
frame while no urgent frame waits, or inside an urgent frame. -/
inductive Position (todo₁ todo₂ frames : List (List α)) : List α → List α → List α → Prop
  | between : Position todo₁ todo₂ frames todo₁.flatten todo₂.flatten frames.flatten
  | inBulk (p q : List α) (rest : List (List α)) (hf : todo₁ = (p ++ q) :: rest)
      (hu : todo₂.flatten = []) :
      Position todo₁ todo₂ frames (q ++ rest.flatten) [] (frames.flatten ++ p)
  | inUrgent (p q : List α) (rest : List (List α)) (hf : todo₂ = (p ++ q) :: rest) :
      Position todo₁ todo₂ frames todo₁.flatten (q ++ rest.flatten) (frames.flatten ++ p)

/-- The invariant of a well-behaved run. -/
def Framed (m : Mux α) : Prop :=
  ∃ sent₁ todo₁ sent₂ todo₂ frames, m.bulk = sent₁ ++ todo₁ ∧ m.urgent = sent₂ ++ todo₂ ∧
    Merge sent₁ sent₂ frames ∧ Position todo₁ todo₂ frames m.bulkRest m.urgentRest m.wire

/-- The first symbol left in a list of frames belongs to its first non-empty
frame. -/
theorem flatten_eq_cons {l : List (List α)} {b : α} {r : List α} (h : l.flatten = b :: r) :
    ∃ es f rest, l = es ++ (b :: f) :: rest ∧ es.flatten = [] ∧ r = f ++ rest.flatten := by
  induction l with
  | nil => simp at h
  | cons g l ih =>
    cases g with
    | nil =>
      obtain ⟨es, f, rest, hl, he, hr⟩ := ih (by simpa using h)
      exact ⟨[] :: es, f, rest, by simp [hl], by simpa using he, hr⟩
    | cons c g =>
      simp only [List.flatten_cons, List.cons_append, List.cons.injEq] at h
      exact ⟨[], g, l, by simp [h.1], rfl, h.2.symm⟩

theorem framed_empty : Framed (empty : Mux α) :=
  ⟨[], [], [], [], [], rfl, rfl, .nil, .between⟩

/-- A frame that is written to its end is a frame of the merge. -/
theorem Framed.finish (h : Framed m) (hu : m.urgentRest = []) :
    ∃ sent₁ todo₁ sent₂ todo₂ frames, m.bulk = sent₁ ++ todo₁ ∧ m.urgent = sent₂ ++ todo₂ ∧
      Merge sent₁ sent₂ frames ∧ todo₂.flatten = [] ∧
      ((m.bulkRest = todo₁.flatten ∧ m.wire = frames.flatten) ∨
        ∃ p q rest, todo₁ = (p ++ q) :: rest ∧ m.bulkRest = q ++ rest.flatten ∧
          m.wire = frames.flatten ++ p) := by
  obtain ⟨bulk, urgent, bulkRest, urgentRest, wire⟩ := m
  obtain ⟨sent₁, todo₁, sent₂, todo₂, frames, hb, hc, hm, hp⟩ := h
  dsimp only at hb hc hp hu
  cases hp with
  | between => exact ⟨sent₁, todo₁, sent₂, todo₂, frames, hb, hc, hm, hu, .inl ⟨rfl, rfl⟩⟩
  | inBulk p q rest hf hn =>
    exact ⟨sent₁, todo₁, sent₂, todo₂, frames, hb, hc, hm, hn, .inr ⟨p, q, rest, hf, rfl, rfl⟩⟩
  | inUrgent p q rest hf =>
    obtain ⟨rfl, hr⟩ := List.append_eq_nil_iff.mp hu
    refine ⟨sent₁, todo₁, sent₂ ++ [p], rest, frames ++ [p], hb, ?_, hm.snoc_right [p], hr,
      .inl ⟨rfl, by simp⟩⟩
    simp [hc, hf]

theorem Framed.emitBulk_one (h : Framed m) (hu : m.urgentRest = []) {b : α}
    {r : List α} (hb : m.bulkRest = b :: r) : Framed (m.emitBulk 1) := by
  obtain ⟨sent₁, todo₁, sent₂, todo₂, frames, h₁, h₂, hm, hn, hpos⟩ := h.finish hu
  have hbetween : ∀ sent todo frames, m.bulk = sent ++ todo → Merge sent sent₂ frames →
      todo.flatten = b :: r → m.wire = frames.flatten → Framed (m.emitBulk 1) := by
    intro sent todo frames hs hm ht hw
    obtain ⟨es, f, rest, hl, he, hr⟩ := flatten_eq_cons ht
    refine ⟨sent ++ es, (b :: f) :: rest, sent₂, todo₂, frames ++ es, ?_, h₂, hm.snoc_left es, ?_⟩
    · simp [emitBulk, hs, hl]
    · have := @Position.inBulk _ ((b :: f) :: rest) todo₂ (frames ++ es) [b] f rest rfl hn
      simpa [emitBulk, hb, hu, hw, he, hr] using this
  rcases hpos with ⟨ht, hw⟩ | ⟨p, q, rest, hf, hq, hw⟩
  · exact hbetween sent₁ todo₁ frames h₁ hm (ht ▸ hb) hw
  · cases q with
    | nil =>
      refine hbetween (sent₁ ++ [p]) rest (frames ++ [p]) ?_ (hm.snoc_left [p]) ?_ ?_
      · simp [h₁, hf]
      · simpa [hb] using hq.symm
      · simp [hw]
    | cons c q =>
      simp only [hb, List.cons_append, List.cons.injEq] at hq
      refine ⟨sent₁, todo₁, sent₂, todo₂, frames, h₁, h₂, hm, ?_⟩
      have := @Position.inBulk _ todo₁ _ frames (p ++ [c]) q rest
        (by simp [hf]) hn
      simpa [emitBulk, hb, hu, hw, hq.1, hq.2] using this

theorem Framed.emitUrgent_one (h : Framed m) {b : α} {r : List α}
    (hb : m.urgentRest = b :: r) : Framed (m.emitUrgent 1) := by
  obtain ⟨bulk, urgent, bulkRest, urgentRest, wire⟩ := m
  obtain ⟨sent₁, todo₁, sent₂, todo₂, frames, h₁, h₂, hm, hp⟩ := h
  dsimp only at h₁ h₂ hp hb
  have hbetween : ∀ sent todo frames, urgent = sent ++ todo → Merge sent₁ sent frames →
      todo.flatten = b :: r →
      Framed (emitUrgent ⟨bulk, urgent, todo₁.flatten, b :: r, frames.flatten⟩ 1) := by
    intro sent todo frames hs hm ht
    obtain ⟨es, f, rest, hl, he, hr⟩ := flatten_eq_cons ht
    refine ⟨sent₁, todo₁, sent ++ es, (b :: f) :: rest, frames ++ es, h₁, ?_,
      hm.snoc_right es, ?_⟩
    · simp [emitUrgent, hs, hl]
    · have := @Position.inUrgent _ todo₁ ((b :: f) :: rest) (frames ++ es) [b] f rest rfl
      simpa [emitUrgent, he, hr] using this
  cases hp with
  | between => rw [hb]; exact hbetween sent₂ todo₂ frames h₂ hm hb
  | inBulk p q rest hf hn => simp at hb
  | inUrgent p q rest hf =>
    cases q with
    | nil =>
      have := hbetween (sent₂ ++ [p]) rest (frames ++ [p]) (by simp [h₂, hf])
        (hm.snoc_right [p]) (by simpa using hb)
      rw [hb]
      simpa using this
    | cons c q =>
      simp only [List.cons_append, List.cons.injEq] at hb
      refine ⟨sent₁, todo₁, sent₂, todo₂, frames, h₁, h₂, hm, ?_⟩
      have := @Position.inUrgent _ todo₁ todo₂ frames (p ++ [c]) q
        rest (by simp [hf])
      simpa [emitUrgent, hb.1, hb.2] using this

theorem emitBulk_succ (m : Mux α) (n : Nat) : m.emitBulk (n + 1) = (m.emitBulk 1).emitBulk n := by
  obtain ⟨bulk, urgent, bulkRest, urgentRest, wire⟩ := m
  cases bulkRest <;> simp [emitBulk]

theorem emitUrgent_succ (m : Mux α) (n : Nat) :
    m.emitUrgent (n + 1) = (m.emitUrgent 1).emitUrgent n := by
  obtain ⟨bulk, urgent, bulkRest, urgentRest, wire⟩ := m
  cases urgentRest <;> simp [emitUrgent]

theorem emitBulk_nil (h : m.bulkRest = []) (n : Nat) : m.emitBulk n = m := by
  obtain ⟨bulk, urgent, bulkRest, urgentRest, wire⟩ := m
  subst h
  simp [emitBulk]

theorem emitUrgent_nil (h : m.urgentRest = []) (n : Nat) : m.emitUrgent n = m := by
  obtain ⟨bulk, urgent, bulkRest, urgentRest, wire⟩ := m
  subst h
  simp [emitUrgent]

theorem Framed.emitBulk (h : Framed m) (hu : m.urgentRest = []) (n : Nat) :
    Framed (m.emitBulk n) := by
  induction n generalizing m with
  | zero => simpa [Mux.emitBulk] using h
  | succ n ih =>
    rw [emitBulk_succ]
    cases hb : m.bulkRest with
    | nil => exact ih (by rw [emitBulk_nil hb]; exact h) hu
    | cons b r => exact ih (h.emitBulk_one hu hb) hu

theorem Framed.emitUrgent (h : Framed m) (n : Nat) : Framed (m.emitUrgent n) := by
  induction n generalizing m with
  | zero => simpa [Mux.emitUrgent] using h
  | succ n ih =>
    rw [emitUrgent_succ]
    cases hb : m.urgentRest with
    | nil => exact ih (by rw [emitUrgent_nil hb]; exact h)
    | cons b r => exact ih (h.emitUrgent_one hb)

theorem Framed.pushBulk (h : Framed m) (f : List α) : Framed (m.pushBulk f) := by
  obtain ⟨bulk, urgent, bulkRest, urgentRest, wire⟩ := m
  obtain ⟨sent₁, todo₁, sent₂, todo₂, frames, h₁, h₂, hm, hp⟩ := h
  dsimp only at h₁ h₂ hp
  refine ⟨sent₁, todo₁ ++ [f], sent₂, todo₂, frames, by simp [Mux.pushBulk, h₁], h₂, hm, ?_⟩
  cases hp with
  | between =>
    have := @Position.between _ (todo₁ ++ [f]) todo₂ frames
    simpa [Mux.pushBulk] using this
  | inBulk p q rest hf hn =>
    have := @Position.inBulk _ (todo₁ ++ [f]) _ frames p q (rest ++ [f])
      (by simp [hf]) hn
    simpa [Mux.pushBulk] using this
  | inUrgent p q rest hf =>
    have := @Position.inUrgent _ (todo₁ ++ [f]) _ frames p q rest hf
    simpa [Mux.pushBulk] using this

/-- An aligned bulk lane stands between two frames, whatever the invariant's
witnesses say. -/
theorem Framed.not_inBulk (h : Framed m) (ha : m.BulkAligned) :
    ∃ sent₁ todo₁ sent₂ todo₂ frames, m.bulk = sent₁ ++ todo₁ ∧ m.urgent = sent₂ ++ todo₂ ∧
      Merge sent₁ sent₂ frames ∧ m.bulkRest = todo₁.flatten ∧
      ((m.urgentRest = todo₂.flatten ∧ m.wire = frames.flatten) ∨
        ∃ p q rest, todo₂ = (p ++ q) :: rest ∧ m.urgentRest = q ++ rest.flatten ∧
          m.wire = frames.flatten ++ p) := by
  obtain ⟨bulk, urgent, bulkRest, urgentRest, wire⟩ := m
  obtain ⟨sent₁, todo₁, sent₂, todo₂, frames, h₁, h₂, hm, hp⟩ := h
  obtain ⟨sent, todo, hs, ht⟩ := ha
  dsimp only at h₁ h₂ hp hs ht
  cases hp with
  | between => exact ⟨sent₁, todo₁, sent₂, todo₂, frames, h₁, h₂, hm, rfl, .inl ⟨rfl, rfl⟩⟩
  | inUrgent p q rest hf =>
    exact ⟨sent₁, todo₁, sent₂, todo₂, frames, h₁, h₂, hm, rfl, .inr ⟨p, q, rest, hf, rfl, rfl⟩⟩
  | inBulk p q rest hf hn =>
    have hlen := congrArg List.length ht
    simp only [List.length_append] at hlen
    rw [h₁, hf] at hs
    -- the two ways to cut the lane agree on which frame is being written
    rcases List.append_eq_append_iff.mp hs with ⟨w, hw, hw'⟩ | ⟨w, hw, hw'⟩
    · cases w with
      | nil =>
        obtain rfl : p = [] := by
          simp only [List.nil_append] at hw'
          rw [← hw'] at hlen
          simp only [List.flatten_cons, List.length_append] at hlen
          exact List.length_eq_zero_iff.mp (by omega)
        exact ⟨sent₁, todo₁, sent₂, todo₂, frames, h₁, h₂, hm, by simp [hf], .inl
          ⟨by simp [hn], by simp⟩⟩
      | cons g w =>
        simp only [List.cons_append, List.cons.injEq] at hw'
        obtain rfl : q = [] := by
          rw [hw'.2] at hlen
          simp only [List.flatten_append, List.length_append] at hlen
          exact List.length_eq_zero_iff.mp (by omega)
        exact ⟨sent₁ ++ [p], rest, sent₂, todo₂, frames ++ [p], by simp [h₁, hf], h₂,
          hm.snoc_left [p], rfl, .inl ⟨by simp [hn], by simp⟩⟩
    · obtain rfl : p = [] := by
        rw [hw'] at hlen
        simp only [List.flatten_append, List.flatten_cons, List.length_append] at hlen
        exact List.length_eq_zero_iff.mp (by omega)
      exact ⟨sent₁, todo₁, sent₂, todo₂, frames, h₁, h₂, hm, by simp [hf], .inl
        ⟨by simp [hn], by simp⟩⟩

theorem Framed.pushUrgent (h : Framed m) (ha : m.BulkAligned) (f : List α) :
    Framed (m.pushUrgent f) := by
  obtain ⟨sent₁, todo₁, sent₂, todo₂, frames, h₁, h₂, hm, hb, hpos⟩ := h.not_inBulk ha
  refine ⟨sent₁, todo₁, sent₂, todo₂ ++ [f], frames, h₁, by simp [Mux.pushUrgent, h₂], hm, ?_⟩
  rcases hpos with ⟨hu, hw⟩ | ⟨p, q, rest, hf, hu, hw⟩
  · have := @Position.between _ todo₁ (todo₂ ++ [f]) frames
    simpa [Mux.pushUrgent, hb, hu, hw] using this
  · have := @Position.inUrgent _ todo₁ (todo₂ ++ [f]) frames p q
      (rest ++ [f]) (by simp [hf])
    simpa [Mux.pushUrgent, hb, hu, hw] using this

/-- What the invariant says about the wire: completing the frame that is being
written and adding the frames that wait gives an order-keeping merge. -/
theorem Framed.inOrder (h : Framed m) : m.InOrder := by
  obtain ⟨bulk, urgent, bulkRest, urgentRest, wire⟩ := m
  obtain ⟨sent₁, todo₁, sent₂, todo₂, frames, h₁, h₂, hm, hp⟩ := h
  dsimp only at h₁ h₂ hp
  subst h₁ h₂
  cases hp with
  | between =>
    exact ⟨frames ++ todo₁ ++ todo₂, (hm.snoc_left todo₁).snoc_right todo₂, by simp⟩
  | inBulk p q rest hf hn =>
    exact ⟨frames ++ todo₁ ++ todo₂, (hm.snoc_left todo₁).snoc_right todo₂, by simp [hf]⟩
  | inUrgent p q rest hf =>
    exact ⟨frames ++ todo₂ ++ todo₁, (hm.snoc_right todo₂).snoc_left todo₁, by simp [hf]⟩

end Mux

end Stice.Lib
