import Mathlib

/-! Requests under retransmission. A table holds, for each key, a request with the number
of times it was sent again and the time it is due. A ledger keeps a record of every
request there ever was, and a log of all transmissions. -/
namespace Stice.Lib

structure Timed (Q : Type) where
  request : Q
  retries : Nat
  next : Int

/-- `gap n` is the time to wait after `n` retransmissions. `sends` and `repeats` tell
whether the first transmission of a request and the later ones leave. -/
structure Policy (Q : Type) where
  gap : Nat → Int
  limit : Nat
  sends : Bool
  repeats : Q → Bool
  gap_pos : ∀ n, 0 < gap n

inductive TimerEvent (K Q : Type)
  | start (k : K) (q : Q)
  | resend (k : K)
  | close (k : K)
  | closeAll
  | idle

/-- The request of a key, under retransmission while `live`. `due` counts the rounds in
which it was due. -/
structure Record (K Q : Type) where
  key : K
  request : Q
  retries : Nat
  next : Int
  due : Nat
  live : Bool

/-- The log names records by their number. -/
structure Ledger (K Q : Type) where
  records : List (Record K Q)
  log : List (Nat × Int)

/-- Neighbours are `gap` apart. -/
def Spaced (gap : Nat → Int) (times : List Int) : Prop :=
  ∀ j a b, times[j]? = some a → times[j + 1]? = some b → a + gap j ≤ b

namespace Ledger
variable {K Q : Type}

def empty : Ledger K Q := ⟨[], []⟩

/-- The transmissions of a record. -/
def times (L : Ledger K Q) (i : Nat) : List Int :=
  (L.log.filter fun x => x.1 = i).map fun x => x.2

/-- The requests transmitted, in order. -/
def sent (L : Ledger K Q) : List Q :=
  L.log.filterMap fun x => L.records[x.1]?.map fun r => r.request

/-- Close the records of all other keys. -/
def keep (L : Ledger K Q) (f : K → Bool) : Ledger K Q :=
  { L with records := L.records.map fun r => { r with live := r.live && f r.key } }

def find [DecidableEq K] (L : Ledger K Q) (k : K) : Option Nat :=
  L.records.findIdx? fun r => r.live && r.key = k

def add (p : Policy Q) (now : Int) (L : Ledger K Q) (k : K) (q : Q) : Ledger K Q where
  records := L.records ++ [⟨k, q, 0, now + p.gap 0, 0, true⟩]
  log := L.log ++ if p.sends then [(L.records.length, now)] else []

def bump (p : Policy Q) (now : Int) (r : Record K Q) : Record K Q :=
  { r with retries := r.retries + 1, next := now + p.gap (r.retries + 1) }

def again (p : Policy Q) (now : Int) (L : Ledger K Q) (i : Nat) : Ledger K Q where
  records := L.records.modify i (bump p now)
  log := L.log ++
    if p.sends && L.records[i]?.any fun r => p.repeats r.request then [(i, now)] else []

def record [DecidableEq K] (p : Policy Q) (now : Int) (L : Ledger K Q) : TimerEvent K Q → Ledger K Q
  | .start k q => (L.keep fun k' => k' ≠ k).add p now k q
  | .resend k => ((L.find k).map (L.again p now)).getD L
  | .close k => L.keep fun k' => k' ≠ k
  | .closeAll => L.keep fun _ => false
  | .idle => L

/-- A round of the timer: it finds some requests due. -/
def round (now : Int) (L : Ledger K Q) : Ledger K Q :=
  { L with records := L.records.map fun r =>
      if r.live && r.next ≤ now then { r with due := r.due + 1 } else r }

end Ledger

section
variable {K Q : Type}
variable {ev : TimerEvent K Q} {f : K → Bool}

/-- What may happen to the table at a time. -/
inductive Policy.Step [DecidableEq K] (p : Policy Q) (now : Int) (t : K → Option (Timed Q)) :
    TimerEvent K Q → (K → Option (Timed Q)) → Prop
  | start {k : K} {q : Q} {t' : K → Option (Timed Q)}
      (h : ∀ k', t' k' = if k' = k then some ⟨q, 0, now + p.gap 0⟩ else t k') :
      Step p now t (.start k q) t'
  | resend {k : K} {e : Timed Q} {t' : K → Option (Timed Q)} (he : t k = some e)
      (hdue : e.next ≤ now) (hretries : e.retries < p.limit)
      (h : ∀ k', t' k' = if k' = k
        then some ⟨e.request, e.retries + 1, now + p.gap (e.retries + 1)⟩ else t k') :
      Step p now t (.resend k) t'
  | close {k : K} {t' : K → Option (Timed Q)} (h : ∀ k', t' k' = if k' = k then none else t k') :
      Step p now t (.close k) t'
  | closeAll {t' : K → Option (Timed Q)} (h : ∀ k', t' k' = none) : Step p now t .closeAll t'
  | idle {t' : K → Option (Timed Q)} (h : ∀ k', t' k' = t k') : Step p now t .idle t'

/-- The ledger describes the table, and every request keeps to the policy. -/
structure Ledger.Ok (p : Policy Q) (t : K → Option (Timed Q)) (L : Ledger K Q) : Prop where
  live : ∀ (i : Nat) (r : Record K Q), L.records[i]? = some r → r.live = true →
    t r.key = some ⟨r.request, r.retries, r.next⟩
  covers : ∀ k e, t k = some e →
    ∃ (i : Nat) (r : Record K Q), L.records[i]? = some r ∧ r.live = true ∧ r.key = k
  unique : ∀ (i j : Nat) (r s : Record K Q), L.records[i]? = some r → L.records[j]? = some s →
    r.live = true → s.live = true → r.key = s.key → i = j
  logged : ∀ x ∈ L.log, x.1 < L.records.length
  retries : ∀ (i : Nat) (r : Record K Q), L.records[i]? = some r → r.retries ≤ p.limit
  count : ∀ (i : Nat) (r : Record K Q), L.records[i]? = some r → (L.times i).length =
    if p.sends then 1 + if p.repeats r.request then r.retries else 0 else 0
  spaced : ∀ i, Spaced p.gap (L.times i)
  last : ∀ (i : Nat) (r : Record K Q), L.records[i]? = some r → r.live = true →
    p.repeats r.request = true → ∀ a, (L.times i)[r.retries]? = some a →
      a + p.gap r.retries ≤ r.next

variable {p : Policy Q} {now : Int} {t t' : K → Option (Timed Q)} {L : Ledger K Q} {i : Nat}
  {r : Record K Q}

theorem Ledger.Ok.empty : (Ledger.empty : Ledger K Q).Ok p fun _ => none where
  live := nofun
  covers := nofun
  unique := nofun
  logged := nofun
  retries := nofun
  count := nofun
  spaced := nofun
  last := nofun

/-- A change of records that at most closes some of them, by their keys. -/
structure Closes (f : K → Bool) (g : Record K Q → Record K Q) : Prop where
  key : ∀ r, (g r).key = r.key
  request : ∀ r, (g r).request = r.request
  retries : ∀ r, (g r).retries = r.retries
  next : ∀ r, (g r).next = r.next
  live : ∀ r, (g r).live = (r.live && f r.key)

theorem Ledger.Ok.map (h : L.Ok p t) {g : Record K Q → Record K Q} (hg : Closes f g)
    (ht : ∀ k, t' k = if f k then t k else none) :
    Ledger.Ok p t' { L with records := L.records.map g } := by
  have hget (i : Nat) (r : Record K Q) (hr : (L.records.map g)[i]? = some r) :
      ∃ r₀, L.records[i]? = some r₀ ∧ g r₀ = r := by
    rw [List.getElem?_map] at hr
    exact Option.map_eq_some_iff.mp hr
  constructor
  case live =>
    intro i r hr hlive
    obtain ⟨r₀, h₀, rfl⟩ := hget i r hr
    rw [hg.live, Bool.and_eq_true] at hlive
    rw [hg.key, hg.request, hg.retries, hg.next, ht, if_pos hlive.2]
    exact h.live i r₀ h₀ hlive.1
  case covers =>
    intro k e he
    rw [ht] at he
    split at he
    · rename_i hf
      obtain ⟨i, r, hr, hlive, rfl⟩ := h.covers k e he
      refine ⟨i, g r, ?_, by rw [hg.live, hlive, hf]; rfl, hg.key r⟩
      rw [List.getElem?_map, hr]
      rfl
    · cases he
  case unique =>
    intro i j r s hr hs hlr hls hkey
    obtain ⟨r₀, h₀, rfl⟩ := hget i r hr
    obtain ⟨s₀, hs₀, rfl⟩ := hget j s hs
    rw [hg.live, Bool.and_eq_true] at hlr hls
    rw [hg.key, hg.key] at hkey
    exact h.unique i j r₀ s₀ h₀ hs₀ hlr.1 hls.1 hkey
  case logged =>
    intro x hx
    rw [List.length_map]
    exact h.logged x hx
  case retries =>
    intro i r hr
    obtain ⟨r₀, h₀, rfl⟩ := hget i r hr
    rw [hg.retries]
    exact h.retries i r₀ h₀
  case count =>
    intro i r hr
    obtain ⟨r₀, h₀, rfl⟩ := hget i r hr
    rw [hg.request, hg.retries]
    exact h.count i r₀ h₀
  case spaced => exact h.spaced
  case last =>
    intro i r hr hlive
    obtain ⟨r₀, h₀, rfl⟩ := hget i r hr
    rw [hg.live, Bool.and_eq_true] at hlive
    rw [hg.request, hg.retries, hg.next]
    exact h.last i r₀ h₀ hlive.1

theorem Ledger.sent_map (L : Ledger K Q) {g : Record K Q → Record K Q} (hg : Closes f g) :
    sent { L with records := L.records.map g } = L.sent := by
  unfold sent
  refine List.filterMap_congr fun x _ => ?_
  rw [List.getElem?_map, Option.map_map]
  exact congrArg (L.records[x.1]?.map ·) (funext hg.request)

theorem Closes.keep (f : K → Bool) :
    Closes (Q := Q) f fun r => { r with live := r.live && f r.key } :=
  ⟨fun _ => rfl, fun _ => rfl, fun _ => rfl, fun _ => rfl, fun _ => rfl⟩

theorem Ledger.Ok.keep (h : L.Ok p t) (ht : ∀ k, t' k = if f k then t k else none) :
    (L.keep f).Ok p t' := h.map (.keep f) ht

theorem Ledger.times_append (records : List (Record K Q)) (log : List (Nat × Int)) (j : Nat)
    (time : Int) (i : Nat) :
    times ⟨records, log ++ [(j, time)]⟩ i =
      times ⟨records, log⟩ i ++ if j = i then [time] else [] := by
  unfold times
  rw [List.filter_append, List.map_append]
  by_cases hj : j = i <;> simp [hj]

/-- A record that is not there has not been transmitted. -/
theorem Ledger.Ok.times_nil (h : L.Ok p t) (hi : L.records.length ≤ i) : L.times i = [] := by
  unfold Ledger.times
  rw [List.map_eq_nil_iff, List.filter_eq_nil_iff]
  intro x hx
  have := h.logged x hx
  simp
  omega

theorem Spaced.snoc {gap : Nat → Int} {times : List Int} {time : Int} (h : Spaced gap times)
    (hlast : ∀ a, times[times.length - 1]? = some a → a + gap (times.length - 1) ≤ time) :
    Spaced gap (times ++ [time]) := by
  intro j a b ha hb
  by_cases hj : j + 1 < times.length
  · rw [List.getElem?_append_left (by omega)] at ha hb
    exact h j a b ha hb
  · obtain ⟨hlt, -⟩ := List.getElem?_eq_some_iff.mp hb
    rw [List.length_append, List.length_singleton] at hlt
    have hlen : times.length = j + 1 := by omega
    rw [List.getElem?_append_left (by omega)] at ha
    rw [List.getElem?_append_right (by omega), hlen, Nat.sub_self] at hb
    cases hb
    rw [hlen] at hlast
    exact hlast a ha

/-- A live record is written, in place of the live one of its key or after all others, and
the request is sent if `b`. -/
theorem Ledger.Ok.write (h : L.Ok p t) {L' : Ledger K Q} {s : Record K Q} {b : Bool}
    (hget : ∀ j r, L'.records[j]? = some r ↔ (j ≠ i ∧ L.records[j]? = some r) ∨ (j = i ∧ r = s))
    (hlog : L'.log = L.log ++ if b then [(i, now)] else []) (hl : s.live = true)
    (hkey : ∀ j r, L.records[j]? = some r → r.live = true → (r.key = s.key ↔ j = i))
    (hretries : s.retries ≤ p.limit) (hnext : s.next = now + p.gap s.retries)
    (hcount : (L.times i).length + b.toNat =
      if p.sends then 1 + if p.repeats s.request then s.retries else 0 else 0)
    (hb : p.sends = true → p.repeats s.request = true → b = true)
    (hdue : b = true → ∀ a, (L.times i)[(L.times i).length - 1]? = some a →
      a + p.gap ((L.times i).length - 1) ≤ now)
    (ht : t' s.key = some ⟨s.request, s.retries, s.next⟩)
    (hother : ∀ k', k' ≠ s.key → t' k' = t k') : L'.Ok p t' := by
  have htimes (j : Nat) : L'.times j = L.times j ++ if b ∧ i = j then [now] else [] := by
    unfold Ledger.times
    rw [hlog]
    cases b with
    | false => simp
    | true =>
      simp only [if_true, true_and]
      exact times_append L.records _ _ _ _
  constructor
  case live =>
    intro j r hr hrl
    obtain ⟨hne, hr⟩ | ⟨-, rfl⟩ := (hget j r).mp hr
    · rw [hother _ fun hk => hne ((hkey j r hr hrl).mp hk)]
      exact h.live j r hr hrl
    · exact ht
  case covers =>
    intro k e he
    by_cases hk : k = s.key
    · exact ⟨i, s, (hget i s).mpr (.inr ⟨rfl, rfl⟩), hl, hk.symm⟩
    · rw [hother k hk] at he
      obtain ⟨j, r, hr, hrl, rfl⟩ := h.covers k e he
      exact ⟨j, r, (hget j r).mpr (.inl ⟨fun hj => hk ((hkey j r hr hrl).mpr hj), hr⟩), hrl, rfl⟩
  case unique =>
    intro j j' r r' hr hr' hrl hrl' hk
    obtain ⟨hne, hr⟩ | ⟨hj, rfl⟩ := (hget j r).mp hr
    · obtain ⟨-, hr'⟩ | ⟨-, rfl⟩ := (hget j' r').mp hr'
      · exact h.unique j j' r r' hr hr' hrl hrl' hk
      · exact absurd ((hkey j r hr hrl).mp hk) hne
    · obtain ⟨hne, hr'⟩ | ⟨hj', rfl⟩ := (hget j' r').mp hr'
      · exact absurd ((hkey j' r' hr' hrl').mp hk.symm) hne
      · rw [hj, hj']
  case logged =>
    intro x hx
    have hi : i < L'.records.length :=
      (List.getElem?_eq_some_iff.mp ((hget i s).mpr (.inr ⟨rfl, rfl⟩))).1
    rw [hlog, List.mem_append] at hx
    obtain hx | hx := hx
    · by_cases hj : x.1 = i
      · rw [hj]
        exact hi
      · have hold := List.getElem?_eq_getElem (h.logged x hx)
        exact (List.getElem?_eq_some_iff.mp ((hget _ _).mpr (.inl ⟨hj, hold⟩))).1
    · split at hx
      · rw [List.mem_singleton.mp hx]
        exact hi
      · cases hx
  case retries =>
    intro j r hr
    obtain ⟨-, hr⟩ | ⟨-, rfl⟩ := (hget j r).mp hr
    · exact h.retries j r hr
    · exact hretries
  case count =>
    intro j r hr
    rw [htimes]
    obtain ⟨hne, hr⟩ | ⟨rfl, rfl⟩ := (hget j r).mp hr
    · rw [if_neg (by simp [Ne.symm hne]), List.append_nil]
      exact h.count j r hr
    · rw [← hcount]
      cases b <;> simp
  case spaced =>
    intro j
    rw [htimes]
    split
    · rename_i hj
      rw [← hj.2]
      exact (h.spaced i).snoc (hdue hj.1)
    · rw [List.append_nil]
      exact h.spaced j
  case last =>
    intro j r hr hrl hrep a ha
    rw [htimes] at ha
    obtain ⟨hne, hr⟩ | ⟨rfl, rfl⟩ := (hget j r).mp hr
    · rw [if_neg (by simp [Ne.symm hne]), List.append_nil] at ha
      exact h.last j r hr hrl hrep a ha
    · rw [hrep] at hcount
      cases hs : p.sends with
      | false =>
        cases b <;> simp [hs] at hcount
        simp [hcount] at ha
      | true =>
        obtain rfl := hb hs hrep
        have hlen : r.retries = (L.times j).length := by
          simp [hs] at hcount
          omega
        rw [if_pos ⟨rfl, rfl⟩, hlen, List.getElem?_concat_length] at ha
        cases ha
        rw [hnext]

theorem Ledger.Ok.add (h : L.Ok p t) {k : K} {q : Q} (hk : t k = none)
    (ht : t' k = some ⟨q, 0, now + p.gap 0⟩) (hother : ∀ k', k' ≠ k → t' k' = t k') :
    (L.add p now k q).Ok p t' := by
  have hnew : L.times L.records.length = [] := h.times_nil (Nat.le_refl _)
  refine h.write (i := L.records.length) (s := ⟨k, q, 0, now + p.gap 0, 0, true⟩) (b := p.sends)
    (fun j r => ?_) rfl rfl (fun j r hr hl => ?_) (Nat.zero_le _) rfl ?_ (fun hs _ => hs) ?_
      ht hother
  · rw [Ledger.add, List.getElem?_append]
    split
    · simp only [Nat.ne_of_lt ‹_›, ne_eq, not_false_iff, true_and, false_and, or_false]
    · rw [List.getElem?_singleton, List.getElem?_eq_none (Nat.le_of_not_lt ‹_›)]
      split
      · have hj : j = L.records.length := by omega
        simp [hj, eq_comm]
      · have hj : j ≠ L.records.length := by omega
        simp [hj]
  · refine ⟨fun hkey => ?_, fun hj => ?_⟩
    · rw [← show r.key = k from hkey, h.live j r hr hl] at hk
      cases hk
    · exact absurd (List.getElem?_eq_some_iff.mp hr).1 (by omega)
  · rw [hnew]
    cases p.sends <;> simp
  · rw [hnew]
    exact fun _ a ha => by simp at ha

theorem Ledger.again_some (hr : L.records[i]? = some r) {j : Nat} {s : Record K Q}
    (hs : (L.again p now i).records[j]? = some s) :
    (j ≠ i ∧ L.records[j]? = some s) ∨ (j = i ∧ s = bump p now r) := by
  rw [again, List.getElem?_modify] at hs
  by_cases hij : i = j
  · subst hij
    rw [hr] at hs
    exact .inr ⟨rfl, by simpa using hs.symm⟩
  · simp only [hij, if_false] at hs
    exact .inl ⟨Ne.symm hij, by simpa using hs⟩

theorem Ledger.Ok.again (h : L.Ok p t) (hr : L.records[i]? = some r) (hl : r.live = true)
    (hdue : r.next ≤ now) (hretries : r.retries < p.limit)
    (ht : t' r.key = some ⟨r.request, r.retries + 1, now + p.gap (r.retries + 1)⟩)
    (hother : ∀ k', k' ≠ r.key → t' k' = t k') : (L.again p now i).Ok p t' := by
  have hcount := h.count i r hr
  refine h.write (i := i) (s := bump p now r) (b := p.sends && p.repeats r.request)
    (fun j s => ⟨Ledger.again_some hr, ?_⟩) ?_ hl (fun j s hs hsl => ?_) hretries rfl ?_ ?_ ?_ ht
    hother
  · rintro (⟨hne, hs⟩ | ⟨rfl, rfl⟩)
    · simp [Ledger.again, Ne.symm hne, hs]
    · simp [Ledger.again, hr]
  · rw [Ledger.again, hr, Option.any_some]
  · refine ⟨fun hkey => h.unique j i s r hs hr hsl hl hkey, ?_⟩
    rintro rfl
    cases hr.symm.trans hs
    rfl
  · rw [hcount]
    cases p.sends <;> cases hrep : p.repeats r.request <;> simp [Ledger.bump, hrep]
    omega
  · intro hs hrep
    rw [hs]
    exact hrep
  · intro hb a ha
    obtain ⟨hs, hrep⟩ := Bool.and_eq_true_iff.mp hb
    rw [hs, hrep] at hcount
    have hidx : (L.times i).length - 1 = r.retries := by
      simp at hcount
      omega
    rw [hidx] at ha ⊢
    exact Int.le_trans (h.last i r hr hl hrep a ha) hdue

/-! ## Events -/

theorem Ledger.Ok.find [DecidableEq K] (h : L.Ok p t) {k : K} {e : Timed Q} (he : t k = some e) :
    ∃ (i : Nat) (r : Record K Q), L.find k = some i ∧ L.records[i]? = some r ∧ r.live = true ∧
      r.key = k ∧ e = ⟨r.request, r.retries, r.next⟩ := by
  obtain ⟨j, s, hs, hsl, hkey⟩ := h.covers k e he
  unfold Ledger.find
  cases hfind : L.records.findIdx? fun r => r.live && r.key = k with
  | none =>
    have hmem := List.mem_of_getElem? hs
    have hno := List.findIdx?_eq_none_iff.mp hfind s hmem
    simp [hsl, hkey] at hno
  | some i =>
    obtain ⟨hi, hp, -⟩ := List.findIdx?_eq_some_iff_getElem.mp hfind
    simp only [Bool.and_eq_true, decide_eq_true_eq] at hp
    have hget : L.records[i]? = some L.records[i] := List.getElem?_eq_getElem hi
    refine ⟨i, L.records[i], rfl, hget, hp.1, hp.2, ?_⟩
    have hlive := h.live i _ hget hp.1
    rw [hp.2, he] at hlive
    exact Option.some.inj hlive

theorem Ledger.Ok.record [DecidableEq K] (h : L.Ok p t) (hstep : p.Step now t ev t') :
    (L.record p now ev).Ok p t' := by
  cases hstep with
  | @start k q _ ht =>
    have hkeep : (L.keep fun k' => k' ≠ k).Ok p fun k' => if decide (k' ≠ k) then t k' else none :=
      h.keep fun _ => rfl
    refine hkeep.add (by simp) (by rw [ht]; simp) fun k' hk' => ?_
    rw [ht]
    simp [hk']
  | resend he hdue hretries ht =>
    obtain ⟨i, r, hfind, hr, hl, rfl, rfl⟩ := h.find he
    rw [Ledger.record, hfind]
    refine h.again hr hl hdue hretries (by rw [ht]; simp) fun k' hk' => ?_
    rw [ht, if_neg hk']
  | close ht =>
    rw [Ledger.record]
    refine h.keep fun k' => ?_
    rw [ht]
    simp
  | closeAll ht =>
    rw [Ledger.record]
    exact h.keep fun k' => ht k'
  | idle ht =>
    have htt : t' = t := funext ht
    rw [htt]
    exact h

/-- What an event transmits. -/
def Policy.sentBy (p : Policy Q) (t : K → Option (Timed Q)) : TimerEvent K Q → List Q
  | .start _ q => if p.sends then [q] else []
  | .resend k =>
      match t k with
      | some e => if p.sends && p.repeats e.request then [e.request] else []
      | none => []
  | _ => []

/-- The records of the log stay, with their requests. -/
theorem Ledger.filterMap_log {records : List (Record K Q)} (h : L.Ok p t)
    (hsame : ∀ i < L.records.length, (records[i]?.map fun r => r.request) =
      L.records[i]?.map fun r => r.request) :
    (L.log.filterMap fun x => records[x.1]?.map fun r => r.request) = L.sent := by
  unfold Ledger.sent
  exact List.filterMap_congr fun x hx => hsame x.1 (h.logged x hx)

theorem Ledger.sent_keep (L : Ledger K Q) (f : K → Bool) : (L.keep f).sent = L.sent :=
  L.sent_map (.keep f)

theorem Ledger.sent_record [DecidableEq K] (h : L.Ok p t) (hstep : p.Step now t ev t') :
    (L.record p now ev).sent = L.sent ++ p.sentBy t ev := by
  cases hstep with
  | @start k q _ ht =>
    have hkeep : (L.keep fun k' => k' ≠ k).Ok p fun k' => if decide (k' ≠ k) then t k' else none :=
      h.keep fun _ => rfl
    rw [Ledger.record, ← sent_keep L fun k' => k' ≠ k]
    generalize L.keep (fun k' => decide (k' ≠ k)) = M at hkeep
    rw [sent, add, List.filterMap_append, filterMap_log hkeep]
    · unfold Policy.sentBy
      cases p.sends <;> simp
    · intro i hi
      rw [List.getElem?_append_left hi]
  | resend he hdue hretries ht =>
    obtain ⟨i, r, hfind, hr, hl, rfl, rfl⟩ := h.find he
    rw [Ledger.record, hfind, Option.map_some, Option.getD_some, sent, again, List.filterMap_append,
      filterMap_log h]
    · simp only [Policy.sentBy, he, hr, Option.any_some]
      cases p.sends && p.repeats r.request with
      | false => rfl
      | true => simp [hr, bump]
    · intro j hj
      rw [List.getElem?_modify]
      by_cases hij : i = j
      · subst hij
        simp [hr, bump]
      · simp [hij]
  | close ht => rw [Ledger.record, sent_keep]; exact (List.append_nil _).symm
  | closeAll ht => rw [Ledger.record, sent_keep]; exact (List.append_nil _).symm
  | idle ht => exact (List.append_nil _).symm

/-! ## Rounds -/

/-- A request under retransmission was due as often as it was sent again, and `extra`
times more; a closed one at most once more than it may be sent again. -/
def Ledger.Counted (p : Policy Q) (extra : Int → Nat) (L : Ledger K Q) : Prop :=
  ∀ r ∈ L.records, if r.live then r.due = r.retries + extra r.next else r.due ≤ p.limit + 1

/-- What is counted already, in a round at that time. -/
def dueAt (now next : Int) : Nat := if next ≤ now then 1 else 0

theorem Closes.round (now : Int) : Closes (K := K) (Q := Q) (fun _ => true) fun r =>
    if r.live && r.next ≤ now then { r with due := r.due + 1 } else r := by
  constructor <;> intro r <;> split <;> simp

theorem Ledger.Ok.round (h : L.Ok p t) (now : Int) : (L.round now).Ok p t :=
  h.map (.round now) fun _ => (if_pos rfl).symm

theorem Ledger.sent_round (L : Ledger K Q) (now : Int) : (L.round now).sent = L.sent :=
  L.sent_map (.round now)

theorem Ledger.Counted.round (h : L.Counted p fun _ => 0) (now : Int) :
    (L.round now).Counted p (dueAt now) := by
  intro r hr
  obtain ⟨r₀, h₀, rfl⟩ := List.mem_map.mp hr
  have hdue := h r₀ h₀
  cases hlive : r₀.live with
  | false => simpa [hlive] using hdue
  | true =>
    rw [hlive, if_pos rfl] at hdue
    by_cases hnext : r₀.next ≤ now <;> simp [hlive, hnext, hdue, dueAt]

/-- At the end of the round nothing is due. -/
theorem Ledger.Counted.settled (h : L.Counted p (dueAt now)) (hok : L.Ok p t)
    (hlater : ∀ k e, t k = some e → now < e.next) : L.Counted p fun _ => 0 := by
  intro r hr
  have hdue := h r hr
  cases hlive : r.live with
  | false => simpa [hlive] using hdue
  | true =>
    obtain ⟨i, hi⟩ := List.getElem?_of_mem hr
    have hnext := hlater _ _ (hok.live i r hi hlive)
    simpa [hlive, dueAt, Int.not_le.mpr hnext] using hdue

section
variable {extra : Int → Nat}

theorem Ledger.Counted.keep (h : L.Counted p extra) (hok : L.Ok p t)
    (hextra : ∀ next, extra next ≤ 1) (f : K → Bool) : (L.keep f).Counted p extra := by
  intro r hr
  obtain ⟨r₀, h₀, rfl⟩ := List.mem_map.mp hr
  obtain ⟨i, hi⟩ := List.getElem?_of_mem h₀
  have hdue := h r₀ h₀
  have hretries := hok.retries i r₀ hi
  have hone := hextra r₀.next
  cases hlive : r₀.live with
  | false => simpa [hlive] using hdue
  | true =>
    rw [hlive, if_pos rfl] at hdue
    cases hf : f r₀.key with
    | true => simpa [hf] using hdue
    | false =>
      simp [hdue]
      omega

theorem Ledger.Counted.record [DecidableEq K] {ev : TimerEvent K Q} (h : L.Counted p extra)
    (hok : L.Ok p t)
    (hextra : ∀ next, extra next ≤ 1) (hlater : ∀ next, now < next → extra next = 0)
    (hstep : p.Step now t ev t') (hresend : (∃ k, ev = .resend k) → extra = dueAt now) :
    (L.record p now ev).Counted p extra := by
  cases hstep with
  | @start k q _ ht =>
    intro r hr
    obtain hr | hr := List.mem_append.mp hr
    · exact h.keep hok hextra _ r hr
    · have hzero := hlater (now + p.gap 0) (by have := p.gap_pos 0; omega)
      rw [List.mem_singleton.mp hr]
      simp [hzero]
  | resend he hdue hretries ht =>
    obtain ⟨i, r, hfind, hr, hl, rfl, rfl⟩ := hok.find he
    have heq := hresend ⟨_, rfl⟩
    rw [Ledger.record, hfind, Option.map_some, Option.getD_some]
    intro s hs
    obtain ⟨j, hj⟩ := List.getElem?_of_mem hs
    obtain ⟨-, hj⟩ | ⟨-, rfl⟩ := Ledger.again_some hr hj
    · exact h s (List.mem_of_getElem? hj)
    · have hcount := h r (List.mem_of_getElem? hr)
      have hzero := hlater (now + p.gap (r.retries + 1))
        (by have := p.gap_pos (r.retries + 1); omega)
      rw [hl, if_pos rfl, heq] at hcount
      simp only [dueAt] at hcount
      rw [if_pos hdue] at hcount
      simp [Ledger.bump, hl, hzero, hcount]
  | close ht => exact h.keep hok hextra _
  | closeAll ht => exact h.keep hok hextra _
  | idle ht => exact h

end

/-- A new entry is due later. -/
theorem Policy.Step.later [DecidableEq K] (h : p.Step now t ev t') {k : K} {e : Timed Q}
    (he : t' k = some e) : t k = some e ∨ now < e.next := by
  cases h with
  | start ht =>
    rw [ht] at he
    split at he
    · cases he
      exact .inr (Int.lt_add_of_pos_right _ (p.gap_pos 0))
    · exact .inl he
  | resend _ _ _ ht =>
    rw [ht] at he
    split at he
    · cases he
      exact .inr (Int.lt_add_of_pos_right _ (p.gap_pos _))
    · exact .inl he
  | close ht =>
    rw [ht] at he
    split at he
    · cases he
    · exact .inl he
  | closeAll ht =>
    rw [ht] at he
    cases he
  | idle ht => exact .inl (ht k ▸ he)

/-! ## What a ledger says -/

theorem Ledger.Ok.transmissions_le (h : L.Ok p t) (hr : L.records[i]? = some r) :
    (L.times i).length ≤ 1 + p.limit := by
  rw [h.count i r hr]
  have := h.retries i r hr
  split
  · split <;> omega
  · omega

theorem Ledger.Counted.due_le (h : L.Counted p fun _ => 0) (hok : L.Ok p t)
    (hr : L.records[i]? = some r) :
    r.due ≤ p.limit + 1 ∧ (r.live = true → r.due ≤ p.limit) := by
  have hdue := h r (List.mem_of_getElem? hr)
  have := hok.retries i r hr
  cases hlive : r.live with
  | false =>
    rw [hlive] at hdue
    exact ⟨by simpa using hdue, nofun⟩
  | true =>
    rw [hlive, if_pos rfl, Nat.add_zero] at hdue
    exact ⟨by omega, fun _ => by omega⟩

end
end Stice.Lib
