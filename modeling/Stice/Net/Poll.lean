import Stice.Types
import Stice.Lib.Reach
import Stice.Lib.Rows
import Stice.Lib.Store

/-! The sockets a poll registry has registered with the kernel (`net/poll.cpp`). The kernel holds a
mask and the index of a slot for each descriptor and forgets a descriptor that is closed; the
number of a closed one may come back for another socket. An invalid socket is `none`. -/
namespace Stice.Net.Poll
open Std

variable {r : PollRegistry}
variable {participants : List Participant} {d : Desired}

/-- A participant, with what its getters return. -/
structure Participant where
  id : Nat
  udpSocket : Option Nat
  hasTcp : Bool
  tcpSocket : Option Nat
  tcpDesiredEvents : UInt16
  hasTurnTcp : Bool
  turnTcpSocket : Option Nat
  turnTcpDesiredEvents : UInt16
  turnTcpSlots : List (Option Nat × UInt16)
  hasListener : Bool
  listenerSocket : Option Nat
  hasTurnDataTcp : Bool
  turnDataTcpSocket : Option Nat
  turnDataDesiredEvents : UInt16

structure Desired where
  fd : Nat
  p : Nat
  kind : Nat
  idx : Option Nat
  events : UInt16
  deriving DecidableEq, Repr

def pollIn : UInt16 := 1
def pollOut : UInt16 := 4
def pollErr : UInt16 := 8
def pollHup : UInt16 := 16

/-- The socket of a getter behind its flag. -/
def Participant.socket (p : Participant) (has : Bool) (fd : Option Nat) (kind : Nat)
    (events : UInt16) : List Desired :=
  if has then fd.toList.map (⟨·, p.id, kind, none, events⟩) else []

def Participant.desired (p : Participant) : List Desired :=
  p.socket true p.udpSocket 1 pollIn ++
  p.socket p.hasTcp p.tcpSocket 2 p.tcpDesiredEvents ++
  p.socket p.hasTurnTcp p.turnTcpSocket 3 p.turnTcpDesiredEvents ++
  (p.turnTcpSlots.zipIdx.filterMap fun ((fd, events), i) =>
    if p.hasTurnTcp ∧ fd = p.turnTcpSocket then none
    else fd.map (⟨·, p.id, 6, some i, events⟩)) ++
  p.socket p.hasListener p.listenerSocket 4 pollIn ++
  p.socket p.hasTurnDataTcp p.turnDataTcpSocket 5 p.turnDataDesiredEvents

/-- The sockets that participants want to have polled. -/
def wanted (participants : List Participant) : List Desired := participants.flatMap (·.desired)

structure Slot where
  fd : Option Nat
  participant : Option Nat
  kind : Nat
  idx : Option Nat
  lastEvents : UInt16
  active : Bool
  seen : Bool
  deriving DecidableEq, Repr

/-- The registrations of an epoll instance: a mask and the data for each descriptor. -/
abbrev Kernel := TreeMap Nat (UInt32 × Nat)

structure PollRegistry where
  interruptSock : Option Nat
  slots : List Slot := []
  fdToSlot : TreeMap Nat Nat := ∅
  kernel : Kernel := ∅
  epollLastFullSyncMs : Int := 0

def epollIn : UInt32 := 1

/-- The mask for `epoll_ctl`. -/
def epollMask (events : UInt16) : UInt32 :=
  (if events &&& pollIn ≠ 0 then epollIn else 0) ||| (if events &&& pollOut ≠ 0 then 4 else 0) |||
    (if events &&& pollErr ≠ 0 then 8 else 0) ||| (if events &&& pollHup ≠ 0 then 16 else 0)

def epollSetup (r : PollRegistry) : PollRegistry :=
  match r.interruptSock with
  | none => r
  | some fd => { r with
      slots := r.slots ++ [⟨some fd, none, 0, none, pollIn, true, true⟩]
      fdToSlot := r.fdToSlot.insert fd r.slots.length
      kernel := if r.kernel[fd]?.isSome then r.kernel
        else r.kernel.insert fd (epollIn, r.slots.length) }

/-- `EPOLL_CTL_MOD`, or `DEL` and `ADD` where it fails. -/
def reassert (k : Kernel) (fd : Nat) (ee : UInt32 × Nat) : Kernel :=
  if k[fd]?.isSome then k.insert fd ee else (k.erase fd).insert fd ee

/-- One desired socket. A failed `EPOLL_CTL_ADD` passes it over. -/
def syncOne (forceAll : Bool) (r : PollRegistry) (d : Desired) : PollRegistry :=
  match r.fdToSlot[d.fd]? with
  | none =>
    let idx := r.slots.length
    if r.kernel[d.fd]?.isSome then r
    else { r with
      slots := r.slots ++ [⟨some d.fd, some d.p, d.kind, d.idx, d.events, true, true⟩]
      fdToSlot := r.fdToSlot.insert d.fd idx
      kernel := r.kernel.insert d.fd (epollMask d.events, idx) }
  | some idx =>
    match r.slots[idx]? with
    | none => r
    | some s =>
      let ownerChanged : Bool := s.participant ≠ some d.p ∨ s.kind ≠ d.kind ∨ s.idx ≠ d.idx
      let renew : Bool := s.lastEvents ≠ d.events ∨ ownerChanged ∨ forceAll
      { r with
        slots := r.slots.set idx { s with
          seen := true, participant := some d.p, kind := d.kind, idx := d.idx
          lastEvents := if renew then d.events else s.lastEvents }
        kernel := if renew then reassert r.kernel d.fd (epollMask d.events, idx) else r.kernel }

/-- The slot gives up a socket that is no longer desired. -/
def dropUnseen (r : PollRegistry) (i : Nat) : PollRegistry :=
  match r.slots[i]? with
  | some s =>
    if s.kind ≠ 0 ∧ s.active ∧ ¬ s.seen then { r with
      slots := r.slots.set i { s with active := false, fd := none, participant := none }
      fdToSlot := s.fd.elim r.fdToSlot r.fdToSlot.erase
      kernel := s.fd.elim r.kernel r.kernel.erase }
    else r
  | none => r

def kFullResyncMs : Int := 1000

def Slot.unsee (s : Slot) : Slot := if s.kind ≠ 0 then { s with seen := false } else s

def epollSync (r : PollRegistry) (participants : List Participant) (forceResync : Bool)
    (now : Int) : PollRegistry :=
  let forceAll : Bool := forceResync ∨ kFullResyncMs ≤ now - r.epollLastFullSyncMs
  let marked := { r with slots := r.slots.map Slot.unsee }
  let synced := (wanted participants).foldl (syncOne forceAll) marked
  let synced := if forceAll then { synced with epollLastFullSyncMs := now } else synced
  (List.range synced.slots.length).foldl dropUnseen synced

/-- The map and the active slots agree, the kernel knows nothing else, and the interrupt socket is
in a slot of its own. -/
structure Table (r : PollRegistry) : Prop where
  slot : ∀ fd i : Nat, r.fdToSlot[fd]? = some i →
    ∃ s : Slot, r.slots[i]? = some s ∧ s.active ∧ s.fd = some fd
  mapped : ∀ (i : Nat) (s : Slot), r.slots[i]? = some s → s.active →
    ∃ fd, s.fd = some fd ∧ r.fdToSlot[fd]? = some i
  known : ∀ (fd : Nat) (ee : UInt32 × Nat), r.kernel[fd]? = some ee → r.fdToSlot[fd]? = some ee.2
  own : ∀ fd : Nat, r.interruptSock = some fd → ∃ i, ∃ s : Slot, r.fdToSlot[fd]? = some i ∧
    r.slots[i]? = some s ∧ s.kind = 0 ∧ r.kernel[fd]? = some (epollIn, i)
  zero : ∀ (i : Nat) (s : Slot), r.slots[i]? = some s → s.kind = 0 → s.active ∧
    s.fd = r.interruptSock

/-- The slot of `d`, as it is when `d` has been dealt with. -/
structure Slot.Holds (s : Slot) (d : Desired) : Prop where
  seen : s.seen
  participant : s.participant = some d.p
  kind : s.kind = d.kind
  idx : s.idx = d.idx

/-- What dealing with one socket does: to its own slot, and nothing to the others. -/
structure Dealt (forceAll : Bool) (r : PollRegistry) (d : Desired) (t : PollRegistry) : Prop where
  table : Table t
  interrupt : t.interruptSock = r.interruptSock
  held : ∃ i, ∃ s : Slot, t.fdToSlot[d.fd]? = some i ∧ t.slots[i]? = some s ∧ s.Holds d ∧
    (forceAll → t.kernel[d.fd]? = some (epollMask d.events, i))
  others : ∀ fd : Nat, fd ≠ d.fd → t.fdToSlot[fd]? = r.fdToSlot[fd]? ∧
    t.kernel[fd]? = r.kernel[fd]? ∧
    ∀ i, r.fdToSlot[fd]? = some i → t.slots[i]? = r.slots[i]?
  length : t.slots.length = r.slots.length + if r.fdToSlot[d.fd]? = none then 1 else 0

theorem Table.slot_lt (h : Table r) {fd i : Nat}
    (hi : r.fdToSlot[fd]? = some i) : i < r.slots.length := by
  obtain ⟨s, hs, -⟩ := h.slot fd i hi
  exact (List.getElem?_eq_some_iff.mp hs).1

theorem dealt_new (h : Table r) (hkind : d.kind ≠ 0) (hnew : r.fdToSlot[d.fd]? = none)
    (forceAll : Bool) : Dealt forceAll r d (syncOne forceAll r d) := by
  have hfree : r.kernel[d.fd]?.isSome = false := by
    cases hk : r.kernel[d.fd]? with
    | none => rfl
    | some ee => exact absurd ((h.known _ _ hk).symm.trans hnew) (Option.some_ne_none _)
  have hstep : syncOne forceAll r d = { r with
      slots := r.slots ++ [⟨some d.fd, some d.p, d.kind, d.idx, d.events, true, true⟩]
      fdToSlot := r.fdToSlot.insert d.fd r.slots.length
      kernel := r.kernel.insert d.fd (epollMask d.events, r.slots.length) } := by
    unfold syncOne
    simp only [hnew, hfree]
    rfl
  rw [hstep]
  have hold : ∀ {fd i : Nat}, r.fdToSlot[fd]? = some i → ∀ l : List Slot,
      (r.slots ++ l)[i]? = r.slots[i]? := by
    intro fd i hi l
    exact List.getElem?_append_left (h.slot_lt hi)
  have hother : ∀ {fd i : Nat}, r.fdToSlot[fd]? = some i → fd ≠ d.fd := by
    rintro fd i hi rfl
    exact Option.some_ne_none _ (hi.symm.trans hnew)
  have hlast : ∀ l : Slot, (r.slots ++ [l])[r.slots.length]? = some l := by simp
  refine ⟨⟨?_, ?_, ?_, ?_, ?_⟩, rfl, ?_, ?_, ?_⟩
  · intro fd i hi
    rcases Lib.getElem?_insert_some hi with ⟨rfl, rfl⟩ | ⟨-, hi⟩
    · exact ⟨_, hlast _, rfl, rfl⟩
    · rw [hold hi]
      exact h.slot fd i hi
  · intro i s hs hactive
    rcases Lib.getElem?_concat_cases hs with hs | ⟨hle, rfl⟩
    · obtain ⟨fd, hs, hi⟩ := h.mapped i s hs hactive
      exact ⟨fd, hs, (Lib.getElem?_insert_of_ne (hother hi)).trans hi⟩
    · have hlt := (List.getElem?_eq_some_iff.mp hs).1
      rw [List.length_append, List.length_singleton] at hlt
      cases Nat.le_antisymm hle (Nat.le_of_lt_succ hlt)
      exact ⟨d.fd, rfl, TreeMap.getElem?_insert_self⟩
  · intro fd ee hee
    rcases Lib.getElem?_insert_some hee with ⟨rfl, rfl⟩ | ⟨hne, hee⟩
    · exact TreeMap.getElem?_insert_self
    · exact (Lib.getElem?_insert_of_ne hne).trans (h.known fd ee hee)
  · intro fd hown
    obtain ⟨i, s, hi, hs, hkind, hk⟩ := h.own fd hown
    exact ⟨i, s, (Lib.getElem?_insert_of_ne (hother hi)).trans hi, (hold hi _).trans hs, hkind,
      (Lib.getElem?_insert_of_ne (hother hi)).trans hk⟩
  · intro i s hs hzero
    rcases Lib.getElem?_concat_cases hs with hs | ⟨-, rfl⟩
    · exact h.zero i s hs hzero
    · exact absurd hzero hkind
  · exact ⟨_, _, TreeMap.getElem?_insert_self, hlast _, ⟨rfl, rfl, rfl, rfl⟩,
      fun _ => TreeMap.getElem?_insert_self⟩
  · intro fd hne
    exact ⟨Lib.getElem?_insert_of_ne hne, Lib.getElem?_insert_of_ne hne, fun i hi => hold hi _⟩
  · simp [hnew]

theorem reassert_self (k : Kernel) (fd : Nat) (ee : UInt32 × Nat) :
    (reassert k fd ee)[fd]? = some ee := by
  unfold reassert
  split <;> exact TreeMap.getElem?_insert_self

theorem reassert_of_ne {k : Kernel} {fd fd' : Nat} (ee : UInt32 × Nat) (h : fd' ≠ fd) :
    (reassert k fd ee)[fd']? = k[fd']? := by
  unfold reassert
  split
  · exact Lib.getElem?_insert_of_ne h
  · rw [Lib.getElem?_insert_of_ne h, Lib.getElem?_erase_of_ne h]

/-- A slot is renewed in place: it keeps its socket, and nothing else is touched. -/
theorem dealt_known (h : Table r) {i : Nat} (hkind : d.kind ≠ 0) (hfd : r.interruptSock ≠ some d.fd)
    (hi : r.fdToSlot[d.fd]? = some i) (forceAll : Bool) :
    Dealt forceAll r d (syncOne forceAll r d) := by
  obtain ⟨s, hs, hactive, hsfd⟩ := h.slot d.fd i hi
  have hlt := h.slot_lt hi
  unfold syncOne
  simp only [hi, hs]
  generalize hrenew : decide (s.lastEvents ≠ d.events ∨
    decide (s.participant ≠ some d.p ∨ s.kind ≠ d.kind ∨ s.idx ≠ d.idx) = true ∨
      forceAll = true) = renew
  set s' : Slot := { s with
    seen := true, participant := some d.p, kind := d.kind, idx := d.idx
    lastEvents := if renew = true then d.events else s.lastEvents } with hs'
  have hself : (r.slots.set i s')[i]? = some s' := List.getElem?_set_self hlt
  have hrest : ∀ {j}, j ≠ i → (r.slots.set i s')[j]? = r.slots[j]? := by
    intro j hj
    exact List.getElem?_set_ne (Ne.symm hj)
  have hnot : ∀ {fd j}, r.fdToSlot[fd]? = some j → fd ≠ d.fd → j ≠ i := by
    rintro fd j hj hne rfl
    obtain ⟨s₂, hs₂, -, hfd₂⟩ := h.slot fd j hj
    rw [hs] at hs₂
    cases hs₂
    exact hne (Option.some.inj (hfd₂.symm.trans hsfd))
  have hkernel : ∀ {fd}, fd ≠ d.fd → (if renew = true then
      reassert r.kernel d.fd (epollMask d.events, i) else r.kernel)[fd]? = r.kernel[fd]? := by
    intro fd hne
    split
    · exact reassert_of_ne _ hne
    · rfl
  refine ⟨⟨?_, ?_, ?_, ?_, ?_⟩, rfl, ?_, ?_, ?_⟩
  · intro fd j hj
    by_cases hji : j = i
    · subst hji
      obtain ⟨s₂, hs₂, -, hfd₂⟩ := h.slot fd j hj
      rw [hs] at hs₂
      cases hs₂
      exact ⟨s', hself, hactive, hfd₂⟩
    · exact (hrest hji).symm ▸ h.slot fd j hj
  · intro j s₂ hs₂ hactive₂
    by_cases hji : j = i
    · subst hji
      rw [hself] at hs₂
      cases hs₂
      exact ⟨d.fd, hsfd, hi⟩
    · exact h.mapped j s₂ ((hrest hji).symm.trans hs₂) hactive₂
  · intro fd ee hee
    by_cases hne : fd = d.fd
    · subst hne
      split at hee
      · rw [reassert_self] at hee
        cases hee
        exact hi
      · exact h.known _ ee hee
    · exact h.known fd ee ((hkernel hne).symm.trans hee)
  · intro fd hown
    obtain ⟨j, s₂, hj, hs₂, hk₂, hker⟩ := h.own fd hown
    have hne : fd ≠ d.fd := fun he => hfd (he ▸ hown)
    exact ⟨j, s₂, hj, (hrest (hnot hj hne)).trans hs₂, hk₂, (hkernel hne).trans hker⟩
  · intro j s₂ hs₂ hzero
    by_cases hji : j = i
    · subst hji
      rw [hself] at hs₂
      cases hs₂
      exact absurd hzero hkind
    · exact h.zero j s₂ ((hrest hji).symm.trans hs₂) hzero
  · refine ⟨i, s', hi, hself, ⟨rfl, rfl, rfl, rfl⟩, ?_⟩
    intro hforce
    have : renew = true := by
      rw [← hrenew, decide_eq_true_eq]
      exact .inr (.inr hforce)
    rw [if_pos this]
    exact reassert_self _ _ _
  · intro fd hne
    exact ⟨rfl, hkernel hne, fun j hj => hrest (hnot hj hne)⟩
  · simp [hi]

theorem Table.syncOne (h : Table r) (hkind : d.kind ≠ 0) (hfd : r.interruptSock ≠ some d.fd)
    (forceAll : Bool) : Dealt forceAll r d (syncOne forceAll r d) := by
  cases hi : r.fdToSlot[d.fd]? with
  | none => exact dealt_new h hkind hi forceAll
  | some i => exact dealt_known h hkind hfd hi forceAll

/-- The sockets dealt with so far hold their slots, and no other slot has been seen. -/
structure Synced (forceAll : Bool) (r : PollRegistry) (done : List Desired) : Prop where
  table : Table r
  current : ∀ fd ∈ done.map Desired.fd, ∃ d ∈ done, d.fd = fd ∧ ∃ i, ∃ s : Slot,
    r.fdToSlot[fd]? = some i ∧ r.slots[i]? = some s ∧ s.Holds d ∧
      (forceAll → r.kernel[fd]? = some (epollMask d.events, i))
  unseen : ∀ (fd i : Nat) (s : Slot), r.fdToSlot[fd]? = some i → r.slots[i]? = some s →
    s.kind ≠ 0 → s.seen → fd ∈ done.map Desired.fd

theorem Synced.next {forceAll : Bool} {r : PollRegistry} {done : List Desired} {d : Desired}
    (h : Synced forceAll r done) (hkind : d.kind ≠ 0) (hfd : r.interruptSock ≠ some d.fd) :
    Synced forceAll (syncOne forceAll r d) (done ++ [d]) := by
  have hd := h.table.syncOne hkind hfd forceAll
  refine ⟨hd.table, ?_, ?_⟩
  · intro fd hin
    by_cases hne : fd = d.fd
    · obtain ⟨i, s, hi, hs, hholds, hkernel⟩ := hd.held
      subst hne
      exact ⟨d, by simp, rfl, i, s, hi, hs, hholds, hkernel⟩
    · have hin : fd ∈ done.map Desired.fd := by simpa [hne] using hin
      obtain ⟨d', hd', hfd', i, s, hi, hs, hholds, hkernel⟩ := h.current fd hin
      obtain ⟨hmap, hker, hslot⟩ := hd.others fd hne
      exact ⟨d', List.mem_append_left _ hd', hfd', i, s, hmap.trans hi, (hslot i hi).trans hs,
        hholds, fun hforce => hker.trans (hkernel hforce)⟩
  · intro fd i s hi hs hkind' hseen
    rw [List.map_append, List.mem_append]
    by_cases hne : fd = d.fd
    · exact .inr (by simp [hne])
    · obtain ⟨hmap, -, hslot⟩ := hd.others fd hne
      rw [hmap] at hi
      exact .inl (h.unseen fd i s hi ((hslot i hi).symm.trans hs) hkind' hseen)

theorem Synced.foldl {forceAll : Bool} {r : PollRegistry} {done : List Desired}
    (h : Synced forceAll r done) {ds : List Desired} (hkind : ∀ d ∈ ds, d.kind ≠ 0)
    (hfd : ∀ d ∈ ds, r.interruptSock ≠ some d.fd) :
    Synced forceAll (ds.foldl (syncOne forceAll) r) (done ++ ds) ∧
      (ds.foldl (syncOne forceAll) r).interruptSock = r.interruptSock := by
  induction ds generalizing r done with
  | nil => exact ⟨by rwa [List.append_nil], rfl⟩
  | cons d ds ih =>
    have hd := h.table.syncOne (hkind d List.mem_cons_self) (hfd d List.mem_cons_self) forceAll
    have hnext := h.next (hkind d List.mem_cons_self) (hfd d List.mem_cons_self)
    obtain ⟨hsynced, hint⟩ := ih hnext (fun d' hd' => hkind d' (List.mem_cons_of_mem _ hd'))
      (fun d' hd' => hd.interrupt ▸ hfd d' (List.mem_cons_of_mem _ hd'))
    rw [List.append_assoc] at hsynced
    exact ⟨hsynced, hint.trans hd.interrupt⟩

/-- A slot that stays: the interrupt socket's, or one that has been seen. -/
def Slot.stays (s : Slot) : Prop := s.kind = 0 ∨ s.seen

/-- What is left when the slots `is` have given up what was not seen. -/
structure Dropped (r : PollRegistry) (is : List Nat) (t : PollRegistry) : Prop where
  table : Table t
  interrupt : t.interruptSock = r.interruptSock
  length : t.slots.length = r.slots.length
  kept : ∀ (fd j : Nat) (s : Slot), r.fdToSlot[fd]? = some j → r.slots[j]? = some s → s.stays →
    t.fdToSlot[fd]? = some j ∧ t.slots[j]? = some s ∧ t.kernel[fd]? = r.kernel[fd]?
  old : ∀ (fd j : Nat) (s : Slot), t.fdToSlot[fd]? = some j → t.slots[j]? = some s →
    r.fdToSlot[fd]? = some j ∧ r.slots[j]? = some s ∧ (j ∈ is → s.stays)

theorem Dropped.none (h : Table r) {is : List Nat}
    (hstays : ∀ j ∈ is, ∀ s : Slot, r.slots[j]? = some s → s.active → s.stays) :
    Dropped r is r := by
  refine ⟨h, rfl, rfl, fun _ _ _ hj hs _ => ⟨hj, hs, rfl⟩, ?_⟩
  intro fd j s hj hs
  refine ⟨hj, hs, fun hin => hstays j hin s hs ?_⟩
  obtain ⟨s', hs', hactive, -⟩ := h.slot fd j hj
  cases hs.symm.trans hs'
  exact hactive

theorem Table.dropUnseen (h : Table r) (i : Nat) : Dropped r [i] (dropUnseen r i) := by
  unfold Poll.dropUnseen
  split
  · rename_i s hs
    split
    · rename_i hdrop
      obtain ⟨hkind, hactive, hseen⟩ := hdrop
      obtain ⟨f, hf, hi⟩ := h.mapped i s hs hactive
      have hlt := h.slot_lt hi
      have hgoes : ¬ s.stays := not_or.mpr ⟨hkind, hseen⟩
      simp only [hf, Option.elim_some]
      set s' : Slot := { s with active := false, fd := none, participant := none } with hs'
      have hself : (r.slots.set i s')[i]? = some s' := List.getElem?_set_self hlt
      have hrest : ∀ {j}, j ≠ i → (r.slots.set i s')[j]? = r.slots[j]? := by
        intro j hj
        exact List.getElem?_set_ne (Ne.symm hj)
      have hnot : ∀ {fd j : Nat}, r.fdToSlot[fd]? = some j → fd ≠ f → j ≠ i := by
        rintro fd j hj hne rfl
        obtain ⟨s₂, hs₂, -, hfd₂⟩ := h.slot fd j hj
        cases hs.symm.trans hs₂
        exact hne (Option.some.inj (hfd₂.symm.trans hf))
      refine ⟨⟨?_, ?_, ?_, ?_, ?_⟩, rfl, by simp, ?_, ?_⟩
      · intro fd j hj
        obtain ⟨hne, hj⟩ := Lib.getElem?_erase_some hj
        exact (hrest (hnot hj hne)).symm ▸ h.slot fd j hj
      · intro j s₂ hs₂ hactive₂
        by_cases hji : j = i
        · subst hji
          cases hself.symm.trans hs₂
          cases hactive₂
        · obtain ⟨fd, hfd, hj⟩ := h.mapped j s₂ ((hrest hji).symm.trans hs₂) hactive₂
          refine ⟨fd, hfd, (Lib.getElem?_erase_of_ne ?_).trans hj⟩
          rintro rfl
          exact hji (Option.some.inj (hj.symm.trans hi))
      · intro fd ee hee
        obtain ⟨hne, hee⟩ := Lib.getElem?_erase_some hee
        exact (Lib.getElem?_erase_of_ne hne).trans (h.known fd ee hee)
      · intro fd hown
        obtain ⟨j, s₂, hj, hs₂, hk₂, hker⟩ := h.own fd hown
        have hne : fd ≠ f := by
          rintro rfl
          cases hi.symm.trans hj
          cases hs.symm.trans hs₂
          exact hkind hk₂
        exact ⟨j, s₂, (Lib.getElem?_erase_of_ne hne).trans hj, (hrest (hnot hj hne)).trans hs₂, hk₂,
          (Lib.getElem?_erase_of_ne hne).trans hker⟩
      · intro j s₂ hs₂ hzero
        by_cases hji : j = i
        · subst hji
          cases hself.symm.trans hs₂
          exact absurd hzero hkind
        · exact h.zero j s₂ ((hrest hji).symm.trans hs₂) hzero
      · intro fd j s₂ hj hs₂ hstays
        have hne : fd ≠ f := by
          rintro rfl
          cases hi.symm.trans hj
          cases hs.symm.trans hs₂
          exact hgoes hstays
        exact ⟨(Lib.getElem?_erase_of_ne hne).trans hj, (hrest (hnot hj hne)).trans hs₂,
          Lib.getElem?_erase_of_ne hne⟩
      · intro fd j s₂ hj hs₂
        obtain ⟨hne, hj⟩ := Lib.getElem?_erase_some hj
        have hji := hnot hj hne
        exact ⟨hj, (hrest hji).symm.trans hs₂, fun hin => absurd (List.mem_singleton.mp hin) hji⟩
    · rename_i hstay
      refine .none h ?_
      intro j hj s₂ hs₂ hactive
      cases List.mem_singleton.mp hj
      cases hs.symm.trans hs₂
      by_contra hgoes
      obtain ⟨hkind, hseen⟩ := not_or.mp hgoes
      exact hstay ⟨hkind, hactive, hseen⟩
  · rename_i hs
    refine .none h ?_
    intro j hj s₂ hs₂
    cases List.mem_singleton.mp hj
    cases hs.symm.trans hs₂

theorem Table.foldl_dropUnseen (h : Table r) (is : List Nat) :
    Dropped r is (is.foldl Poll.dropUnseen r) := by
  induction is generalizing r with
  | nil => exact .none h (List.forall_mem_nil _)
  | cons i is ih =>
    have hone := h.dropUnseen i
    have hrest := ih hone.table
    refine ⟨hrest.table, hrest.interrupt.trans hone.interrupt, hrest.length.trans hone.length,
      ?_, ?_⟩
    · intro fd j s hj hs hstays
      obtain ⟨hj₁, hs₁, hk₁⟩ := hone.kept fd j s hj hs hstays
      obtain ⟨hj₂, hs₂, hk₂⟩ := hrest.kept fd j s hj₁ hs₁ hstays
      exact ⟨hj₂, hs₂, hk₂.trans hk₁⟩
    · intro fd j s hj hs
      obtain ⟨hj₁, hs₁, hin₁⟩ := hrest.old fd j s hj hs
      obtain ⟨hj₂, hs₂, hin₂⟩ := hone.old fd j s hj₁ hs₁
      refine ⟨hj₂, hs₂, fun hin => ?_⟩
      rcases List.mem_cons.mp hin with rfl | hin
      · exact hin₂ List.mem_cons_self
      · exact hin₁ hin

theorem Participant.kind_ne_zero {p : Participant} (h : d ∈ p.desired) : d.kind ≠ 0 := by
  have hsocket : ∀ {has fd kind events}, d ∈ p.socket has fd kind events → d.kind = kind := by
    intro has fd kind events hd
    unfold Participant.socket at hd
    split at hd
    · obtain ⟨_, -, rfl⟩ := List.mem_map.mp hd
      rfl
    · cases hd
  simp only [Participant.desired, List.mem_append] at h
  rcases h with ((((h | h) | h) | h) | h) | h
  · simp [hsocket h]
  · simp [hsocket h]
  · simp [hsocket h]
  · obtain ⟨x, -, hx⟩ := List.mem_filterMap.mp h
    split at hx
    · cases hx
    · obtain ⟨_, -, rfl⟩ := Option.map_eq_some_iff.mp hx
      exact Nat.succ_ne_zero _
  · simp [hsocket h]
  · simp [hsocket h]

theorem unsee_fields (s : Slot) :
    s.unsee.fd = s.fd ∧ s.unsee.active = s.active ∧ s.unsee.kind = s.kind ∧
      (s.kind ≠ 0 → ¬ s.unsee.seen) := by
  unfold Slot.unsee
  split
  · exact ⟨rfl, rfl, rfl, fun _ => Bool.false_ne_true⟩
  · rename_i hkind
    exact ⟨rfl, rfl, rfl, fun h => absurd h hkind⟩

/-- Before the first socket no slot has been seen. -/
theorem Table.mark (h : Table r) (forceAll : Bool) :
    Synced forceAll { r with slots := r.slots.map Slot.unsee } [] := by
  have hmap : ∀ {i : Nat} {s : Slot}, (r.slots.map Slot.unsee)[i]? = some s →
      ∃ s₀, r.slots[i]? = some s₀ ∧ s₀.unsee = s := by
    intro i s hs
    rw [List.getElem?_map] at hs
    exact Option.map_eq_some_iff.mp hs
  have hunsee : ∀ {i : Nat} {s : Slot}, r.slots[i]? = some s →
      (r.slots.map Slot.unsee)[i]? = some s.unsee := by
    intro i s hs
    rw [List.getElem?_map, hs]
    rfl
  refine ⟨⟨?_, ?_, h.known, ?_, ?_⟩, fun _ hin => absurd hin List.not_mem_nil, ?_⟩
  · intro fd i hi
    obtain ⟨s, hs, hactive, hfd⟩ := h.slot fd i hi
    exact ⟨s.unsee, hunsee hs, by rwa [(unsee_fields s).2.1], by rwa [(unsee_fields s).1]⟩
  · intro i s hs hactive
    obtain ⟨s₀, hs₀, rfl⟩ := hmap hs
    rw [(unsee_fields s₀).2.1] at hactive
    rw [(unsee_fields s₀).1]
    exact h.mapped i s₀ hs₀ hactive
  · intro fd hown
    obtain ⟨i, s, hi, hs, hkind, hk⟩ := h.own fd hown
    exact ⟨i, s.unsee, hi, hunsee hs, by rwa [(unsee_fields s).2.2.1], hk⟩
  · intro i s hs hzero
    obtain ⟨s₀, hs₀, rfl⟩ := hmap hs
    rw [(unsee_fields s₀).2.2.1] at hzero
    rw [(unsee_fields s₀).2.1, (unsee_fields s₀).1]
    exact h.zero i s₀ hs₀ hzero
  · intro fd i s _ hs hkind hseen
    obtain ⟨s, -, rfl⟩ := hmap hs
    rw [(unsee_fields s).2.2.1] at hkind
    exact absurd hseen ((unsee_fields s).2.2.2 hkind)

theorem foldl_syncOne_length (h : Table r) {ds : List Desired} (hkind : ∀ d ∈ ds, d.kind ≠ 0)
    (hfd : ∀ d ∈ ds, r.interruptSock ≠ some d.fd) (forceAll : Bool) :
    (ds.foldl (syncOne forceAll) r).slots.length = r.slots.length +
      ((ds.map Desired.fd).toFinset.filter fun fd => r.fdToSlot[fd]? = none).card := by
  induction ds generalizing r with
  | nil => rfl
  | cons d ds ih =>
    have hd := h.syncOne (hkind d List.mem_cons_self) (hfd d List.mem_cons_self) forceAll
    rw [List.foldl_cons, ih hd.table (fun d' hd' => hkind d' (List.mem_cons_of_mem _ hd'))
      (fun d' hd' => hd.interrupt ▸ hfd d' (List.mem_cons_of_mem _ hd')), hd.length]
    have hleft : ((ds.map Desired.fd).toFinset.filter fun fd =>
        (syncOne forceAll r d).fdToSlot[fd]? = none) =
        ((ds.map Desired.fd).toFinset.filter fun fd => r.fdToSlot[fd]? = none).erase d.fd := by
      ext fd
      rw [Finset.mem_filter, Finset.mem_erase, Finset.mem_filter]
      by_cases hne : fd = d.fd
      · obtain ⟨i, -, hi, -⟩ := hd.held
        simp [hne, hi]
      · simp [hne, (hd.others fd hne).1]
    rw [hleft, List.map_cons, List.toFinset_cons, Finset.filter_insert]
    set free := (ds.map Desired.fd).toFinset.filter fun fd => r.fdToSlot[fd]? = none with hfree
    split
    · have hone := Finset.card_erase_add_one (Finset.mem_insert_self d.fd free)
      rw [Finset.erase_insert_eq_erase] at hone
      omega
    · rename_i hthere
      have hout : d.fd ∉ free := fun hin => hthere (Finset.mem_filter.mp hin).2
      rw [Finset.erase_eq_of_notMem hout, Nat.add_zero]

/-- The interrupt socket is none of the participants'. -/
def Apart (r : PollRegistry) (participants : List Participant) : Prop :=
  ∀ d ∈ wanted participants, r.interruptSock ≠ some d.fd

/-- The registry after a synchronization: the map leads to the interrupt socket and to what is
wanted, each in the slot of one that wants it. -/
structure Settled (forced : Bool) (r : PollRegistry) (ds : List Desired) : Prop where
  table : Table r
  only : ∀ fd i : Nat, r.fdToSlot[fd]? = some i →
    r.interruptSock = some fd ∨ fd ∈ ds.map Desired.fd
  current : ∀ fd ∈ ds.map Desired.fd, ∃ d ∈ ds, d.fd = fd ∧ ∃ i, ∃ s : Slot,
    r.fdToSlot[fd]? = some i ∧ r.slots[i]? = some s ∧ s.Holds d ∧
      (forced → r.kernel[fd]? = some (epollMask d.events, i))

theorem Table.epollSync (h : Table r) (hapart : Apart r participants) (forceResync : Bool)
    (now : Int) :
    Settled forceResync (epollSync r participants forceResync now) (wanted participants) ∧
      (epollSync r participants forceResync now).interruptSock = r.interruptSock ∧
      (epollSync r participants forceResync now).slots.length = r.slots.length +
        (((wanted participants).map Desired.fd).toFinset.filter fun fd =>
          r.fdToSlot[fd]? = none).card := by
  unfold Poll.epollSync
  dsimp only
  set forceAll : Bool := decide (forceResync ∨ kFullResyncMs ≤ now - r.epollLastFullSyncMs)
    with hforceAll
  have hkind : ∀ d ∈ wanted participants, d.kind ≠ 0 := by
    intro d hd
    obtain ⟨p, -, hp⟩ := List.mem_flatMap.mp hd
    exact Participant.kind_ne_zero hp
  obtain ⟨hsynced, hint⟩ := (h.mark forceAll).foldl hkind hapart
  have hlength := foldl_syncOne_length (h.mark forceAll).table hkind hapart forceAll
  rw [List.length_map] at hlength
  rw [List.nil_append] at hsynced
  set t := (wanted participants).foldl (Poll.syncOne forceAll)
    { r with slots := r.slots.map Slot.unsee }
  have htime : ∀ u, u = t ∨ u = { t with epollLastFullSyncMs := now } →
      Synced forceAll u (wanted participants) ∧ u.interruptSock = r.interruptSock ∧
        u.slots.length = t.slots.length := by
    rintro u (rfl | rfl)
    · exact ⟨hsynced, hint, rfl⟩
    · exact ⟨⟨⟨hsynced.table.slot, hsynced.table.mapped, hsynced.table.known, hsynced.table.own,
        hsynced.table.zero⟩, hsynced.current, hsynced.unseen⟩, hint, rfl⟩
  obtain ⟨hu, hint, hsize⟩ :=
    htime (if forceAll = true then { t with epollLastFullSyncMs := now } else t)
    (by split <;> simp)
  set u := if forceAll = true then { t with epollLastFullSyncMs := now } else t
  have hdropped := hu.table.foldl_dropUnseen (List.range u.slots.length)
  refine ⟨⟨hdropped.table, ?_, ?_⟩, hdropped.interrupt.trans hint,
    hdropped.length.trans (hsize.trans hlength)⟩
  · intro fd i hi
    obtain ⟨s, hs, -, hfd⟩ := hdropped.table.slot fd i hi
    obtain ⟨hi', hs', hin⟩ := hdropped.old fd i s hi hs
    rcases hin (List.mem_range.mpr (hu.table.slot_lt hi')) with hzero | hseen
    · have hown := (hu.table.zero i s hs' hzero).2
      exact .inl (hdropped.interrupt.trans (hown.symm.trans hfd))
    · by_cases hzero : s.kind = 0
      · have hown := (hu.table.zero i s hs' hzero).2
        exact .inl (hdropped.interrupt.trans (hown.symm.trans hfd))
      · exact .inr (hu.unseen fd i s hi' hs' hzero hseen)
  · intro fd hin
    obtain ⟨d, hd, hfd, i, s, hi, hs, hholds, hkernel⟩ := hu.current fd hin
    obtain ⟨hi', hs', hk'⟩ := hdropped.kept fd i s hi hs (.inr hholds.seen)
    refine ⟨d, hd, hfd, i, s, hi', hs', hholds, fun hforced => hk'.trans (hkernel ?_)⟩
    rw [hforceAll, decide_eq_true_eq]
    exact .inl hforced

/-- What happens to a registry: a socket is closed, or the poll thread synchronizes. -/
inductive Event
  | close (fd : Nat)
  | sync (participants : List Participant) (forceResync : Bool) (now : Int)

def step (r : PollRegistry) : Event → PollRegistry
  | .close fd => { r with kernel := r.kernel.erase fd }
  | .sync participants forceResync now => epollSync r participants forceResync now

/-- The interrupt socket is the registry's own: nobody else closes it or wants it polled. -/
def Respects (r : PollRegistry) : Event → Prop
  | .close fd => r.interruptSock ≠ some fd
  | .sync participants _ _ => Apart r participants

def Fresh (r : PollRegistry) : Prop := ∃ interruptSock, r = epollSetup { interruptSock }

theorem Table.setup (interruptSock : Option Nat) : Table (epollSetup { interruptSock }) := by
  cases interruptSock with
  | none =>
    have hmap : ∀ fd : Nat, (∅ : TreeMap Nat Nat)[fd]? = none := fun _ => TreeMap.getElem?_emptyc
    have hker : ∀ fd : Nat, (∅ : Kernel)[fd]? = none := fun _ => TreeMap.getElem?_emptyc
    refine ⟨?_, ?_, ?_, ?_, ?_⟩
    · intro fd i hi
      cases (hmap fd).symm.trans hi
    · intro i s hs
      cases hs
    · intro fd ee hee
      cases (hker fd).symm.trans hee
    · intro fd hown
      cases hown
    · intro i s hs
      cases hs
  | some f =>
    have hker : (∅ : Kernel)[f]?.isSome = false := by
      rw [TreeMap.getElem?_emptyc]
      rfl
    have hmap : ∀ {fd i : Nat}, ((∅ : TreeMap Nat Nat).insert f 0)[fd]? = some i →
        fd = f ∧ i = 0 := by
      intro fd i hi
      rcases Lib.getElem?_insert_some hi with h | ⟨-, h⟩
      · exact h
      · cases TreeMap.getElem?_emptyc.symm.trans h
    have hslot : ∀ {i : Nat} {s x : Slot}, [x][i]? = some s → i = 0 ∧ s = x := by
      intro i s x hs
      cases i with
      | zero => exact ⟨rfl, (Option.some.inj hs).symm⟩
      | succ i => cases hs
    simp only [epollSetup, hker, Bool.false_eq_true, if_false]
    refine ⟨?_, ?_, ?_, ?_, ?_⟩
    · intro fd i hi
      obtain ⟨rfl, rfl⟩ := hmap hi
      exact ⟨_, rfl, rfl, rfl⟩
    · intro i s hs _
      obtain ⟨rfl, rfl⟩ := hslot hs
      exact ⟨f, rfl, TreeMap.getElem?_insert_self⟩
    · intro fd ee hee
      rcases Lib.getElem?_insert_some hee with ⟨rfl, rfl⟩ | ⟨-, hee⟩
      · exact TreeMap.getElem?_insert_self
      · cases TreeMap.getElem?_emptyc.symm.trans hee
    · intro fd hown
      cases hown
      exact ⟨0, _, TreeMap.getElem?_insert_self, rfl, rfl, TreeMap.getElem?_insert_self⟩
    · intro i s hs _
      obtain ⟨rfl, rfl⟩ := hslot hs
      exact ⟨rfl, rfl⟩

theorem Table.step (h : Table r) (e : Event) (hok : Respects r e) : Table (step r e) := by
  cases e with
  | close fd =>
    refine ⟨h.slot, h.mapped, ?_, ?_, h.zero⟩
    · intro fd' ee hee
      exact h.known fd' ee (Lib.getElem?_erase_some hee).2
    · intro fd' hown
      obtain ⟨i, s, hi, hs, hkind, hk⟩ := h.own fd' hown
      refine ⟨i, s, hi, hs, hkind, (Lib.getElem?_erase_of_ne ?_).trans hk⟩
      rintro rfl
      exact hok hown
  | sync participants forceResync now => exact (h.epollSync hok forceResync now).1.table

/-- After a forced synchronization the kernel has the interrupt socket and what is wanted, with
the mask and the slot of the one that wants it. -/
theorem epollSync_exact {r : PollRegistry} (h : Lib.Reach Fresh (Lib.Guarded Respects step) r)
    {participants : List Participant} (hapart : Apart r participants)
    (hdistinct : ((wanted participants).map Desired.fd).Nodup) (now : Int) :
    let t := epollSync r participants true now
    (∀ fd : Nat, t.kernel[fd]?.isSome ↔
      r.interruptSock = some fd ∨ fd ∈ (wanted participants).map Desired.fd) ∧
    (∀ d ∈ wanted participants, ∃ i, t.kernel[d.fd]? = some (epollMask d.events, i) ∧
      ∃ s : Slot, t.slots[i]? = some s ∧ s.active ∧ s.fd = some d.fd ∧ s.participant = some d.p ∧
        s.kind = d.kind ∧ s.idx = d.idx) ∧
    (∀ fd : Nat, r.interruptSock = some fd → ∃ i, t.kernel[fd]? = some (epollIn, i) ∧
      ∃ s : Slot, t.slots[i]? = some s ∧ s.active ∧ s.fd = some fd ∧ s.kind = 0) ∧
    (∀ fd i : Nat, t.fdToSlot[fd]? = some i →
      ∃ s : Slot, t.slots[i]? = some s ∧ s.active ∧ s.fd = some fd) ∧
    ∀ (i : Nat) (s : Slot), t.slots[i]? = some s → s.active → ∃! fd : Nat,
      t.fdToSlot[fd]? = some i := by
  intro t
  have htable : Table r := by
    refine h.invariant ?_ ?_
    · rintro _ ⟨interruptSock, rfl⟩
      exact .setup interruptSock
    · rintro _ e _ hs ⟨hok, rfl⟩
      exact hs.step e hok
  obtain ⟨hsettled, hint, -⟩ := htable.epollSync hapart true now
  change Settled true t _ at hsettled
  change t.interruptSock = _ at hint
  have hcurrent : ∀ d ∈ wanted participants, ∃ i, ∃ s : Slot, t.fdToSlot[d.fd]? = some i ∧
      t.slots[i]? = some s ∧ s.Holds d ∧ t.kernel[d.fd]? = some (epollMask d.events, i) := by
    intro d hd
    obtain ⟨d', hd', hfd, i, s, hi, hs, hholds, hk⟩ :=
      hsettled.current d.fd (List.mem_map_of_mem hd)
    cases List.inj_on_of_nodup_map hdistinct hd' hd hfd
    exact ⟨i, s, hi, hs, hholds, hk rfl⟩
  refine ⟨?_, ?_, ?_, hsettled.table.slot, ?_⟩
  · intro fd
    constructor
    · intro hsome
      obtain ⟨ee, hee⟩ := Option.isSome_iff_exists.mp hsome
      exact hint ▸ hsettled.only fd _ (hsettled.table.known fd ee hee)
    · rintro (hown | hin)
      · obtain ⟨i, -, -, -, -, hk⟩ := hsettled.table.own fd (hint.trans hown)
        rw [hk]
        rfl
      · obtain ⟨d, hd, rfl⟩ := List.mem_map.mp hin
        obtain ⟨i, -, -, -, -, hk⟩ := hcurrent d hd
        rw [hk]
        rfl
  · intro d hd
    obtain ⟨i, s, hi, hs, hholds, hk⟩ := hcurrent d hd
    obtain ⟨s', hs', hactive, hfd⟩ := hsettled.table.slot d.fd i hi
    cases hs.symm.trans hs'
    exact ⟨i, hk, s, hs, hactive, hfd, hholds.participant, hholds.kind, hholds.idx⟩
  · intro fd hown
    obtain ⟨i, s, hi, hs, hkind, hk⟩ := hsettled.table.own fd (hint.trans hown)
    obtain ⟨s', hs', hactive, hfd⟩ := hsettled.table.slot fd i hi
    cases hs.symm.trans hs'
    exact ⟨i, hk, s, hs, hactive, hfd, hkind⟩
  · intro i s hs hactive
    obtain ⟨fd, hfd, hi⟩ := hsettled.table.mapped i s hs hactive
    refine ⟨fd, hi, ?_⟩
    intro fd' hi'
    obtain ⟨s', hs', -, hfd'⟩ := hsettled.table.slot fd' i hi'
    cases hs.symm.trans hs'
    exact Option.some.inj (hfd'.symm.trans hfd)

/-- A participant with a UDP socket alone. -/
def udpOnly (id fd : Nat) : Participant :=
  ⟨id, some fd, false, none, 0, false, none, 0, [], false, none, false, none, 0⟩

/-- A participant with a UDP and a TCP socket. -/
def udpAndTcp (id fd tcp : Nat) : Participant :=
  { udpOnly id fd with hasTcp := true, tcpSocket := some tcp, tcpDesiredEvents := 1 }

/-- Two participants have been polled; the socket of the first is closed, and another one comes. -/
theorem epollSync_exact_udp :
    let r := [.sync [udpOnly 1 5, udpOnly 2 6] false 0, .close 5].foldl step
      (epollSetup { interruptSock := some 3 })
    ∀ fd : Nat, (epollSync r [udpOnly 2 6, udpAndTcp 3 7 8] true 10).kernel[fd]?.isSome ↔
      fd ∈ [3, 6, 7, 8] := by
  intro r fd
  have hreach : Lib.Reach Fresh (Lib.Guarded Respects step) r := by
    refine .next (.close 5) (.next (.sync _ false 0) (.start ⟨some 3, rfl⟩) ⟨?_, rfl⟩) ⟨?_, rfl⟩
    · unfold Respects Apart
      decide
    · unfold Respects
      decide
  have hapart : Apart r [udpOnly 2 6, udpAndTcp 3 7 8] := by
    unfold Apart
    decide
  rw [(epollSync_exact hreach hapart (by decide) 10).1 fd]
  have hown : r.interruptSock = some 3 := by decide
  have hfds : (wanted [udpOnly 2 6, udpAndTcp 3 7 8]).map Desired.fd = [6, 7, 8] := by decide
  rw [hown, hfds]
  simp [eq_comm]

/-! ## The size of the table -/

/-- The descriptors that participants want to have polled. -/
def wantedFds (participants : List Participant) : Finset Nat :=
  ((wanted participants).map Desired.fd).toFinset

/-- How many sockets of a run were wanted without having been wanted in the synchronization
before. -/
def newcomers : Finset Nat → List Event → Nat
  | _, [] => 0
  | prev, .close _ :: es => newcomers prev es
  | prev, .sync participants _ _ :: es =>
    (wantedFds participants \ prev).card + newcomers (wantedFds participants) es

/-- The map leads to the interrupt socket and to `prev`. -/
def Maps (r : PollRegistry) (prev : Finset Nat) : Prop :=
  ∀ fd : Nat, r.interruptSock ≠ some fd → (r.fdToSlot[fd]? = none ↔ fd ∉ prev)

theorem Settled.maps {forced : Bool} {r : PollRegistry}
    (h : Settled forced r (wanted participants)) : Maps r (wantedFds participants) := by
  intro fd hfd
  rw [wantedFds, List.mem_toFinset]
  constructor
  · intro hnone hin
    obtain ⟨-, -, -, i, -, hi, -⟩ := h.current fd hin
    cases hnone.symm.trans hi
  · intro hout
    rw [Option.eq_none_iff_forall_ne_some]
    intro i hi
    exact (h.only fd i hi).elim hfd hout

theorem epollSync_length (h : Table r) {prev : Finset Nat} (hmaps : Maps r prev)
    (hapart : Apart r participants) (forceResync : Bool) (now : Int) :
    (epollSync r participants forceResync now).slots.length =
      r.slots.length + (wantedFds participants \ prev).card := by
  obtain ⟨-, -, hlength⟩ := h.epollSync hapart forceResync now
  rw [hlength, wantedFds]
  congr 2
  ext fd
  rw [Finset.mem_filter, Finset.mem_sdiff]
  refine and_congr_right fun hin => hmaps fd ?_
  obtain ⟨d, hd, rfl⟩ := List.mem_map.mp (List.mem_toFinset.mp hin)
  exact hapart d hd

theorem slots_length (h : Table r) {prev : Finset Nat} (hmaps : Maps r prev)
    {es : List Event} (hok : ∀ e ∈ es, Respects r e) :
    (es.foldl step r).slots.length = r.slots.length + newcomers prev es := by
  induction es generalizing r prev with
  | nil => rfl
  | cons e es ih =>
    have htable := h.step e (hok e List.mem_cons_self)
    cases e with
    | close fd =>
      exact ih htable hmaps fun e he => hok e (List.mem_cons_of_mem _ he)
    | sync participants forceResync now =>
      have hapart : Apart r participants := hok _ List.mem_cons_self
      obtain ⟨hsettled, hint, -⟩ := h.epollSync hapart forceResync now
      have hrest : ∀ e ∈ es, Respects (epollSync r participants forceResync now) e := by
        intro e he
        have := hok e (List.mem_cons_of_mem _ he)
        cases e with
        | close fd => exact fun h => this (hint.symm.trans h)
        | sync ps force now' => exact fun d hd h => this d hd (hint.symm.trans h)
      have hlength := epollSync_length h hmaps hapart forceResync now
      rw [List.foldl_cons, newcomers, ← Nat.add_assoc, ← hlength]
      exact ih htable hsettled.maps hrest

/-- The table has a slot for the interrupt socket and one for each time a socket was wanted anew. -/
theorem slot_table_size (interruptSock : Option Nat) {es : List Event}
    (hok : ∀ e ∈ es, Respects (epollSetup { interruptSock }) e) :
    (es.foldl step (epollSetup { interruptSock })).slots.length =
      interruptSock.toList.length + newcomers ∅ es := by
  have hmaps : Maps (epollSetup { interruptSock }) ∅ := by
    intro fd hfd
    refine iff_of_true ?_ (Finset.notMem_empty fd)
    cases interruptSock with
    | none => exact TreeMap.getElem?_emptyc
    | some f =>
      exact (Lib.getElem?_insert_of_ne fun h => hfd (congrArg some h.symm)).trans
        TreeMap.getElem?_emptyc
  rw [slots_length (.setup interruptSock) hmaps hok]
  cases interruptSock <;> rfl

/-- One socket at a time, twice. -/
def churn : List Event := [.sync [udpOnly 1 5] true 0, .close 5, .sync [udpOnly 2 6] true 1]

theorem slot_table_size_churn :
    (churn.foldl step (epollSetup { interruptSock := some 3 })).slots.length =
      1 + newcomers ∅ churn :=
  @slot_table_size (some 3) churn (by
    intro e he
    simp only [churn, List.mem_cons, List.not_mem_nil, or_false] at he
    rcases he with rfl | rfl | rfl
    · unfold Respects Apart
      decide
    · unfold Respects
      decide
    · unfold Respects Apart
      decide)

/-- Never more than one socket is wanted, and the table has three slots. -/
theorem slot_table_grows :
    (churn.foldl step (epollSetup { interruptSock := some 3 })).slots.length = 3 := by
  decide +kernel

end Stice.Net.Poll
