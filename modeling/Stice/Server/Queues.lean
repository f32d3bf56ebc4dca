import Stice.Lib.Names
import Stice.Lib.Reach
import Stice.Lib.Store
import Stice.Server.Connections

/-! Which connection or allocation an event ends up with. IO workers read from sockets
and call back; the callbacks queue work items for the shards and the business thread,
which look the socket number up when they get to the item. Meanwhile the socket may
have been closed and its number given to a new connection or relay socket. Every item
carries, for the statement only, the connection or allocation it is about. -/
namespace Stice.Server
open Std Net Lib

/-- What an open socket belongs to: a connection that was accepted, or an allocation. -/
inductive Owner
  | conn (id : Nat)
  | relay (id : Nat)
  deriving DecidableEq

/-- `WorkItem::Kind` with the data of the item. UDP packets name no socket. -/
inductive ItemKind
  | tcpAccepted
  | tcpConnData (data : Bytes)
  | tcpConnClosed
  | tcpConnWritable
  | relayData (data : Bytes) (src : AddrRecord)

structure WorkItem where
  kind : ItemKind
  sock : Socket
  subject : Owner

/-- A shard thread and its queue; `current` is the connection it works for, with the
socket number of the item. -/
structure Shard where
  queue : List WorkItem
  current : Option (Socket × Nat)

def WorkItem.mention (it : WorkItem) : Socket × Owner := (it.sock, it.subject)

def Shard.mentions (sh : Shard) : List (Socket × Owner) :=
  sh.queue.map WorkItem.mention ++ sh.current.toList.map fun c => (c.1, .conn c.2)

/-- What `findAllocByRelayRef` finds. -/
structure RelayAlloc where
  id : Nat
  controlSock : Socket

/-- What became of an item. -/
inductive Handled
  | fed (subject : Owner) (conn : Nat) (data : Bytes)
  | forwarded (subject : Owner) (alloc : Nat) (data : Bytes) (src : AddrRecord)
  | closed (subject : Owner) (conn : Nat)
  deriving DecidableEq

/-- It went to the connection or the allocation it was about. -/
def Handled.Right : Handled → Prop
  | .fed subject conn _ => subject = .conn conn
  | .forwarded subject alloc _ _ => subject = .relay alloc
  | .closed subject conn => subject = .conn conn

/-- `fds` are the open sockets of the process, `callbacks` what IO workers have read
and not yet handed over. -/
structure Plane where
  fds : TreeMap Socket Owner
  nextId : Nat
  tcpBySock : TreeMap Socket Nat
  allocByRelaySock : TreeMap Socket RelayAlloc
  callbacks : List WorkItem
  controlQueue : List WorkItem
  shards : List Shard
  handled : List Handled

def shardIndexFor (shardCount : Nat) (s : Socket) : Nat :=
  let h := UInt64.ofInt s
  let h := (h ^^^ (h >>> 33)) * 0xff51afd7ed558ccd
  let h := (h ^^^ (h >>> 33)) * 0xc4ceb9fe1a85ec53
  ((h ^^^ (h >>> 33)) % UInt64.ofNat shardCount).toNat

namespace Plane

variable {st : Plane} {k : Nat} {s : Socket} {it : WorkItem} {m : Socket × Owner}

def start (shardCount : Nat) : Plane :=
  ⟨∅, 0, ∅, ∅, [], [], List.replicate shardCount ⟨[], none⟩, []⟩

def enqueueControl (st : Plane) (it : WorkItem) : Plane :=
  { st with controlQueue := st.controlQueue ++ [it] }

def enqueueToShard (st : Plane) (k : Nat) (it : WorkItem) : Plane :=
  { st with shards := st.shards.modify k fun sh => { sh with queue := sh.queue ++ [it] } }

def handle (st : Plane) (h : Handled) : Plane := { st with handled := st.handled ++ [h] }

/-- The callbacks of the server: `ioOnTcpConnData` and the others. -/
def callback (st : Plane) (it : WorkItem) : Plane :=
  match it.kind with
  | .tcpConnData _ | .tcpConnWritable =>
      st.enqueueToShard (shardIndexFor st.shards.length it.sock) it
  | .tcpConnClosed | .tcpAccepted => st.enqueueControl it
  | .relayData data src =>
      match st.allocByRelaySock[it.sock]? with
      | none => st
      | some a =>
          if a.controlSock = invalidSocket then st.handle (.forwarded it.subject a.id data src)
          else st.enqueueToShard (shardIndexFor st.shards.length a.controlSock) it

/-- The business thread. `closeTcpConn` unpublishes the connection and closes its
socket. -/
def processItem (st : Plane) (it : WorkItem) : Plane :=
  match it.kind with
  | .tcpAccepted =>
      match it.subject with
      | .conn id => { st with tcpBySock := st.tcpBySock.insert it.sock id }
      | .relay _ => st
  | .tcpConnClosed =>
      match st.tcpBySock[it.sock]? with
      | none => st
      | some c =>
          { st with
            tcpBySock := st.tcpBySock.erase it.sock
            fds := st.fds.erase it.sock }.handle (.closed it.subject c)
  | _ => st

def workOn (st : Plane) (k : Nat) (current : Option (Socket × Nat)) : Plane :=
  { st with shards := st.shards.modify k fun sh => { sh with current := current } }

def processShardItem (st : Plane) (k : Nat) (it : WorkItem) : Plane :=
  match it.kind with
  | .tcpConnData data =>
      match st.tcpBySock[it.sock]? with
      | none => st
      | some c => (st.workOn k (some (it.sock, c))).handle (.fed it.subject c data)
  | .tcpConnWritable =>
      match st.tcpBySock[it.sock]? with
      | none => st
      | some c => st.workOn k (some (it.sock, c))
  | .relayData data src =>
      match st.allocByRelaySock[it.sock]? with
      | none => st
      | some a => st.handle (.forwarded it.subject a.id data src)
  | _ => st

/-- What an IO worker can read from a socket of the connection or allocation. -/
def ItemKind.readFrom : ItemKind → Owner → Bool
  | .tcpConnData _, .conn _ | .tcpConnClosed, .conn _ | .tcpConnWritable, .conn _ => true
  | .relayData _ _, .relay _ => true
  | _, _ => false

/-- The operating system hands out a number that is not open; an IO worker reads; one of
the callbacks is made; the business thread or a shard takes its next item; a shard asks
for the close of the connection it works for, and is done with it. -/
inductive Event
  | accept (s : Socket)
  | openRelay (s controlSock : Socket)
  | destroyRelay (s : Socket)
  | read (s : Socket) (kind : ItemKind)
  | callback (i : Nat)
  | control
  | shard (k : Nat)
  | enqueueCloseConn (k : Nat)
  | shardDone (k : Nat)

def step (st : Plane) : Event → Plane
  | .accept s =>
      if st.fds.contains s then st
      else
        { st with
          fds := st.fds.insert s (.conn st.nextId)
          nextId := st.nextId + 1 }.enqueueControl ⟨.tcpAccepted, s, .conn st.nextId⟩
  | .openRelay s controlSock =>
      if st.fds.contains s then st
      else
        { st with
          fds := st.fds.insert s (.relay st.nextId)
          nextId := st.nextId + 1
          allocByRelaySock := st.allocByRelaySock.insert s ⟨st.nextId, controlSock⟩ }
  | .destroyRelay s =>
      match st.allocByRelaySock[s]? with
      | none => st
      | some _ =>
          { st with allocByRelaySock := st.allocByRelaySock.erase s, fds := st.fds.erase s }
  | .read s kind =>
      match st.fds[s]? with
      | none => st
      | some o =>
          if ItemKind.readFrom kind o then { st with callbacks := st.callbacks ++ [⟨kind, s, o⟩] }
          else st
  | .callback i =>
      match st.callbacks[i]? with
      | none => st
      | some it => { st with callbacks := st.callbacks.eraseIdx i }.callback it
  | .control =>
      match st.controlQueue with
      | [] => st
      | it :: rest => { st with controlQueue := rest }.processItem it
  | .shard k =>
      match st.shards[k]? with
      | some ⟨it :: rest, none⟩ =>
          { st with shards := st.shards.set k ⟨rest, none⟩ }.processShardItem k it
      | _ => st
  | .enqueueCloseConn k =>
      match st.shards[k]? with
      | some ⟨_, some (s, c)⟩ => st.enqueueControl ⟨.tcpConnClosed, s, .conn c⟩
      | _ => st
  | .shardDone k => st.workOn k none

/-- All that names a socket and is on its way. -/
def mentions (st : Plane) : List (Socket × Owner) :=
  (st.callbacks ++ st.controlQueue).map WorkItem.mention ++ st.shards.flatMap Shard.mentions

/-- A socket number is handed out only when nothing on its way names it. -/
def unnamed (st : Plane) : Event → Bool
  | .accept s | .openRelay s _ => st.mentions.all fun m => m.1 ≠ s
  | _ => true

/-! ## What is on its way -/

theorem mem_mentions :
    m ∈ st.mentions ↔ (∃ it ∈ st.callbacks, it.mention = m) ∨
      (∃ it ∈ st.controlQueue, it.mention = m) ∨ ∃ sh ∈ st.shards, m ∈ sh.mentions := by
  simp [mentions]

theorem mem_modify {α : Type} {l : List α} {k : Nat} {f : α → α} {x : α} (h : x ∈ l.modify k f) :
    x ∈ l ∨ ∃ y ∈ l, x = f y := by
  obtain ⟨i, hi⟩ := List.mem_iff_getElem?.mp h
  rw [List.getElem?_modify] at hi
  obtain ⟨y, hy, rfl⟩ := Option.map_eq_some_iff.mp hi
  have hmem := List.mem_of_getElem? hy
  split
  · exact .inr ⟨y, hmem, rfl⟩
  · exact .inl hmem

/-- A change of shards that brings in at most `new`. -/
theorem mentions_modify {f : Shard → Shard} {new m : Socket × Owner}
    (hf : ∀ sh, ∀ m ∈ (f sh).mentions, m ∈ sh.mentions ∨ m = new)
    (h : m ∈ { st with shards := st.shards.modify k f }.mentions) : m ∈ st.mentions ∨ m = new := by
  rw [mem_mentions] at h ⊢
  obtain h | h | ⟨sh, hsh, hm⟩ := h
  · exact .inl (.inl h)
  · exact .inl (.inr (.inl h))
  · obtain hsh | ⟨sh', hsh', rfl⟩ := mem_modify hsh
    · exact .inl (.inr (.inr ⟨sh, hsh, hm⟩))
    · exact (hf sh' m hm).imp (fun hm => .inr (.inr ⟨sh', hsh', hm⟩)) id

theorem mentions_enqueueToShard
    (h : m ∈ (st.enqueueToShard k it).mentions) : m ∈ st.mentions ∨ m = it.mention := by
  refine mentions_modify (fun sh m hm => ?_) h
  simp only [Shard.mentions, List.map_append, List.mem_append, List.map_cons, List.map_nil,
    List.mem_singleton] at hm ⊢
  obtain (hm | hm) | hm := hm
  · exact .inl (.inl hm)
  · exact .inr hm
  · exact .inl (.inr hm)

theorem mentions_workOn {c : Nat} {m : Socket × Owner}
    (h : m ∈ (st.workOn k (some (s, c))).mentions) : m ∈ st.mentions ∨ m = (s, .conn c) := by
  refine mentions_modify (fun sh m hm => ?_) h
  simp only [Shard.mentions, List.mem_append, Option.toList_some, List.map_cons, List.map_nil,
    List.mem_singleton] at hm ⊢
  exact hm.imp .inl id

theorem mentions_shardDone (h : m ∈ (st.workOn k none).mentions) : m ∈ st.mentions := by
  rw [mem_mentions] at h ⊢
  refine h.imp id (Or.imp id ?_)
  rintro ⟨sh, hsh, hm⟩
  obtain hsh | ⟨sh', hsh', rfl⟩ := mem_modify hsh
  · exact ⟨sh, hsh, hm⟩
  · refine ⟨sh', hsh', ?_⟩
    simp only [Shard.mentions, Option.toList_none, List.map_nil, List.append_nil] at hm
    exact List.mem_append_left _ hm

theorem mentions_enqueueControl
    (h : m ∈ (st.enqueueControl it).mentions) : m ∈ st.mentions ∨ m = it.mention := by
  rw [mem_mentions] at h ⊢
  obtain h | ⟨it', hit', rfl⟩ | h := h
  · exact .inl (.inl h)
  · obtain hit' | hit' := List.mem_append.mp hit'
    · exact .inl (.inr (.inl ⟨it', hit', rfl⟩))
    · rw [List.mem_singleton.mp hit']
      exact .inr rfl
  · exact .inl (.inr (.inr h))

/-- The first item of a shard is taken. -/
theorem mentions_pop {rest : List WorkItem}
    (hk : st.shards[k]? = some ⟨it :: rest, none⟩) {m : Socket × Owner}
    (h : m ∈ { st with shards := st.shards.set k ⟨rest, none⟩ }.mentions) : m ∈ st.mentions := by
  have hmem := List.mem_of_getElem? hk
  rw [mem_mentions] at h ⊢
  refine h.imp id (Or.imp id ?_)
  rintro ⟨sh, hsh, hm⟩
  obtain hsh | rfl := List.mem_or_eq_of_mem_set hsh
  · exact ⟨sh, hsh, hm⟩
  · refine ⟨_, hmem, ?_⟩
    simp only [Shard.mentions, List.map_cons, List.cons_append] at hm ⊢
    exact List.mem_cons_of_mem _ hm

/-! ## The invariant -/

def WorkItem.isAccepted (it : WorkItem) : Bool :=
  match it.kind with
  | .tcpAccepted => true
  | _ => false

/-- Connections that are still to be registered. -/
def toRegister (st : Plane) : List WorkItem := st.controlQueue.filter WorkItem.isAccepted

/-- Items on their way are about the owner of their socket number, if it has one; the
tables of the server hold open sockets; a connection that is still to be registered is
open and not in the table. -/
structure Inv (st : Plane) : Prop where
  faithful : Faithful (fun s => st.fds[s]?) st.mentions
  registered : ∀ (s : Socket) (c : Nat), st.tcpBySock[s]? = some c → st.fds[s]? = some (.conn c)
  relays : ∀ (s : Socket) (a : RelayAlloc), st.allocByRelaySock[s]? = some a →
    st.fds[s]? = some (.relay a.id)
  accepted : ∀ it ∈ st.toRegister, ∃ id, it.subject = .conn id ∧
    st.fds[it.sock]? = some (.conn id) ∧ st.tcpBySock[it.sock]? = none
  once : (st.toRegister.map (·.sock)).Nodup
  reads : ∀ it ∈ st.callbacks, WorkItem.isAccepted it = false
  right : ∀ h ∈ st.handled, h.Right

/-- Only queues change, and no connection is to be registered that was not before. -/
theorem Inv.queues {st st' : Plane} (h : Inv st) (hfds : st'.fds = st.fds)
    (htcp : st'.tcpBySock = st.tcpBySock) (hrelay : st'.allocByRelaySock = st.allocByRelaySock)
    (hfaithful : Faithful (fun s => st.fds[s]?) st'.mentions)
    (hregister : st'.toRegister.Sublist st.toRegister)
    (hreads : ∀ it ∈ st'.callbacks, WorkItem.isAccepted it = false)
    (hright : ∀ h ∈ st'.handled, h.Right) : Inv st' := by
  refine ⟨?_, ?_, ?_, ?_, ?_, hreads, hright⟩
  · rw [hfds]
    exact hfaithful
  · rw [hfds, htcp]
    exact h.registered
  · rw [hfds, hrelay]
    exact h.relays
  · rw [hfds, htcp]
    exact fun it hit => h.accepted it (hregister.subset hit)
  · exact (hregister.map _).nodup h.once

theorem Inv.handle (h : Inv st) {x : Handled} (hx : x.Right) : Inv (st.handle x) := by
  refine h.queues rfl rfl rfl h.faithful (.refl _) h.reads fun y hy => ?_
  obtain hy | hy := List.mem_append.mp hy
  · exact h.right y hy
  · rw [List.mem_singleton.mp hy]
    exact hx

theorem Inv.enqueueToShard (h : Inv st) {it : WorkItem} (k : Nat)
    (hit : ∀ o, st.fds[it.sock]? = some o → o = it.subject) : Inv (st.enqueueToShard k it) := by
  refine h.queues rfl rfl rfl (fun m hm => ?_) (.refl _) h.reads h.right
  obtain hm | rfl := mentions_enqueueToShard hm
  · exact h.faithful m hm
  · exact hit

theorem Inv.enqueueControl (h : Inv st) {it : WorkItem} (hkind : WorkItem.isAccepted it = false)
    (hit : ∀ o, st.fds[it.sock]? = some o → o = it.subject) : Inv (st.enqueueControl it) := by
  refine h.queues rfl rfl rfl (fun m hm => ?_) ?_ h.reads h.right
  · obtain hm | rfl := mentions_enqueueControl hm
    · exact h.faithful m hm
    · exact hit
  · have hsame : (st.enqueueControl it).toRegister = st.toRegister := by
      simp [toRegister, Plane.enqueueControl, hkind]
    exact hsame ▸ List.Sublist.refl _

theorem not_open (h : ¬ st.fds.contains s = true) : st.fds[s]? = none := by
  rw [TreeMap.getElem?_eq_none]
  rwa [TreeMap.mem_iff_contains]

/-- A number that is not open is in no table. -/
theorem Inv.unregistered (h : Inv st) {s : Socket} (hs : st.fds[s]? = none) :
    st.tcpBySock[s]? = none ∧ st.allocByRelaySock[s]? = none := by
  refine ⟨?_, ?_⟩
  · cases hc : st.tcpBySock[s]? with
    | none => rfl
    | some c => exact absurd (hs.symm.trans (h.registered s c hc)) (by simp)
  · cases ha : st.allocByRelaySock[s]? with
    | none => rfl
    | some a => exact absurd (hs.symm.trans (h.relays s a ha)) (by simp)

theorem mem_mentions_of_toRegister (h : it ∈ st.toRegister) : it.mention ∈ st.mentions :=
  mem_mentions.mpr (.inr (.inl ⟨it, (List.mem_filter.mp h).1, rfl⟩))

/-- A number that nothing names is given to a new owner. -/
theorem Inv.acquire (h : Inv st) {s : Socket} (hs : st.fds[s]? = none)
    (hnew : ∀ m ∈ st.mentions, m.1 ≠ s) (o : Owner) (n : Nat) :
    Inv { st with fds := st.fds.insert s o, nextId := n } := by
  have hun := h.unregistered hs
  refine ⟨h.faithful.acquire hnew fun s' hs' => getElem?_insert_of_ne hs', fun s' c hc => ?_,
    fun s' a ha => ?_, fun it hit => ?_, h.once, h.reads, h.right⟩
  · have hne : s' ≠ s := by
      rintro rfl
      rw [hun.1] at hc
      cases hc
    exact (getElem?_insert_of_ne hne).trans (h.registered s' c hc)
  · have hne : s' ≠ s := by
      rintro rfl
      rw [hun.2] at ha
      cases ha
    exact (getElem?_insert_of_ne hne).trans (h.relays s' a ha)
  · obtain ⟨id, hsub, hfd, htcp⟩ := h.accepted it hit
    have hne : it.sock ≠ s := hnew _ (mem_mentions_of_toRegister hit)
    exact ⟨id, hsub, (getElem?_insert_of_ne hne).trans hfd, htcp⟩

theorem Inv.accept (h : Inv st) {s : Socket}
    (hnew : ∀ m ∈ st.mentions, m.1 ≠ s) : Inv (st.step (.accept s)) := by
  simp only [step]
  split
  · exact h
  · rename_i hc
    have hs := not_open hc
    have ha := h.acquire hs hnew (.conn st.nextId) (st.nextId + 1)
    have hfd : (st.fds.insert s (.conn st.nextId))[s]? = some (.conn st.nextId) :=
      TreeMap.getElem?_insert_self
    have hregister : toRegister ({ st with
        fds := st.fds.insert s (.conn st.nextId)
        nextId := st.nextId + 1 }.enqueueControl ⟨.tcpAccepted, s, .conn st.nextId⟩) =
          st.toRegister ++ [⟨.tcpAccepted, s, .conn st.nextId⟩] := by
      simp [toRegister, Plane.enqueueControl, WorkItem.isAccepted]
    refine ⟨ha.faithful.send hfd fun m hm => mentions_enqueueControl hm, ha.registered, ha.relays,
      fun it hit => ?_, ?_, ha.reads, ha.right⟩
    · rw [hregister] at hit
      obtain hit | hit := List.mem_append.mp hit
      · exact ha.accepted it hit
      · rw [List.mem_singleton.mp hit]
        exact ⟨_, rfl, hfd, (h.unregistered hs).1⟩
    · rw [hregister, List.map_append, List.nodup_append]
      refine ⟨h.once, by simp, fun s' hs' t ht => ?_⟩
      obtain ⟨it, hit, rfl⟩ := List.mem_map.mp hs'
      rw [List.mem_singleton.mp ht]
      exact hnew _ (mem_mentions_of_toRegister hit)

theorem Inv.openRelay (h : Inv st) {s : Socket} (controlSock : Socket)
    (hnew : ∀ m ∈ st.mentions, m.1 ≠ s) : Inv (st.step (.openRelay s controlSock)) := by
  simp only [step]
  split
  · exact h
  · rename_i hc
    have ha := h.acquire (not_open hc) hnew (.relay st.nextId) (st.nextId + 1)
    refine ⟨ha.faithful, ha.registered, fun s' a hs' => ?_, ha.accepted, ha.once, ha.reads,
      ha.right⟩
    obtain ⟨rfl, rfl⟩ | ⟨-, hs'⟩ := getElem?_insert_some hs'
    · exact TreeMap.getElem?_insert_self
    · exact ha.relays s' a hs'

/-- A socket is closed: its number has no owner and is in no table. -/
theorem Inv.release {st st' : Plane} (h : Inv st) {s : Socket} (hfds : st'.fds = st.fds.erase s)
    (htcp : ∀ (s' : Socket) (c : Nat), st'.tcpBySock[s']? = some c → s' ≠ s ∧
      st.tcpBySock[s']? = some c)
    (hrelay : ∀ (s' : Socket) (a : RelayAlloc), st'.allocByRelaySock[s']? = some a →
      s' ≠ s ∧ st.allocByRelaySock[s']? = some a) (hregister : ∀ it ∈ st.toRegister, it.sock ≠ s)
    (hqueue : st'.controlQueue = st.controlQueue) (hmentions : st'.mentions = st.mentions)
    (hreads : st'.callbacks = st.callbacks) (hright : ∀ h ∈ st'.handled, h.Right) : Inv st' := by
  have hnone : ∀ it ∈ st.toRegister, st'.tcpBySock[it.sock]? = none := by
    intro it hit
    obtain ⟨_, -, -, hnone⟩ := h.accepted it hit
    cases hc : st'.tcpBySock[it.sock]? with
    | none => rfl
    | some c => exact absurd (hnone.symm.trans (htcp _ c hc).2) (by simp)
  have hto : st'.toRegister = st.toRegister := by rw [toRegister, hqueue]; rfl
  refine ⟨?_, fun s' c hc => ?_, fun s' a ha => ?_, fun it hit => ?_, ?_, ?_, hright⟩
  · rw [hfds, hmentions]
    exact h.faithful.release fun s' o ho => (getElem?_erase_some ho).2
  · obtain ⟨hne, hc⟩ := htcp s' c hc
    rw [hfds, getElem?_erase_of_ne hne]
    exact h.registered s' c hc
  · obtain ⟨hne, ha⟩ := hrelay s' a ha
    rw [hfds, getElem?_erase_of_ne hne]
    exact h.relays s' a ha
  · rw [hto] at hit
    obtain ⟨id, hsub, hfd, -⟩ := h.accepted it hit
    rw [hfds, getElem?_erase_of_ne (hregister it hit)]
    exact ⟨id, hsub, hfd, hnone it hit⟩
  · rw [hto]
    exact h.once
  · rw [hreads]
    exact h.reads

theorem Inv.destroyRelay (h : Inv st) (s : Socket) : Inv (st.step (.destroyRelay s)) := by
  simp only [step]
  split
  · exact h
  · rename_i a ha
    have hfd := h.relays s a ha
    refine h.release rfl (fun s' c hc => ⟨?_, hc⟩) (fun s' a' ha' => getElem?_erase_some ha')
      (fun it hit => ?_) rfl rfl rfl h.right
    · rintro rfl
      exact absurd (hfd.symm.trans (h.registered _ c hc)) (by simp)
    · rintro rfl
      obtain ⟨id, -, hid, -⟩ := h.accepted it hit
      exact absurd (hfd.symm.trans hid) (by simp)

theorem Inv.read (h : Inv st) (s : Socket) (kind : ItemKind) : Inv (st.step (.read s kind)) := by
  simp only [step]
  split
  · exact h
  · rename_i o ho
    split
    · rename_i hread
      have hkind : WorkItem.isAccepted ⟨kind, s, o⟩ = false := by
        cases kind with
        | tcpAccepted => cases o <;> cases hread
        | _ => rfl
      refine h.queues rfl rfl rfl (h.faithful.send ho fun m hm => ?_) (.refl _) (fun it hit => ?_)
        h.right
      · rw [mem_mentions] at hm ⊢
        obtain ⟨it, hit, rfl⟩ | hm := hm
        · obtain hit | hit := List.mem_append.mp hit
          · exact .inl (.inl ⟨it, hit, rfl⟩)
          · rw [List.mem_singleton.mp hit]
            exact .inr rfl
        · exact .inl (.inr hm)
      · obtain hit | hit := List.mem_append.mp hit
        · exact h.reads it hit
        · rw [List.mem_singleton.mp hit]
          exact hkind
    · exact h

theorem Inv.callback (h : Inv st) (i : Nat) : Inv (st.step (.callback i)) := by
  simp only [step]
  split
  · exact h
  · rename_i it hit
    have hmem := List.mem_of_getElem? hit
    have hkind := h.reads it hmem
    have hmention : it.mention ∈ st.mentions := mem_mentions.mpr (.inl ⟨it, hmem, rfl⟩)
    have hsubject := h.faithful _ hmention
    have h' : Inv { st with callbacks := st.callbacks.eraseIdx i } := by
      refine h.queues rfl rfl rfl (h.faithful.subset fun m hm => ?_) (.refl _)
        (fun it' hit' => h.reads it' (List.mem_of_mem_eraseIdx hit')) h.right
      rw [mem_mentions] at hm ⊢
      exact hm.imp (fun ⟨it', hit', he⟩ => ⟨it', List.mem_of_mem_eraseIdx hit', he⟩) id
    unfold Plane.callback
    split
    · exact h'.enqueueToShard _ hsubject
    · exact h'.enqueueToShard _ hsubject
    · exact h'.enqueueControl hkind hsubject
    · exact h'.enqueueControl hkind hsubject
    · split
      · exact h'
      · rename_i a ha
        split
        · exact h'.handle (h.faithful.deliver hmention (h.relays _ a ha))
        · exact h'.enqueueToShard _ hsubject

/-- The business thread takes its next item. -/
theorem Inv.control (h : Inv st) : Inv (st.step .control) := by
  simp only [step]
  split
  · exact h
  · rename_i it rest hq
    have hmention : it.mention ∈ st.mentions :=
      mem_mentions.mpr (.inr (.inl ⟨it, by rw [hq]; exact List.mem_cons_self, rfl⟩))
    have hrest : (rest.filter WorkItem.isAccepted).Sublist st.toRegister := by
      rw [toRegister, hq]
      exact (List.sublist_cons_self it rest).filter _
    have h' : Inv { st with controlQueue := rest } := by
      refine h.queues rfl rfl rfl (h.faithful.subset fun m hm => ?_) hrest h.reads h.right
      rw [mem_mentions] at hm ⊢
      refine hm.imp id (Or.imp (fun ⟨it', hit', he⟩ => ⟨it', ?_, he⟩) id)
      rw [hq]
      exact List.mem_cons_of_mem it hit'
    unfold processItem
    split
    · rename_i hkind
      have haccepted : WorkItem.isAccepted it = true := by rw [WorkItem.isAccepted, hkind]
      have hto : st.toRegister = it :: rest.filter WorkItem.isAccepted := by
        rw [toRegister, hq, List.filter_cons_of_pos haccepted]
      obtain ⟨id, hsubject, hfd, htcp⟩ := h.accepted it (by rw [hto]; exact List.mem_cons_self)
      rw [hsubject]
      have honce := h.once
      rw [hto, List.map_cons, List.nodup_cons] at honce
      refine ⟨h'.faithful, fun s c hc => ?_, h'.relays, fun it' hit' => ?_, h'.once, h'.reads,
        h'.right⟩
      · obtain ⟨rfl, rfl⟩ | ⟨-, hc⟩ := getElem?_insert_some hc
        · exact hfd
        · exact h.registered s c hc
      · -- no other item registers this socket
        have hne : it'.sock ≠ it.sock := fun he =>
          honce.1 (he ▸ List.mem_map_of_mem hit')
        obtain ⟨id', hsubject', hfd', htcp'⟩ := h'.accepted it' hit'
        exact ⟨id', hsubject', hfd', (getElem?_insert_of_ne hne).trans htcp'⟩
    · split
      · exact h'
      · rename_i c hc
        have hfd := h.registered _ c hc
        have hclosed : Inv { st with
            controlQueue := rest
            tcpBySock := st.tcpBySock.erase it.sock
            fds := st.fds.erase it.sock } := by
          refine h'.release rfl (fun s' c' hc' => getElem?_erase_some hc') (fun s' a ha => ⟨?_, ha⟩)
            (fun it' hit' he => ?_) rfl rfl rfl h'.right
          · rintro rfl
            exact absurd (hfd.symm.trans (h.relays _ a ha)) (by simp)
          · obtain ⟨-, -, -, hnone⟩ := h'.accepted it' hit'
            rw [he] at hnone
            exact absurd (hnone.symm.trans hc) (by simp)
        exact hclosed.handle (x := .closed it.subject c) (h.faithful.deliver hmention hfd)
    · exact h'

/-- A shard takes its next item. -/
theorem Inv.shard (h : Inv st) (k : Nat) : Inv (st.step (.shard k)) := by
  simp only [step]
  split
  · rename_i it rest hk
    have hmention : it.mention ∈ st.mentions := by
      refine mem_mentions.mpr (.inr (.inr ⟨_, List.mem_of_getElem? hk, ?_⟩))
      exact List.mem_append_left _ (List.mem_map_of_mem List.mem_cons_self)
    have h' : Inv { st with shards := st.shards.set k ⟨rest, none⟩ } :=
      h.queues rfl rfl rfl (h.faithful.subset fun m hm => mentions_pop hk hm) (.refl _) h.reads
        h.right
    have hwork (c : Nat) (hc : st.tcpBySock[it.sock]? = some c) :
        Inv ({ st with shards := st.shards.set k ⟨rest, none⟩ }.workOn k (some (it.sock, c))) :=
      h'.queues rfl rfl rfl (h'.faithful.send (h.registered _ c hc) fun m hm => mentions_workOn hm)
        (.refl _) h.reads h.right
    unfold processShardItem
    split
    · split
      · exact h'
      · rename_i c hc
        exact (hwork c hc).handle (h.faithful.deliver hmention (h.registered _ c hc))
    · split
      · exact h'
      · rename_i c hc
        exact hwork c hc
    · split
      · exact h'
      · rename_i a ha
        exact h'.handle (h.faithful.deliver hmention (h.relays _ a ha))
    · exact h'
  · exact h

theorem Inv.enqueueCloseConn (h : Inv st) (k : Nat) : Inv (st.step (.enqueueCloseConn k)) := by
  simp only [step]
  split
  · rename_i queue s c hk
    have hmention : (s, .conn c) ∈ st.mentions := by
      refine mem_mentions.mpr (.inr (.inr ⟨_, List.mem_of_getElem? hk, ?_⟩))
      exact List.mem_append_right _ List.mem_cons_self
    exact h.enqueueControl rfl (h.faithful _ hmention)
  · exact h

theorem Inv.step (h : Inv st) {e : Event} (he : st.unnamed e = true) : Inv (st.step e) := by
  cases e with
  | accept s => exact h.accept fun m hm => by simpa using List.all_eq_true.mp he m hm
  | openRelay s controlSock =>
    exact h.openRelay controlSock fun m hm => by simpa using List.all_eq_true.mp he m hm
  | destroyRelay s => exact h.destroyRelay s
  | read s kind => exact h.read s kind
  | callback i => exact h.callback i
  | control => exact h.control
  | shard k => exact h.shard k
  | enqueueCloseConn k => exact h.enqueueCloseConn k
  | shardDone k =>
    exact h.queues rfl rfl rfl (h.faithful.subset fun m hm => mentions_shardDone hm) (.refl _)
      h.reads h.right

theorem inv_start (shardCount : Nat) : Inv (start shardCount) := by
  have hnone : (start shardCount).mentions = [] := by
    simp [mentions, start, Shard.mentions]
  refine ⟨?_, fun s c hc => ?_, fun s a ha => ?_, (fun _ h => nomatch h), List.nodup_nil,
    (fun _ h => nomatch h), fun _ h => nomatch h⟩
  · rw [hnone]
    exact .nil _
  · simp [start] at hc
  · simp [start] at ha

/-! ## Runs -/

/-- The states of all interleavings whose steps meet the condition. -/
abbrev Runs (ok : Plane → Event → Prop) : Plane → Prop :=
  Reach (fun st => ∃ shardCount, st = start shardCount) (Guarded ok step)

/-- As long as no socket number is handed out that something on its way still names,
everything goes to the connection or allocation it is about. -/
theorem events_reach_their_subject {st : Plane}
    (h : Runs (fun st e => st.unnamed e = true) st) : ∀ x ∈ st.handled, x.Right := by
  refine (Reach.invariant (P := Inv) ?_ ?_ h).right
  · rintro _ ⟨shardCount, rfl⟩
    exact inv_start shardCount
  · rintro st e _ hst ⟨he, rfl⟩
    exact hst.step he

/-- The socket number is used for a second connection after all about the first one is
done. -/
theorem events_reach_their_subject_reuse :
    ∃ st, checkedRun unnamed step (start 1)
        [.accept 5, .control, .read 5 (.tcpConnData [1]), .callback 0, .shard 0, .shardDone 0,
          .read 5 .tcpConnClosed, .callback 0, .control, .accept 5, .control,
          .read 5 (.tcpConnData [2]), .callback 0, .shard 0] = some st ∧
      st.handled = [.fed (.conn 0) 0 [1], .closed (.conn 0) 0, .fed (.conn 1) 1 [2]] ∧
      ∀ x ∈ st.handled, x.Right := by
  have hrun : (checkedRun unnamed step (start 1)
      [.accept 5, .control, .read 5 (.tcpConnData [1]), .callback 0, .shard 0, .shardDone 0,
        .read 5 .tcpConnClosed, .callback 0, .control, .accept 5, .control,
        .read 5 (.tcpConnData [2]), .callback 0, .shard 0]).map (·.handled) =
          some [.fed (.conn 0) 0 [1], .closed (.conn 0) 0, .fed (.conn 1) 1 [2]] := by
    decide +kernel
  obtain ⟨st, hst, hhandled⟩ := Option.map_eq_some_iff.mp hrun
  exact ⟨st, hst, hhandled, events_reach_their_subject
    (Reach.of_checkedRun _ (fun _ _ h => h) (.start ⟨1, rfl⟩) hst)⟩

def somePeer : AddrRecord := ⟨.v4 192 168 0 9, 6000, .dgram⟩

/-- A shard works for the first connection on socket 5, and another chunk of it is
queued, when the business thread closes it and the number goes to a second one. The
chunk is fed to the second connection, and the close the shard asks for closes it. Then
a relay socket is closed and opened again with a datagram of the first one queued. -/
theorem events_of_another :
    ∃ st, Runs (fun _ _ => True) st ∧ .fed (.conn 0) 1 [2] ∈ st.handled ∧
      .closed (.conn 0) 1 ∈ st.handled ∧
      .forwarded (.relay 2) 3 [3] somePeer ∈ st.handled := by
  let events : List Event :=
    [.accept 5, .control, .read 5 (.tcpConnData [1]), .callback 0, .shard 0,
      .read 5 (.tcpConnData [2]), .callback 0, .read 5 .tcpConnClosed, .callback 0, .control,
      .accept 5, .control, .enqueueCloseConn 0, .shardDone 0, .shard 0, .control, .shardDone 0,
      .openRelay 7 6, .read 7 (.relayData [3] somePeer), .callback 0, .destroyRelay 7,
      .openRelay 7 6, .shard 0]
  have hrun : (checkedRun (fun _ _ => true) step (start 1) events).map (·.handled) =
      some [.fed (.conn 0) 0 [1], .closed (.conn 0) 0, .fed (.conn 0) 1 [2], .closed (.conn 0) 1,
        .forwarded (.relay 2) 3 [3] somePeer] := by
    decide +kernel
  obtain ⟨st, hst, hhandled⟩ := Option.map_eq_some_iff.mp hrun
  refine ⟨st, Reach.of_checkedRun _ (fun _ _ _ => trivial) (.start ⟨1, rfl⟩) hst, ?_⟩
  rw [hhandled]
  decide

end Plane
end Stice.Server
