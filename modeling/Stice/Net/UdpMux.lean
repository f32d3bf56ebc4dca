import Stice.Net.Addr
import Stice.Stun.Attributes
import Stice.Lib.Reach

/-! The UDP socket that agents share (`net/udp_mux.cpp`) and what the agents do with it. An entry
of the mux is known by its place in the list of all entries ever made. -/
namespace Stice.Net.UdpMux
open Stun

variable {m : List (Bytes × Nat)} (addrKey : AddrRecord → Bytes) {s : Shared}

/-- The registration of an agent; its callbacks are known by the agent's number. -/
structure MuxAgentEntry where
  agent : Nat
  ufrag : Bytes
  remoteAddressKeys : List Bytes
  deriving DecidableEq, Repr

structure MuxAgent where
  iceUfrag : Bytes
  muxRegistered : Bool := false
  destroyed : Bool := false
  deriving DecidableEq, Repr

/-- The mux with its agents. -/
structure Shared where
  boundPort : Option UInt16
  agents : List MuxAgent
  entries : List MuxAgentEntry := []
  agentsByUfrag : List (Bytes × Nat) := []
  agentsByAddr : List (Bytes × Nat) := []
  deriving DecidableEq, Repr

def lookupKey (m : List (Bytes × Nat)) (k : Bytes) : Option Nat := (m.find? (·.1 = k)).map (·.2)

def assignKey (m : List (Bytes × Nat)) (k : Bytes) (e : Nat) : List (Bytes × Nat) :=
  m.filter (·.1 ≠ k) ++ [(k, e)]

def registerAgent (s : Shared) (ufrag : Bytes) (agent : Nat) : Shared :=
  { s with
    entries := s.entries ++ [⟨agent, ufrag, []⟩]
    agentsByUfrag := assignKey s.agentsByUfrag ufrag s.entries.length }

def keysOf (s : Shared) (e : Nat) : List Bytes := (s.entries[e]?.map (·.remoteAddressKeys)).getD []

def removeAgent (s : Shared) (ufrag : Bytes) : Shared :=
  match lookupKey s.agentsByUfrag ufrag with
  | none => s
  | some e => { s with
      agentsByAddr := s.agentsByAddr.filter fun p => ¬ (p.1 ∈ keysOf s e ∧ p.2 = e)
      agentsByUfrag := s.agentsByUfrag.filter (·.1 ≠ ufrag) }

/-- `key` is mapped to the entry and added to its keys; `once` looks whether it is there. -/
def link (s : Shared) (key : Bytes) (e : Nat) (once : Bool) : Shared :=
  { s with
    agentsByAddr := assignKey s.agentsByAddr key e
    entries := s.entries.modify e fun en =>
      if once ∧ key ∈ en.remoteAddressKeys then en
      else { en with remoteAddressKeys := en.remoteAddressKeys ++ [key] } }

def linkNew (s : Shared) (key : Bytes) (e : Nat) : Shared :=
  if lookupKey s.agentsByAddr key = none then link s key e false else s

section
variable (addrKey : AddrRecord → Bytes)

def sendto (s : Shared) (dst : AddrRecord) (ufrag : Bytes) : Shared :=
  match lookupKey s.agentsByUfrag ufrag with
  | none => s
  | some e =>
    if s.boundPort = some dst.port then link s (addrKey dst) e true
    else linkNew s (addrKey dst) e

/-- The USERNAME of a message, if it has one that is not empty. -/
def usernameOf (buf : Bytes) : Option Bytes :=
  (decode buf).bind fun m =>
    let username := getString m .username
    if username = [] then none else some username

/-- `routePacket`, with the entries whose `onPacket` it calls. -/
def routePacket (s : Shared) (buf : Bytes) (src : AddrRecord) : Shared × List Nat :=
  if isMessage buf then
    match usernameOf buf with
    | some username =>
      match lookupKey s.agentsByUfrag (username.takeWhile (· ≠ 58)) with
      | some e => (linkNew s (addrKey src) e, [e])
      | none => (s, [])
    | none => (s, s.agentsByUfrag.map (·.2))
  else if s.boundPort = some src.port then
    let sender := lookupKey s.agentsByAddr (addrKey src)
    (s, (s.agentsByUfrag.map (·.2)).filter (some · ≠ sender))
  else (s, (lookupKey s.agentsByAddr (addrKey src)).toList)

/-- A ufrag that `setLocalIceAttributes` takes. -/
def isValidUfrag (ufrag : Bytes) : Bool :=
  4 ≤ ufrag.length ∧ ufrag.length ≤ 256 ∧ ufrag.all fun c =>
    48 ≤ c ∧ c ≤ 57 ∨ 65 ≤ c ∧ c ≤ 90 ∨ 97 ≤ c ∧ c ≤ 122 ∨ c = 43 ∨ c = 47

inductive Event
  | setLocalIceAttributes (a : Nat) (ufrag : Bytes)
  | registerWithMux (a : Nat)
  | sendUdp (a : Nat) (dst : AddrRecord)
  | routePacket (buf : Bytes) (src : AddrRecord)
  | destroy (a : Nat)

/-- The agent, as long as it is there. -/
def living (s : Shared) (a : Nat) : Option MuxAgent := s.agents[a]?.filter (!·.destroyed)

def step (s : Shared) : Event → Shared
  | .setLocalIceAttributes a ufrag =>
    if (living s a).isSome ∧ isValidUfrag ufrag then
      { s with agents := s.agents.modify a ({ · with iceUfrag := ufrag }) }
    else s
  | .registerWithMux a =>
    match living s a with
    | none => s
    | some ag =>
      if ag.muxRegistered then s
      else registerAgent { s with agents := s.agents.modify a ({ · with muxRegistered := true }) }
        ag.iceUfrag a
  | .sendUdp a dst =>
    match living s a with
    | none => s
    | some ag => sendto addrKey s dst ag.iceUfrag
  | .routePacket buf src => (routePacket addrKey s buf src).1
  | .destroy a =>
    match living s a with
    | none => s
    | some ag =>
      let s := if ag.muxRegistered then removeAgent s ag.iceUfrag else s
      { s with agents := s.agents.modify a ({ · with destroyed := true }) }

end

/-- No ufrag is registered twice, and none is changed while it is registered. -/
def Steady (s : Shared) : Event → Prop
  | .setLocalIceAttributes a ufrag => ∀ ag, living s a = some ag →
      ag.muxRegistered → ufrag = ag.iceUfrag
  | .registerWithMux a => ∀ ag, living s a = some ag → ¬ ag.muxRegistered →
      lookupKey s.agentsByUfrag ag.iceUfrag = none
  | _ => True

theorem mem_of_lookupKey {k : Bytes} {e : Nat} (h : lookupKey m k = some e) : (k, e) ∈ m := by
  obtain ⟨p, hp, rfl⟩ := Option.map_eq_some_iff.mp h
  have hkey : p.1 = k := by simpa using List.find?_some hp
  rw [← hkey]
  exact List.mem_of_find?_eq_some hp

theorem not_mem_of_lookupKey {k : Bytes} (h : lookupKey m k = none) (e : Nat) : (k, e) ∉ m := by
  intro hmem
  have := List.find?_eq_none.mp (Option.map_eq_none_iff.mp h) (k, e) hmem
  exact this (decide_eq_true rfl)

theorem mem_assignKey {k k' : Bytes} {e e' : Nat} :
    (k', e') ∈ assignKey m k e ↔ k' = k ∧ e' = e ∨ k' ≠ k ∧ (k', e') ∈ m := by
  simp only [assignKey, List.mem_append, List.mem_filter, List.mem_singleton, Prod.mk.injEq,
    decide_eq_true_eq]
  tauto

/-- A living agent that is registered under `u`. -/
def MuxAgent.Behind (ag : MuxAgent) (u : Bytes) : Prop :=
  ag.muxRegistered ∧ ¬ ag.destroyed ∧ ag.iceUfrag = u

/-- The entry under a ufrag is that of a living agent with that ufrag, each ufrag has one entry,
and what the addresses lead to are such entries. -/
structure Sound (s : Shared) : Prop where
  named : ∀ u e, (u, e) ∈ s.agentsByUfrag → ∃ en ag, s.entries[e]? = some en ∧
    s.agents[en.agent]? = some ag ∧ ag.Behind u
  single : ∀ u e e', (u, e) ∈ s.agentsByUfrag → (u, e') ∈ s.agentsByUfrag → e = e'
  listed : ∀ k e, (k, e) ∈ s.agentsByAddr → (∃ u, (u, e) ∈ s.agentsByUfrag) ∧
    ∃ en, s.entries[e]? = some en ∧ k ∈ en.remoteAddressKeys

theorem link_entry {key : Bytes} {e e' : Nat} {once : Bool} {en : MuxAgentEntry}
    (h : s.entries[e']? = some en) : ∃ en', (link s key e once).entries[e']? = some en' ∧
      en'.agent = en.agent ∧ (∀ k ∈ en.remoteAddressKeys, k ∈ en'.remoteAddressKeys) ∧
      (e' = e → key ∈ en'.remoteAddressKeys) := by
  rw [link, List.getElem?_modify, h]
  refine ⟨_, rfl, ?_⟩
  by_cases he : e = e'
  · simp only [he, if_true]
    split
    · rename_i hthere
      exact ⟨rfl, fun _ hk => hk, fun _ => hthere.2⟩
    · exact ⟨rfl, fun _ hk => List.mem_append_left _ hk, fun _ => by simp⟩
  · simp only [if_neg he]
    exact ⟨trivial, fun _ hk => hk, fun h => absurd h.symm he⟩

/-- An address is given to an entry that is registered. -/
theorem Sound.link (h : Sound s) {u : Bytes} {e : Nat}
    (he : (u, e) ∈ s.agentsByUfrag) (key : Bytes) (once : Bool) : Sound (link s key e once) := by
  refine ⟨?_, h.single, ?_⟩
  · intro u' e' he'
    obtain ⟨en, ag, hen, hag⟩ := h.named u' e' he'
    obtain ⟨en', hen', hagent, -⟩ := link_entry hen
    exact ⟨en', ag, hen', hagent ▸ hag⟩
  · intro k e' hk
    rcases mem_assignKey.mp hk with ⟨rfl, rfl⟩ | ⟨-, hold⟩
    · obtain ⟨en, -, hen, -⟩ := h.named u e' he
      obtain ⟨en', hen', -, -, hkey⟩ := link_entry hen
      exact ⟨⟨u, he⟩, en', hen', hkey rfl⟩
    · obtain ⟨hu, en, hen, hin⟩ := h.listed k e' hold
      obtain ⟨en', hen', -, hkeys, -⟩ := link_entry hen
      exact ⟨hu, en', hen', hkeys k hin⟩

theorem Sound.linkNew (h : Sound s) {u : Bytes} {e : Nat}
    (he : (u, e) ∈ s.agentsByUfrag) (key : Bytes) : Sound (linkNew s key e) := by
  unfold UdpMux.linkNew
  split
  · exact h.link he key false
  · exact h

theorem removeAgent_agents (s : Shared) (ufrag : Bytes) :
    (removeAgent s ufrag).agents = s.agents := by
  unfold removeAgent
  split <;> rfl

theorem Sound.removeAgent (h : Sound s) (ufrag : Bytes) :
    Sound (removeAgent s ufrag) ∧ ∀ e, (ufrag, e) ∉ (removeAgent s ufrag).agentsByUfrag := by
  unfold UdpMux.removeAgent
  split
  · rename_i hnone
    exact ⟨h, not_mem_of_lookupKey hnone⟩
  · rename_i e he
    have he := mem_of_lookupKey he
    refine ⟨⟨?_, ?_, ?_⟩, ?_⟩
    · intro u e' hu
      exact h.named u e' (List.mem_of_mem_filter hu)
    · intro u e₁ e₂ h₁ h₂
      exact h.single u e₁ e₂ (List.mem_of_mem_filter h₁) (List.mem_of_mem_filter h₂)
    · intro k e' hk
      obtain ⟨hk, hkeep⟩ := List.mem_filter.mp hk
      obtain ⟨⟨u, hu⟩, en, hen, hin⟩ := h.listed k e' hk
      refine ⟨⟨u, List.mem_filter.mpr ⟨hu, ?_⟩⟩, en, hen, hin⟩
      -- under the ufrag itself there is `e` alone, which has given up its addresses
      refine decide_eq_true ?_
      rintro rfl
      cases h.single u e e' he hu
      exact of_decide_eq_true hkeep ⟨by rw [keysOf, hen]; exact hin, rfl⟩
    · intro e' he'
      exact of_decide_eq_true (List.mem_filter.mp he').2 rfl

/-- An agent may change as long as it stays behind its entry. -/
theorem Sound.modify (h : Sound s) (a : Nat) (f : MuxAgent → MuxAgent)
    (hf : ∀ ag u e, s.agents[a]? = some ag → (u, e) ∈ s.agentsByUfrag → ag.Behind u →
      (f ag).Behind u) : Sound { s with agents := s.agents.modify a f } := by
  refine ⟨?_, h.single, h.listed⟩
  intro u e he
  obtain ⟨en, ag, hen, hag, hbehind⟩ := h.named u e he
  by_cases ha : a = en.agent
  · subst ha
    exact ⟨en, f ag, hen, by simp [hag], hf ag u e hag he hbehind⟩
  · exact ⟨en, ag, hen, by simpa [ha] using hag, hbehind⟩

theorem living_eq {a : Nat} {ag : MuxAgent} (h : living s a = some ag) :
    s.agents[a]? = some ag ∧ ¬ ag.destroyed := by
  obtain ⟨hag, hlive⟩ := Option.filter_eq_some_iff.mp h
  exact ⟨hag, by simpa using hlive⟩

theorem Sound.step (h : Sound s) (i : Event) (hok : Steady s i) : Sound (step addrKey s i) := by
  cases i with
  | setLocalIceAttributes a ufrag =>
    simp only [UdpMux.step]
    split
    · refine h.modify a _ ?_
      intro ag u e hag _ hbehind
      have hsame : ufrag = ag.iceUfrag := by
        refine hok ag ?_ hbehind.1
        rw [living, hag]
        simp [hbehind.2.1]
      exact ⟨hbehind.1, hbehind.2.1, hsame.trans hbehind.2.2⟩
    · exact h
  | registerWithMux a =>
    simp only [UdpMux.step]
    split
    · exact h
    · rename_i ag hag
      split
      · exact h
      · rename_i hnew
        have hfree := not_mem_of_lookupKey (hok ag hag hnew)
        obtain ⟨hag, hlive⟩ := living_eq hag
        have hagents := h.modify a ({ · with muxRegistered := true })
          fun _ _ _ _ _ hbehind => ⟨rfl, hbehind.2⟩
        refine ⟨?_, ?_, ?_⟩
        · intro u e he
          rcases mem_assignKey.mp he with ⟨rfl, rfl⟩ | ⟨-, hold⟩
          · refine ⟨⟨a, ag.iceUfrag, []⟩, { ag with muxRegistered := true }, ?_, ?_, rfl, hlive,
              rfl⟩
            · simp [registerAgent]
            · simp [registerAgent, hag]
          · obtain ⟨en, ag, hen, hag⟩ := hagents.named u e hold
            exact ⟨en, ag, by rw [registerAgent, List.getElem?_append_left
              (List.getElem?_eq_some_iff.mp hen).1]; exact hen, hag⟩
        · intro u e₁ e₂ h₁ h₂
          rcases mem_assignKey.mp h₁ with ⟨rfl, rfl⟩ | ⟨hne, h₁⟩
          · rcases mem_assignKey.mp h₂ with ⟨-, rfl⟩ | ⟨hne, -⟩
            · rfl
            · exact absurd rfl hne
          · rcases mem_assignKey.mp h₂ with ⟨rfl, -⟩ | ⟨-, h₂⟩
            · exact absurd rfl hne
            · exact h.single u e₁ e₂ h₁ h₂
        · intro k e hk
          obtain ⟨⟨u, hu⟩, en, hen, hin⟩ := h.listed k e hk
          refine ⟨⟨u, mem_assignKey.mpr (.inr ⟨?_, hu⟩)⟩, en, ?_, hin⟩
          · rintro rfl
            exact hfree e hu
          · rw [registerAgent, List.getElem?_append_left (List.getElem?_eq_some_iff.mp hen).1]
            exact hen
  | sendUdp a dst =>
    simp only [UdpMux.step, sendto]
    split
    · exact h
    · split
      · exact h
      · rename_i e he
        split
        · exact h.link (mem_of_lookupKey he) _ true
        · exact h.linkNew (mem_of_lookupKey he) _
  | routePacket buf src =>
    simp only [UdpMux.step, UdpMux.routePacket]
    split
    · split
      · split
        · rename_i e he
          exact h.linkNew (mem_of_lookupKey he) _
        · exact h
      · exact h
    · split <;> exact h
  | destroy a =>
    simp only [UdpMux.step]
    split
    · exact h
    · rename_i ag hag
      obtain ⟨hag, hlive⟩ := living_eq hag
      split
      · obtain ⟨hsound, hgone⟩ := h.removeAgent ag.iceUfrag
        refine hsound.modify a _ ?_
        intro ag' u e hag' he hbehind
        have hsame : ag' = ag := by
          rw [removeAgent_agents, hag] at hag'
          exact (Option.some.inj hag').symm
        subst hsame
        exact absurd (hbehind.2.2 ▸ he) (hgone e)
      · rename_i hnot
        refine h.modify a _ ?_
        intro ag' u e hag' _ hbehind
        rw [hag] at hag'
        cases hag'
        exact absurd hbehind.1 hnot

/-- What the mux calls for a packet is registered. -/
theorem routePacket_calls (h : Sound s) {buf : Bytes} {src : AddrRecord} {e : Nat}
    (he : e ∈ (routePacket addrKey s buf src).2) : ∃ u, (u, e) ∈ s.agentsByUfrag := by
  have hall : ∀ e ∈ s.agentsByUfrag.map (·.2), ∃ u, (u, e) ∈ s.agentsByUfrag := by
    intro e he
    obtain ⟨p, hp, rfl⟩ := List.mem_map.mp he
    exact ⟨p.1, hp⟩
  unfold routePacket at he
  split at he
  · split at he
    · split at he
      · rename_i hu
        cases List.mem_singleton.mp he
        exact ⟨_, mem_of_lookupKey hu⟩
      · cases he
    · exact hall e he
  · split at he
    · exact hall e (List.mem_of_mem_filter he)
    · exact (h.listed _ e (mem_of_lookupKey (Option.mem_toList.mp he))).1

/-- The mux before any agent is registered. -/
def Fresh (s : Shared) : Prop := ∃ boundPort agents, s = { boundPort, agents }

/-- The addresses lead to registered entries, and no packet calls an agent that is gone. -/
theorem mux_tables_consistent (addrKey : AddrRecord → Bytes) {s : Shared}
    (h : Lib.Reach Fresh (Lib.Guarded Steady (step addrKey)) s) :
    (∀ k e, (k, e) ∈ s.agentsByAddr → ∃ u, (u, e) ∈ s.agentsByUfrag) ∧
    ∀ buf src e, e ∈ (routePacket addrKey s buf src).2 →
      ∃ en ag, s.entries[e]? = some en ∧ s.agents[en.agent]? = some ag ∧ ¬ ag.destroyed := by
  have hsound : Sound s := by
    refine h.invariant ?_ ?_
    · rintro _ ⟨boundPort, agents, rfl⟩
      exact ⟨fun _ _ he => absurd he List.not_mem_nil, fun _ _ _ he => absurd he List.not_mem_nil,
        fun _ _ he => absurd he List.not_mem_nil⟩
    · rintro s i _ hs ⟨hok, rfl⟩
      exact hs.step addrKey i hok
  refine ⟨fun k e hk => (hsound.listed k e hk).1, ?_⟩
  intro buf src e he
  obtain ⟨u, hu⟩ := routePacket_calls addrKey hsound he
  obtain ⟨en, ag, hen, hag, hbehind⟩ := hsound.named u e hu
  exact ⟨en, ag, hen, hag, hbehind.2.1⟩

/-- Two agents with one ufrag, and a peer. -/
def twins : Shared := { boundPort := none, agents := [⟨ascii "aaaa", false, false⟩,
  ⟨ascii "aaaa", false, false⟩] }

def peer : AddrRecord := ⟨.v4 10 0 0 1, 5000, .dgram⟩

/-- The run of `twins` over `l`, with the port as key. -/
def runTwins (l : List Event) : Shared := l.foldl (step fun a => be16 a.port) twins

theorem mux_tables_consistent_sent :
    ∃ u, (u, 0) ∈ (runTwins [.registerWithMux 0, .sendUdp 0 peer]).agentsByUfrag := by
  have hreach : Lib.Reach Fresh (Lib.Guarded Steady (step fun a => be16 a.port))
      (runTwins [.registerWithMux 0, .sendUdp 0 peer]) :=
    .next (.sendUdp 0 peer) (.next (.registerWithMux 0) (.start ⟨none, twins.agents, rfl⟩)
      ⟨fun _ _ _ => rfl, rfl⟩) ⟨trivial, rfl⟩
  exact (mux_tables_consistent _ hreach).1 (be16 5000) 0 (by decide +kernel)

/-- A STUN indication without USERNAME. -/
def indication : Bytes := [0, 17, 0, 0, 0x21, 0x12, 0xA4, 0x42] ++ List.replicate 12 0

/-- A ufrag registered again leaves the address with the old entry. -/
def registeredAgain : Shared :=
  runTwins [.registerWithMux 0, .sendUdp 0 peer, .registerWithMux 1]

/-- An agent that has changed its ufrag leaves its entry behind. -/
def leftBehind : Shared :=
  runTwins [.registerWithMux 0, .setLocalIceAttributes 0 (ascii "bbbb"), .destroy 0]

theorem mux_tables_stale :
    registeredAgain.agentsByAddr = [(be16 5000, 0)] ∧
    registeredAgain.agentsByUfrag = [(ascii "aaaa", 1)] ∧
    (routePacket (fun a => be16 a.port) leftBehind indication peer).2 = [0] ∧
    leftBehind.entries[0]?.map (·.agent) = some 0 ∧
    leftBehind.agents[0]?.map (·.destroyed) = some true := by
  decide +kernel

end Stice.Net.UdpMux
