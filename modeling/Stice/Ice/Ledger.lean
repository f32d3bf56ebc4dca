import Stice.Ice.Transactions

/-! The ids of Binding requests. An entry keeps its id until it is armed again, and consent
requests are sent from entries that have just been armed; so two requests with one id are of
the same entry, with no arming in between, and neither is for consent. -/
namespace Stice.Ice
open Lib Net Stun

/-- The next request of an entry has the id of the last one. -/
def StunEntry.keepsId (e : StunEntry) : Prop :=
  e.transactionIdExpired = false ∨ e.type = .server

/-- An entry that is kept alive draws an id for its next request. -/
def StunEntry.Renews (e : StunEntry) : Prop :=
  e.state = .succeededKeepalive → e.transactionIdExpired = true

/-- An entry later on, as long as nothing is sent for it. -/
structure Later (e d : StunEntry) : Prop where
  type : d.type = e.type
  serial : d.serial = e.serial
  id : d.transactionID = e.transactionID
  arms : d.keepsId → e.keepsId ∧ d.arms = e.arms
  renews : e.Renews → d.Renews

theorem Later.refl (e : StunEntry) : Later e e := ⟨rfl, rfl, rfl, fun h => ⟨h, rfl⟩, fun h => h⟩

theorem SameEntry.later {e d : StunEntry} (h : SameEntry e d) : Later e d where
  type := h.type
  serial := h.serial
  id := h.transactionID
  arms hd := by
    unfold StunEntry.keepsId at hd ⊢
    rw [h.transactionIdExpired, h.type] at hd
    exact ⟨hd, h.arms⟩
  renews he := by
    unfold StunEntry.Renews at he ⊢
    rw [h.state, h.transactionIdExpired]
    exact he

/-- An entry that is armed keeps no id. -/
theorem Later.of_armed {e d : StunEntry} (htype : d.type = e.type) (he : e.type ≠ .server)
    (hserial : d.serial = e.serial) (hid : d.transactionID = e.transactionID)
    (hexpired : d.transactionIdExpired = true) : Later e d where
  type := htype
  serial := hserial
  id := hid
  arms hd := by
    rcases hd with hd | hd
    · rw [hexpired] at hd
      cases hd
    · exact absurd (htype.symm.trans hd) he
  renews _ _ := hexpired

/-- An entry leaves the state it was in, but not for one of consent. -/
theorem Later.of_state {e : StunEntry} {s : StunEntryState} (hs : s ≠ .succeededKeepalive) :
    Later e { e with state := s } :=
  ⟨rfl, rfl, rfl, fun h => ⟨h, rfl⟩, fun _ h => absurd h hs⟩

/-- Two requests with one id are for one entry that was not armed in between, and not for
consent. -/
def Sent.Apart (s t : Sent) : Prop :=
  s.id = t.id → s.serial = t.serial ∧ s.arms = t.arms ∧ s.consent = false ∧ t.consent = false

/-- A request that the next one of an entry may repeat. -/
def Sent.Of (e : StunEntry) (s : Sent) : Prop :=
  s.serial = e.serial ∧ s.arms = e.arms ∧ s.consent = false

namespace Agent

variable {env : AgentEnv} {a b : Agent}
variable {j : Nat} {e : StunEntry}

def serials (a : Agent) : List Nat := a.entries.map (·.serial)

/-- What a move does to the entries and their numbers, if it sends nothing. -/
structure Tallies (a b : Agent) : Prop where
  sent : b.tally.sent = a.tally.sent
  entries : ∀ d ∈ b.entries, (∃ e ∈ a.entries, Later e d) ∨
    d.transactionIdExpired = true ∧ d.type ≠ .server
  numbers : b.serials.Sublist a.serials ∧ b.tally.created = a.tally.created ∨
    b.serials = a.serials ++ [a.tally.created] ∧ b.tally.created = a.tally.created + 1

theorem Tallies.of_entries (htally : b.tally = a.tally) (h : b.entries = a.entries) :
    Tallies a b where
  sent := by rw [htally]
  entries d hd := .inl ⟨d, by rwa [h] at hd, .refl d⟩
  numbers := .inl ⟨by unfold serials; rw [h], by rw [htally]⟩

theorem Tallies.of_frame (h : Frame a b) : Tallies a b := .of_entries h.tally h.entries

theorem Tallies.modify {f : StunEntry → StunEntry} (htally : b.tally = a.tally)
    (h : b.entries = a.entries.modify j f) (hserial : ∀ e, (f e).serial = e.serial)
    (hf : ∀ e, a.entries[j]? = some e → Later e (f e)) : Tallies a b where
  sent := by rw [htally]
  entries := by
    rw [h]
    refine forall_mem_modify (fun e he => .inl ⟨e, he, .refl e⟩) fun e he => ?_
    exact .inl ⟨e, List.mem_of_getElem? he, hf e he⟩
  numbers := by
    left
    unfold serials
    rw [h, map_modify_eq hserial j, htally]
    exact ⟨.refl _, rfl⟩

theorem Tallies.map {f : StunEntry → StunEntry} (htally : b.tally = a.tally)
    (h : b.entries = a.entries.map f) (hf : ∀ e, Later e (f e)) : Tallies a b where
  sent := by rw [htally]
  entries d hd := by
    rw [h] at hd
    obtain ⟨e, he, rfl⟩ := List.mem_map.mp hd
    exact .inl ⟨e, he, hf e⟩
  numbers := by
    left
    unfold serials
    rw [h, List.map_map, htally]
    have hsame : a.entries.map ((·.serial) ∘ f) = a.entries.map (·.serial) :=
      List.map_congr_left fun e _ => (hf e).serial
    rw [hsame]
    exact ⟨.refl _, rfl⟩

theorem Tallies.push {d : StunEntry} (hexpired : d.transactionIdExpired = true)
    (htype : d.type ≠ .server) : Tallies a (a.pushEntry d) where
  sent := rfl
  entries := forall_mem_concat (fun e he => .inl ⟨e, he, .refl e⟩) (.inr ⟨hexpired, htype⟩)
  numbers := .inr ⟨List.map_append, rfl⟩

theorem armTransmission_later (he : e.type ≠ .server) (delay : Int) :
    Later e (a.armTransmission env delay e) := .of_armed rfl he rfl rfl rfl

theorem setPairState_tally (a : Agent) (i : Option Nat) (s : PairState) :
    (a.setPairState i s).tally = a.tally := by
  cases i <;> rfl

theorem Move.tallies {k : Kind} (h : Move env a k b) (hk : k.unsent = true) (hc : Checks a) :
    Tallies a b := by
  cases h with
  | send | resend | pushServer => exact absurd hk (by decide)
  | setup h => exact .of_entries h.tally h.entries
  | gather =>
    have hframe := @Frame.changeState env a .gathering
    exact .of_entries hframe.tally hframe.entries
  | connect => exact .of_frame (.changeState a _)
  | update => exact .of_frame (.updateState a)
  | armPair i => exact .push rfl (fun h => by cases h)
  | pushRelay srv index resolved =>
    have hpush : Tallies a (a.pushEntry (relayEntry env srv index resolved)) :=
      .push rfl (fun h => by cases h)
    exact ⟨hpush.sent, hpush.entries, hpush.numbers⟩
  | settleServer j s he htype hpending hs =>
    refine .modify rfl rfl (fun _ => rfl) fun e _ => .of_state ?_
    rcases hs with rfl | rfl <;> decide
  | failEntry j => exact .modify rfl rfl (fun _ => rfl) fun e _ => .of_state (by decide)
  | countRelay j | relay j f =>
    exact .modify rfl rfl (fun _ => rfl) fun e _ => ⟨rfl, rfl, rfl, fun h => ⟨h, rfl⟩, fun h => h⟩
  | arm j delay he htype =>
    refine .modify rfl rfl (fun _ => rfl) fun e he' => armTransmission_later ?_ delay
    cases he.symm.trans he'
    exact htype
  | timer j f hf | flush j f hf =>
    exact .modify rfl rfl (fun e => (hf e).serial) fun e _ => (hf e).later
  | flushes f hf => exact .map rfl rfl fun e => (hf e).later
  | @keepalive j e he hs =>
    refine .modify rfl rfl (fun _ => rfl) fun e' he' => .of_armed rfl ?_ rfl rfl rfl
    cases he.symm.trans he'
    exact fun hserver => (hc e (List.mem_of_getElem? he)).of_server hserver hs
  | cancel f =>
    refine .map rfl rfl fun e => ?_
    split
    · exact .of_state (by decide)
    · exact .refl e
  | erase keeps =>
    exact ⟨rfl, fun d hd => .inl ⟨d, List.mem_of_mem_filter hd, .refl d⟩,
      .inl ⟨List.filter_sublist.map _, rfl⟩⟩
  | failPair i => exact .of_entries (setPairState_tally a i _) (setPairState_entries i _)
  | freeze =>
    unfold freezeOthers
    split <;> exact .of_entries rfl rfl
  | accept j i he htype =>
    have hanswered := acceptAnswer_answered env a j i
    obtain ⟨time, hentries⟩ := hanswered.entries
    refine .modify hanswered.tally hentries (fun _ => rfl) fun e he' => ?_
    refine .of_armed rfl ?_ rfl rfl rfl
    cases he.symm.trans he'
    exact htype
  | request i _ _ _ htype =>
    have htally := (askNomination_asked env a i).tally
    rcases askNomination_entries env a i with heq | ⟨j, b, hfind, heq⟩
    · exact .of_entries htally heq
    · refine .modify htally heq (fun _ => rfl) fun e he => armTransmission_later ?_ 0
      have hpair : e.pair = some i := by
        obtain ⟨hlt, hp, _⟩ := List.findIdx?_eq_some_iff_getElem.mp hfind
        obtain ⟨_, hget⟩ := List.getElem?_eq_some_iff.mp he
        rw [hget] at hp
        exact of_decide_eq_true hp
      exact htype e (List.mem_of_getElem? he) hpair
  | _ => exact .of_entries rfl rfl

/-! ## The ledger -/

structure Ledger (a : Agent) : Prop where
  logged : a.tally.sent.map (·.id) = a.requests.map (·.2.transactionID)
  numbered : (a.serials ++ [a.tally.created]).Pairwise (· < ·)
  renews : ∀ e ∈ a.entries, e.Renews
  drawn : ∀ e ∈ a.entries, e.type = .server → e.transactionID ≠ noTransaction
  kept : ∀ e ∈ a.entries, e.keepsId → ∀ s ∈ a.tally.sent, s.id = e.transactionID → Sent.Of e s
  apart : a.tally.sent.Pairwise Sent.Apart

theorem Ledger.unused (h : Ledger a) {t : TransactionID} (ht : Unused a t) :
    ∀ s ∈ a.tally.sent, s.id ≠ t := by
  intro s hs
  have hmem : s.id ∈ a.requests.map (·.2.transactionID) := by
    rw [← h.logged]
    exact List.mem_map_of_mem hs
  obtain ⟨⟨p, m⟩, hm, hid⟩ := List.mem_map.mp hmem
  rw [← hid]
  exact ht.request p m hm

theorem pairwise_serials_push {l : List Nat} {n : Nat} (h : (l ++ [n]).Pairwise (· < ·)) :
    ((l ++ [n]) ++ [n + 1]).Pairwise (· < ·) := by
  refine List.pairwise_append.mpr ⟨h, List.pairwise_singleton _ _, ?_⟩
  intro x hx y hy
  cases List.mem_singleton.mp hy
  obtain ⟨_, _, hlt⟩ := List.pairwise_append.mp h
  rcases List.mem_append.mp hx with hx | hx
  · exact Nat.lt_succ_of_lt (hlt x hx n (List.mem_singleton_self n))
  · cases List.mem_singleton.mp hx
    exact Nat.lt_succ_self n

theorem Ledger.tallies (h : Ledger a) (ht : Tallies a b) (hrequests : b.requests = a.requests) :
    Ledger b where
  logged := by rw [ht.sent, hrequests, h.logged]
  numbered := by
    rcases ht.numbers with ⟨hsub, hcreated⟩ | ⟨heq, hcreated⟩
    · rw [hcreated]
      exact h.numbered.sublist (hsub.append_right _)
    · rw [heq, hcreated]
      exact pairwise_serials_push h.numbered
  renews d hd := by
    rcases ht.entries d hd with ⟨e, he, hlater⟩ | ⟨hexpired, _⟩
    · exact hlater.renews (h.renews e he)
    · exact fun _ => hexpired
  drawn d hd htype := by
    rcases ht.entries d hd with ⟨e, he, hlater⟩ | ⟨_, hne⟩
    · rw [hlater.id]
      exact h.drawn e he (hlater.type.symm.trans htype)
    · exact absurd htype hne
  kept d hd hkeeps s hs hid := by
    rw [ht.sent] at hs
    rcases ht.entries d hd with ⟨e, he, hlater⟩ | ⟨hexpired, htype⟩
    · obtain ⟨hkept, harms⟩ := hlater.arms hkeeps
      obtain ⟨hserial, harms', hconsent⟩ := h.kept e he hkept s hs (hid.trans hlater.id)
      exact ⟨hserial.trans hlater.serial.symm, harms'.trans harms.symm, hconsent⟩
    · rcases hkeeps with hkeeps | hkeeps
      · rw [hexpired] at hkeeps
        cases hkeeps
      · exact absurd hkeeps htype
  apart := by
    rw [ht.sent]
    exact h.apart

/-- The record of a request for an entry. -/
def sentOf (e : StunEntry) (tid : TransactionID) : Sent :=
  ⟨e.serial, e.arms, e.state = .succeededKeepalive, tid⟩

/-- The id of an entry has been settled, and a request with it may have been sent; `d` is what
the entry is then. -/
structure Transmitted (a : Agent) (j : Nat) (e : StunEntry) (tid : TransactionID) (d : StunEntry)
    (b : Agent) : Prop where
  entries : b.entries = a.entries.modify j fun _ => d
  created : b.tally.created = a.tally.created
  record : b.tally.sent = a.tally.sent ∧ b.requests = a.requests ∨
    b.tally.sent = a.tally.sent ++ [sentOf e tid] ∧
      ∃ p m, m.transactionID = tid ∧ b.requests = a.requests ++ [(p, m)]

/-- What makes an id fit for the next request of an entry: earlier requests with it are like that
one, and no other entry has it. -/
structure Fit (a : Agent) (e : StunEntry) (tid : TransactionID) : Prop where
  before : ∀ s ∈ a.tally.sent, s.id = tid → Sent.Of e s ∧ e.state ≠ .succeededKeepalive
  owner : ∀ c ∈ a.entries, c.transactionID = tid → c = e
  repeats : e.keepsId → e.state ≠ .succeededKeepalive

theorem Ledger.fit_check {tid : TransactionID} (h : Ledger a)
    (htraced : Traced a) (he : a.entries[j]? = some e) (htype : e.type ≠ .server)
    (hsent : SentWith a e tid) : Fit a e tid := by
  have hmem := List.mem_of_getElem? he
  have hrepeats : e.transactionIdExpired = false → e.state ≠ .succeededKeepalive := by
    intro hexpired hkeep
    rw [h.renews e hmem hkeep] at hexpired
    cases hexpired
  refine ⟨?_, fun c hc hid => htraced.owner_of_sent he htype hsent hc hid, ?_⟩
  · intro s hs hid
    rcases hsent.cases with ⟨htid, hexpired⟩ | hunused
    · exact ⟨h.kept e hmem (.inl hexpired) s hs (hid.trans htid), hrepeats hexpired⟩
    · exact absurd hid (h.unused hunused s hs)
  · exact fun hkeeps => hrepeats (hkeeps.resolve_right htype)

theorem Ledger.fit_server (h : Ledger a) (htraced : Traced a) (hc : Checks a)
    (he : a.entries[j]? = some e) (htype : e.type = .server) : Fit a e e.transactionID := by
  have hmem := List.mem_of_getElem? he
  have hstate := (hc e hmem).of_server htype
  refine ⟨fun s hs hid => ⟨h.kept e hmem (.inr htype) s hs hid, hstate⟩, ?_, fun _ => hstate⟩
  intro c hc hid
  refine htraced.eq_of_id hc hmem hid ?_
  rw [hid]
  exact h.drawn e hmem htype

theorem sentOf_consent (h : e.state ≠ .succeededKeepalive) (tid : TransactionID) :
    (sentOf e tid).consent = false := decide_eq_false h

theorem Ledger.transmitted {e d : StunEntry} {tid : TransactionID} (h : Ledger a)
    (he : a.entries[j]? = some e) (hfit : Fit a e tid) (ht : Transmitted a j e tid d b)
    (hserial : d.serial = e.serial) (hrenews : d.Renews)
    (hdrawn : d.type = .server → d.transactionID ≠ noTransaction) (hkeeps : d.keepsId →
      d.transactionID = tid ∧ d.arms = e.arms ∧ e.state ≠ .succeededKeepalive) : Ledger b := by
  have hserials : b.serials = a.serials := by
    unfold serials
    rw [ht.entries]
    refine map_modify_of_row fun c hc => ?_
    cases he.symm.trans hc
    exact hserial
  -- a request that is there now was there before, or is the one that was sent
  have hrecord : ∀ s ∈ b.tally.sent, s ∈ a.tally.sent ∨ s = sentOf e tid := by
    intro s hs
    rcases ht.record with ⟨hsame, _⟩ | ⟨hmore, _⟩
    · exact .inl (hsame ▸ hs)
    · rw [hmore] at hs
      exact (List.mem_append.mp hs).imp_right List.mem_singleton.mp
  refine ⟨?_, ?_, ?_, ?_, ?_, ?_⟩
  · rcases ht.record with ⟨hsame, hrequests⟩ | ⟨hmore, p, m, hm, hrequests⟩
    · rw [hsame, hrequests, h.logged]
    · rw [hmore, hrequests, List.map_append, List.map_append, h.logged, ← hm]
      rfl
  · rw [hserials, ht.created]
    exact h.numbered
  · rw [ht.entries]
    exact forall_mem_modify h.renews fun _ _ => hrenews
  · rw [ht.entries]
    exact forall_mem_modify h.drawn fun _ _ => hdrawn
  · rw [ht.entries]
    refine forall_mem_modify ?_ fun _ _ => ?_
    · intro c hc hkept s hs hid
      rcases hrecord s hs with hs | rfl
      · exact h.kept c hc hkept s hs hid
      · obtain rfl := hfit.owner c hc hid.symm
        exact ⟨rfl, rfl, sentOf_consent (hfit.repeats hkept) tid⟩
    · intro hd s hs hid
      obtain ⟨hdid, harms, hkeep⟩ := hkeeps hd
      rcases hrecord s hs with hs | rfl
      · obtain ⟨⟨hserial', harms', hconsent⟩, _⟩ := hfit.before s hs (hid.trans hdid)
        exact ⟨hserial'.trans hserial.symm, harms'.trans harms.symm, hconsent⟩
      · exact ⟨hserial.symm, harms.symm, sentOf_consent hkeep tid⟩
  · rcases ht.record with ⟨hsame, _⟩ | ⟨hmore, _⟩
    · rw [hsame]
      exact h.apart
    · rw [hmore]
      refine List.pairwise_append.mpr ⟨h.apart, List.pairwise_singleton _ _, ?_⟩
      intro s hs r hr hid
      cases List.mem_singleton.mp hr
      obtain ⟨⟨hserial, harms, hconsent⟩, hkeep⟩ := hfit.before s hs hid
      exact ⟨hserial, harms, hconsent, sentOf_consent hkeep tid⟩

/-! ## What is sent -/

theorem sendCheck_transmitted (he : a.entries[j]? = some e) :
    a.sendCheck env j = a ∨ ∃ tid, transactionFor env j e = some tid ∧
      Transmitted a j e tid (a.sentEntry e tid) (a.sendCheck env j) := by
  rcases sendCheck_cases env he with heq | ⟨tid, hfor, hcases⟩
  · exact .inl heq
  · refine .inr ⟨tid, hfor, ?_⟩
    rcases hcases with ⟨route, _, _, heq⟩ | heq | heq
    · rw [heq]
      refine ⟨rfl, rfl, .inr ⟨?_, e.pair, _, bindingRequest_transactionID _,
        noteRequest_requests _ _ e.pair route _⟩⟩
      unfold noteRequest
      rw [bindingRequest_transactionID]
      rfl
    · rw [heq]
      exact ⟨rfl, rfl, .inl ⟨rfl, rfl⟩⟩
    · rw [heq]
      refine ⟨setPairState_entries _ _, ?_, .inl ⟨?_, setPairState_requests _ _⟩⟩ <;>
        rw [setPairState_tally] <;> rfl

theorem Ledger.sendCheck (h : Ledger a) (htraced : Traced a)
    (he : a.entries[j]? = some e) (htype : e.type ≠ .server) (hpending : e.state = .pending)
    (hunused : ∀ t, env.randomTid j = some t → Unused a t) : Ledger (a.sendCheck env j) := by
  rcases @sendCheck_transmitted env a j e he with heq | ⟨tid, hfor, ht⟩
  · rw [heq]
    exact h
  · have hsent := SentWith.of_transactionFor hfor hunused
    have hkeep : e.state ≠ .succeededKeepalive := by
      rw [hpending]
      decide
    exact h.transmitted he (h.fit_check htraced he htype hsent) ht rfl (fun hd => absurd hd hkeep)
      (fun hd => absurd hd htype) fun _ => ⟨rfl, rfl, hkeep⟩

/-- A consent request is followed by an arming of its entry at once. -/
theorem Ledger.keepAlive (h : Ledger a) (htraced : Traced a)
    (hc : Checks a) (he : a.entries[j]? = some e) (htype : e.type ≠ .server)
    (hkeep : e.state = .succeededKeepalive) (hdue : e.nextTransmission ≤ env.now)
    (hunused : ∀ t, env.randomTid j = some t → Unused a t) : Ledger (a.keepAlive env j) := by
  rcases @sendCheck_transmitted env a j e he with heq | ⟨tid, hfor, ht⟩
  · have hmove := @Move.keepAlive env a j e he hkeep hdue
    rw [heq] at hmove
    exact h.tallies (hmove.tallies rfl hc) (hmove.unsent rfl).requests
  · have hsent := SentWith.of_transactionFor hfor hunused
    let d := (a.sendCheck env j).armKeepalive env (env.randomU32 j) (a.sentEntry e tid)
    have harmed : Transmitted a j e tid d (a.keepAlive env j) := by
      refine ⟨?_, ht.created, ht.record⟩
      unfold Agent.keepAlive modifyEntry
      dsimp only
      rw [ht.entries, List.modify_modify_eq]
      rfl
    refine h.transmitted he (h.fit_check htraced he htype hsent) harmed rfl (fun _ => rfl)
      (fun hd => absurd hd htype) fun hd => ?_
    rcases hd with hd | hd
    · cases hd
    · exact absurd hd htype

theorem Ledger.resend (h : Ledger a) (htraced : Traced a)
    (hc : Checks a) (he : a.entries[j]? = some e) (htype : e.type = .server) :
    Ledger (a.noteRequest e none .udp (buildBindingRequest e.transactionID)) := by
  have hmem := List.mem_of_getElem? he
  have hrecord : Transmitted a j e e.transactionID e
      (a.noteRequest e none .udp (buildBindingRequest e.transactionID)) := by
    refine ⟨?_, rfl, .inr ⟨rfl, none, _, rfl, noteRequest_requests _ _ _ _ _⟩⟩
    refine List.ext_getElem? fun k => ?_
    rw [List.getElem?_modify]
    split
    · rename_i hjk
      subst hjk
      exact he.trans (by rw [he]; rfl)
    · exact (congrFun Option.map_id _).symm
  exact h.transmitted he (h.fit_server htraced hc he htype) hrecord rfl (h.renews e hmem)
    (h.drawn e hmem) fun _ => ⟨rfl, rfl, (hc e hmem).of_server htype⟩

theorem Ledger.pushServer (h : Ledger a) (resolved : AddrRecord) {u : TransactionID}
    (hdraw : env.randomTid a.entries.length = some u) (hunused : Unused a u) :
    Ledger (a.pushServer env resolved) := by
  have hid : (a.serverEntry env resolved).transactionID = u := by
    unfold serverEntry
    rw [hdraw]
    rfl
  have hsent : (a.pushServer env resolved).tally.sent =
      a.tally.sent ++ [sentOf (a.serverEntry env resolved) u] := by
    rw [← hid]
    rfl
  have hentries : (a.pushServer env resolved).entries =
      a.entries ++ [a.serverEntry env resolved] := rfl
  refine ⟨?_, ?_, ?_, ?_, ?_, ?_⟩
  · rw [hsent, pushServer_requests, List.map_append, List.map_append, h.logged, hdraw]
    rfl
  · have hserials : (a.pushServer env resolved).serials = a.serials ++ [a.tally.created] := by
      unfold serials
      rw [hentries, List.map_append]
      rfl
    rw [hserials]
    exact pairwise_serials_push h.numbered
  · rw [hentries]
    refine forall_mem_concat h.renews fun hkeep => ?_
    cases hkeep
  · rw [hentries]
    refine forall_mem_concat h.drawn fun _ => ?_
    rw [hid]
    exact hunused.drawn
  · rw [hentries, hsent]
    refine forall_mem_concat ?_ fun _ => ?_
    · intro c hc hkeeps
      refine forall_mem_concat (h.kept c hc hkeeps) fun hcid => ?_
      exact absurd hcid.symm (hunused.entry c hc)
    · refine forall_mem_concat ?_ fun _ => ⟨rfl, rfl, rfl⟩
      intro s hs hsid
      exact absurd (hsid.trans hid) (h.unused hunused s hs)
  · rw [hsent]
    refine List.pairwise_append.mpr ⟨h.apart, List.pairwise_singleton _ _, ?_⟩
    intro s hs r hr hsid
    cases List.mem_singleton.mp hr
    exact absurd hsid (h.unused hunused s hs)

/-- `randomBytes` gives an id to every entry there can be. -/
def Random (e : AgentEvent × AgentEnv) : Prop :=
  ∀ j < maxStunEntries, (e.2.randomTid j).isSome = true

theorem Ledger.keeps (hrandom : ∀ j < maxStunEntries, (env.randomTid j).isSome = true) :
    Keeps env Kind.unsent fun a => (Traced a ∧ Checks a) ∧ Ledger a where
  move a k b hk hm h :=
    ⟨Traced.keeps.move a k b hk hm h.1, h.2.tallies (hm.tallies hk h.1.2) (hm.unsent hk).requests⟩
  send a j e he htype hpending hdue hunused h :=
    ⟨Traced.keeps.send a j e he htype hpending hdue hunused h.1,
      h.2.sendCheck h.1.1 he htype hpending hunused⟩
  consent a j e he htype hkeep hdue hunused h :=
    ⟨Traced.keeps.consent a j e he htype hkeep hdue hunused h.1,
      h.2.keepAlive h.1.1 h.1.2 he htype hkeep hdue hunused⟩
  resend a j e he htype h :=
    ⟨(@Traced.keeps env).resend a j e he htype h.1, h.2.resend h.1.1 h.1.2 he htype⟩
  pushServer a resolved hroom hunused h := by
    obtain ⟨u, hdraw⟩ := Option.isSome_iff_exists.mp (hrandom a.entries.length hroom)
    exact ⟨Traced.keeps.pushServer a resolved hroom hunused h.1,
      h.2.pushServer resolved hdraw (hunused u hdraw)⟩

theorem Runs.ledger (h : Runs (fun a e => Draws a e ∧ Random e) a) : Ledger a := by
  refine (Runs.invariant (P := fun a => Traced a ∧ Ledger a) ?_ ?_ h).2
  · rintro a ⟨config, ufrag, pwd, tiebreaker, rfl⟩
    refine ⟨⟨.nil, ?_, ?_⟩, rfl, List.pairwise_singleton _ _, ?_, ?_, ?_, .nil⟩ <;>
      exact fun e he => absurd he List.not_mem_nil
  · rintro a e env ⟨hdraws, hrandom⟩ hc _ ⟨htraced, ha⟩
    have hstep := (Ledger.keeps hrandom).step hc e (fun _ _ hk => hk) hdraws ⟨⟨htraced, hc⟩, ha⟩
    exact ⟨hstep.1.1, hstep.2⟩

/-- In every run in which ids can be drawn and drawn ids are new: two requests that were
transmitted have one id only if they are of one entry, which was armed for neither a check nor
consent between them; and a request for consent shares its id with no other. -/
theorem transaction_ids_of_requests (h : Runs (fun a e => Draws a e ∧ Random e) a) :
    a.tally.sent.map (·.id) = a.requests.map (·.2.transactionID) ∧ a.serials.Nodup ∧
      a.tally.sent.Pairwise fun s t => s.id = t.id →
        s.serial = t.serial ∧ s.arms = t.arms ∧ s.consent = false ∧ t.consent = false := by
  have hledger := h.ledger
  refine ⟨hledger.logged, ?_, hledger.apart⟩
  exact (List.pairwise_append.mp hledger.numbered).1.imp Nat.ne_of_lt

/-- The id of an entry in a step. -/
def stepTid (k j : Nat) : TransactionID :=
  ⟨List.replicate 10 0 ++ [UInt8.ofNat (k + 1), UInt8.ofNat (j + 1)], rfl⟩

/-- Surroundings that draw an id for every entry. -/
def tidEnv (k : Nat) (now : Int) : AgentEnv :=
  { calmEnv now with
    randomTid := fun j => if j < maxStunEntries then some (stepTid k j) else none }

/-- The ids of a step have not been used. -/
def unusedIn (k : Nat) (a : Agent) : Bool :=
  (List.range maxStunEntries).all fun j =>
    stepTid k j ≠ noTransaction && a.entries.all (·.transactionID ≠ stepTid k j) &&
      a.requests.all (·.2.transactionID ≠ stepTid k j)

theorem tidEnv_some {k j : Nat} {now : Int} {t : TransactionID}
    (h : (tidEnv k now).randomTid j = some t) : j < maxStunEntries ∧ t = stepTid k j := by
  have hj : (if j < maxStunEntries then some (stepTid k j) else none) = some t := h
  split at hj
  · rename_i hlt
    exact ⟨hlt, (Option.some.inj hj).symm⟩
  · cases hj

theorem stepTid_inj {k i j : Nat} (hi : i < maxStunEntries) (hj : j < maxStunEntries)
    (h : stepTid k i = stepTid k j) : i = j := by
  have hbytes := congrArg (fun t : TransactionID => (t.1.map UInt8.toNat)[11]?) h
  have hlast : (i + 1) % 256 = (j + 1) % 256 := by
    simpa [stepTid] using hbytes
  have hmax : maxStunEntries = 92 := rfl
  omega

theorem draws_of_unusedIn {k : Nat} {now : Int} (e : AgentEvent) (h : a.unusedIn k = true) :
    Draws a (e, tidEnv k now) ∧ Random (e, tidEnv k now) := by
  refine ⟨⟨?_, ?_⟩, ?_⟩
  · intro j t ht
    obtain ⟨hj, rfl⟩ := tidEnv_some ht
    have hall := List.all_eq_true.mp h j (List.mem_range.mpr hj)
    simp only [Bool.and_eq_true, decide_eq_true_eq, List.all_eq_true] at hall
    exact ⟨hall.1.1, hall.1.2, fun p m hm => hall.2 (p, m) hm⟩
  · intro i j t hi hj
    obtain ⟨hilt, hti⟩ := tidEnv_some hi
    obtain ⟨hjlt, htj⟩ := tidEnv_some hj
    exact stepTid_inj hilt hjlt (hti.symm.trans htj)
  · intro j hj
    have hdraw : (tidEnv k now).randomTid j = some (stepTid k j) := if_pos hj
    rw [hdraw]
    rfl

/-- A step in surroundings of its own. -/
def numberedStep (a : Agent) (x : AgentEvent × Nat × Int) : Agent :=
  a.step (x.1, tidEnv x.2.1 x.2.2)

theorem runs_of_unusedIn {l : List (AgentEvent × Nat × Int)}
    (h : Runs (fun a e => Draws a e ∧ Random e) a)
    (hl : checkedRun (fun a x => a.unusedIn x.2.1) numberedStep a l = some b) :
    Runs (fun a e => Draws a e ∧ Random e) b := by
  induction l generalizing a with
  | nil =>
    cases hl
    exact h
  | cons x l ih =>
    simp only [checkedRun] at hl
    split at hl
    · rename_i hx
      exact ih (.next _ h ⟨draws_of_unusedIn x.1 hx, rfl⟩) hl
    · cases hl

/-- A check is sent twice and answered, and a request for consent follows. -/
def consentEvents : List (AgentEvent × Nat × Int) :=
  [(.gatherCandidates [hostAt (udpAt 1 1000)], 0, 1),
    (.setRemoteDescription peerSdpWithCandidate, 1, 2), (.onBookkeeping, 2, 100),
    (.onBookkeeping, 3, 1100),
    (.udpPacket (peerResponse (some remotePwd) (stepTid 2 0)) (udpAt 2 2000), 4, 1110),
    (.onBookkeeping, 5, 9200)]

theorem transaction_ids_of_requests_consent :
    ∃ a, Runs (fun a e => Draws a e ∧ Random e) a ∧
      a.tally.sent = [⟨0, 1, false, stepTid 2 0⟩, ⟨0, 1, false, stepTid 2 0⟩,
        ⟨0, 2, true, stepTid 5 0⟩] ∧
      a.tally.sent.map (·.id) = a.requests.map (·.2.transactionID) ∧ a.serials.Nodup ∧
      a.tally.sent.Pairwise fun s t => s.id = t.id →
        s.serial = t.serial ∧ s.arms = t.arms ∧ s.consent = false ∧ t.consent = false := by
  have hfresh : Runs (fun a e => Draws a e ∧ Random e) (small {}) :=
    .start ⟨{}, localUfrag, localPwd, 7, rfl⟩
  have hrun : (checkedRun (fun a x => a.unusedIn x.2.1) numberedStep (small {}) consentEvents).map
      (·.tally.sent) = some [⟨0, 1, false, stepTid 2 0⟩, ⟨0, 1, false, stepTid 2 0⟩,
        ⟨0, 2, true, stepTid 5 0⟩] := by
    decide +kernel
  obtain ⟨a, ha, hsent⟩ := Option.map_eq_some_iff.mp hrun
  have hruns := runs_of_unusedIn hfresh ha
  exact ⟨a, hruns, hsent, transaction_ids_of_requests hruns⟩

end Agent

end Stice.Ice
