import Stice.Ice.Paths

/-! The transaction ids of an agent. Requests leave it in two places only, a timer pass and the
worker of gathering; every other move leaves the requests as they are and at most forgets or
expires the id of an entry. Ids that are drawn are new (`Draws`), and then an id belongs to one
entry. -/
namespace Stice.Ice
open Lib Net Stun

/-- A request in the log, with the pair it was for. -/
def LogItem.request? : LogItem → Option (Option Nat × Message)
  | .request pair _ m => some (pair, m)
  | _ => none

/-- The moves that send no request. -/
def Kind.unsent : Kind → Bool
  | .send | .resend | .pushServer => false
  | _ => true

/-- An entry later on, as long as nothing is sent for it. -/
structure Kin (e d : StunEntry) : Prop where
  type : d.type = e.type
  mode : d.mode = e.mode
  pair : d.pair = e.pair
  transactionID : d.transactionID = e.transactionID
  expired : d.transactionIdExpired = false → e.transactionIdExpired = false
  relay : d.relay.isSome = e.relay.isSome

/-- An entry for which no id has been drawn. -/
structure Blank (d : StunEntry) : Prop where
  type : d.type ≠ .server
  transactionID : d.transactionID = noTransaction
  expired : d.transactionIdExpired = true
  relay : d.relay.isSome = true → d.type = .relay

theorem Kin.refl (e : StunEntry) : Kin e e := ⟨rfl, rfl, rfl, rfl, id, rfl⟩

theorem Kin.trans {e d c : StunEntry} (h : Kin e d) (h' : Kin d c) : Kin e c :=
  ⟨h'.type.trans h.type, h'.mode.trans h.mode, h'.pair.trans h.pair,
    h'.transactionID.trans h.transactionID, fun hc => h.expired (h'.expired hc),
    h'.relay.trans h.relay⟩

theorem Blank.kin {e d : StunEntry} (h : Blank e) (h' : Kin e d) : Blank d where
  type := by
    rw [h'.type]
    exact h.type
  transactionID := h'.transactionID.trans h.transactionID
  expired := by
    cases hd : d.transactionIdExpired with
    | true => rfl
    | false => exact absurd (h'.expired hd) (by rw [h.expired]; decide)
  relay hd := by
    rw [h'.relay] at hd
    exact h'.type.trans (h.relay hd)

theorem SameEntry.kin {e d : StunEntry} (h : SameEntry e d) : Kin e d :=
  ⟨h.type, h.mode, h.pair, h.transactionID, by rw [h.transactionIdExpired]; exact id, by
    have := congrArg Option.isSome h.counted
    simpa only [Option.isSome_map] using this⟩

namespace Agent

variable {env : AgentEnv} {a b c : Agent}
variable {j : Nat} {e : StunEntry} {t : TransactionID} {tid : TransactionID}

/-- The requests a transport has taken. -/
def requests (a : Agent) : List (Option Nat × Message) := a.log.filterMap LogItem.request?

def ids (a : Agent) : List TransactionID := a.entries.map (·.transactionID)

theorem note_requests {item : LogItem} (h : item.request? = none) (a : Agent) :
    (a.note item).requests = a.requests := by
  unfold requests note
  rw [List.filterMap_append, List.filterMap_cons_none h, List.filterMap_nil, List.append_nil]

theorem noteRequest_requests (a : Agent) (e : StunEntry) (pair : Option Nat) (route : Route)
    (m : Message) : (a.noteRequest e pair route m).requests = a.requests ++ [(pair, m)] := by
  unfold requests noteRequest note
  rw [List.filterMap_append]
  rfl

theorem changeState_requests (a : Agent) (s : AgentState) :
    (a.changeState env s).requests = a.requests := by
  have hnote : ({ a with state := s }.note (.state s)).requests = a.requests :=
    note_requests rfl { a with state := s }
  unfold changeState
  split
  · rfl
  · dsimp only
    split
    · exact hnote
    · exact hnote

theorem enterConnected_requests (a : Agent) (best : Nat) :
    (a.enterConnected env best).requests = a.requests := by
  unfold enterConnected
  dsimp only
  split
  · split
    · rw [changeState_requests, changeState_requests]
      rfl
    · split
      · rw [changeState_requests]
        rfl
      · rfl
  · split
    · rw [changeState_requests]
      rfl
    · rfl

theorem enterFailed_requests (a : Agent) : (a.enterFailed env).requests = a.requests := by
  unfold enterFailed
  split
  · split
    · rfl
    · split
      · rfl
      · rw [changeState_requests]
        rfl
  · split
    · exact changeState_requests a _
    · rfl

theorem updateState_requests (a : Agent) : (a.updateState env).requests = a.requests := by
  have hnote : (a.note (.update env.now a.selection.isSome a.allFailed)).requests = a.requests :=
    note_requests rfl a
  unfold updateState
  dsimp only
  split
  · exact (enterConnected_requests _ _).trans hnote
  · split
    · exact (enterFailed_requests _).trans hnote
    · exact hnote

/-! ## Moves that send nothing -/

/-- What moves leave that send nothing. -/
structure Unsent (a b : Agent) : Prop where
  requests : b.requests = a.requests
  entries : ∀ d ∈ b.entries, (∃ e ∈ a.entries, Kin e d) ∨ Blank d
  ids : ∃ n, b.ids.Sublist (a.ids ++ List.replicate n noTransaction)

theorem Unsent.of_entries (hrequests : b.requests = a.requests) (h : b.entries = a.entries) :
    Unsent a b where
  requests := hrequests
  entries d hd := .inl ⟨d, by rwa [h] at hd, .refl d⟩
  ids := ⟨0, by unfold Agent.ids; rw [h, List.replicate_zero, List.append_nil]⟩

theorem Unsent.refl (a : Agent) : Unsent a a := .of_entries rfl rfl

theorem Unsent.trans (h : Unsent a b) (h' : Unsent b c) : Unsent a c where
  requests := h'.requests.trans h.requests
  entries d hd := by
    rcases h'.entries d hd with ⟨e, he, hkin⟩ | hblank
    · rcases h.entries e he with ⟨f, hf, hkin'⟩ | hblank
      · exact .inl ⟨f, hf, hkin'.trans hkin⟩
      · exact .inr (hblank.kin hkin)
    · exact .inr hblank
  ids := by
    obtain ⟨n, hn⟩ := h.ids
    obtain ⟨n', hn'⟩ := h'.ids
    refine ⟨n + n', hn'.trans ?_⟩
    rw [← List.replicate_append_replicate, ← List.append_assoc]
    exact hn.append_right _

/-- One entry goes on. -/
theorem Unsent.modify {f : StunEntry → StunEntry} (hrequests : b.requests = a.requests)
    (h : b.entries = a.entries.modify j f) (hf : ∀ e, Kin e (f e)) : Unsent a b where
  requests := hrequests
  entries := by
    rw [h]
    refine forall_mem_modify (fun e he => .inl ⟨e, he, .refl e⟩) fun e he => ?_
    exact .inl ⟨e, List.mem_of_getElem? he, hf e⟩
  ids := by
    refine ⟨0, ?_⟩
    have hsame : b.ids = a.ids := by
      unfold Agent.ids
      rw [h]
      exact map_modify_eq (fun e => (hf e).transactionID) j
    rw [hsame, List.replicate_zero, List.append_nil]

theorem Unsent.map {f : StunEntry → StunEntry} (hrequests : b.requests = a.requests)
    (h : b.entries = a.entries.map f) (hf : ∀ e, Kin e (f e)) : Unsent a b where
  requests := hrequests
  entries d hd := by
    rw [h] at hd
    obtain ⟨e, he, rfl⟩ := List.mem_map.mp hd
    exact .inl ⟨e, he, hf e⟩
  ids := by
    refine ⟨0, ?_⟩
    have hsame : b.ids = a.ids := by
      unfold Agent.ids
      rw [h, List.map_map]
      exact List.map_congr_left fun e _ => (hf e).transactionID
    rw [hsame, List.replicate_zero, List.append_nil]

theorem Unsent.push {d : StunEntry} (hrequests : b.requests = a.requests)
    (h : b.entries = a.entries ++ [d]) (hd : Blank d) : Unsent a b where
  requests := hrequests
  entries := by
    rw [h]
    exact forall_mem_concat (fun e he => .inl ⟨e, he, .refl e⟩) (.inr hd)
  ids := by
    refine ⟨1, ?_⟩
    have hsame : b.ids = a.ids ++ List.replicate 1 noTransaction := by
      unfold Agent.ids
      rw [h, List.map_append, List.map_cons, hd.transactionID]
      rfl
    rw [hsame]

theorem armTransmission_kin (delay : Int) (e : StunEntry) : Kin e (a.armTransmission env delay e) :=
  ⟨rfl, rfl, rfl, rfl, (fun h => by cases h), rfl⟩

theorem setPairState_requests (i : Option Nat) (s : PairState) :
    (a.setPairState i s).requests = a.requests := by
  cases i <;> rfl

theorem Move.unsent {k : Kind} (h : Move env a k b) (hk : k.unsent = true) : Unsent a b := by
  cases h with
  | send | resend | pushServer => exact absurd hk (by decide)
  | setup h => exact .of_entries (by unfold requests; rw [h.log]) h.entries
  | gather =>
    refine .of_entries ?_ (@Frame.changeState env a .gathering).entries
    exact @changeState_requests env a .gathering
  | connect => exact .of_entries (changeState_requests a _) (Frame.changeState a _).entries
  | update => exact .of_entries (updateState_requests a) (Frame.updateState a).entries
  | announce => exact .of_entries (note_requests rfl _) rfl
  | armPair i => exact .push rfl rfl ⟨(fun h => by cases h), rfl, rfl, (fun h => by cases h)⟩
  | pushRelay srv index resolved =>
    exact .push rfl rfl ⟨(fun h => by cases h), rfl, rfl, fun _ => rfl⟩
  | settleServer j s => exact .modify rfl rfl fun e => ⟨rfl, rfl, rfl, rfl, id, rfl⟩
  | failEntry j => exact .modify rfl rfl fun e => ⟨rfl, rfl, rfl, rfl, id, rfl⟩
  | countRelay j | relay j f =>
    exact .modify rfl rfl fun e => ⟨rfl, rfl, rfl, rfl, id, Option.isSome_map⟩
  | arm j delay => exact .modify rfl rfl (armTransmission_kin delay)
  | timer j f hf | flush j f hf => exact .modify rfl rfl fun e => (hf e).kin
  | flushes f hf => exact .map rfl rfl fun e => (hf e).kin
  | keepalive j => exact .modify rfl rfl fun e => ⟨rfl, rfl, rfl, rfl, (fun h => by cases h), rfl⟩
  | cancel f =>
    refine .map rfl rfl fun e => ?_
    split
    · exact ⟨rfl, rfl, rfl, rfl, id, rfl⟩
    · exact .refl e
  | erase keeps =>
    exact ⟨rfl, fun d hd => .inl ⟨d, List.mem_of_mem_filter hd, .refl d⟩,
      0, by rw [List.replicate_zero, List.append_nil]; exact List.filter_sublist.map _⟩
  | failPair i => exact .of_entries (setPairState_requests i _) (setPairState_entries i _)
  | freeze =>
    unfold freezeOthers
    split
    · exact .refl a
    · exact .of_entries rfl rfl
  | accept j i =>
    have hanswered := acceptAnswer_answered env a j i
    obtain ⟨time, hentries⟩ := hanswered.entries
    refine .modify ?_ hentries fun e => ⟨rfl, rfl, rfl, rfl, (fun h => by cases h), rfl⟩
    unfold requests
    rw [hanswered.log, List.filterMap_append]
    exact List.append_nil _
  | request i =>
    have hrequests : (a.askNomination env i).requests = a.requests := by
      unfold requests
      rw [(askNomination_asked env a i).log]
    rcases askNomination_entries env a i with heq | ⟨j, b, _, heq⟩
    · exact .of_entries hrequests heq
    · exact .modify hrequests heq (armTransmission_kin 0)
  | respond | data | pass => exact .of_entries (note_requests rfl _) rfl
  | note item h =>
    refine .of_entries (note_requests ?_ _) rfl
    cases h
    rfl
  | _ => exact .of_entries rfl rfl

theorem Goes.unsent {K : Kind → Bool} (h : Goes env K a b)
    (hK : ∀ k, K k = true → k.unsent = true) :
    Unsent a b :=
  Goes.invariant (P := Unsent a) (fun _ k _ hk hm ha => ha.trans (hm.unsent (hK k hk))) h (.refl a)

/-! ## New ids -/

/-- An id that no entry and no request has. -/
structure Unused (a : Agent) (t : TransactionID) : Prop where
  drawn : t ≠ noTransaction
  entry : ∀ e ∈ a.entries, e.transactionID ≠ t
  request : ∀ p m, (p, m) ∈ a.requests → m.transactionID ≠ t

/-- The ids drawn in a step are new and differ. -/
structure Draws (a : Agent) (e : AgentEvent × AgentEnv) : Prop where
  unused : ∀ j t, e.2.randomTid j = some t → Unused a t
  apart : ∀ i j t, e.2.randomTid i = some t → e.2.randomTid j = some t → i = j

theorem Unused.unsent (h : Unused a t) (hs : Unsent a b) : Unused b t where
  drawn := h.drawn
  entry d hd := by
    rcases hs.entries d hd with ⟨e, he, hkin⟩ | hblank
    · rw [hkin.transactionID]
      exact h.entry e he
    · rw [hblank.transactionID]
      exact h.drawn.symm
  request p m hm := by
    rw [hs.requests] at hm
    exact h.request p m hm

/-- What an invariant of the ids of an agent has to withstand, where `K` are the moves that send
nothing. -/
structure Keeps (env : AgentEnv) (K : Kind → Bool) (P : Agent → Prop) : Prop where
  move : ∀ (a : Agent) (k : Kind) (b : Agent), K k = true → Move env a k b → P a → P b
  send : ∀ (a : Agent) (j : Nat) (e : StunEntry), a.entries[j]? = some e → e.type ≠ .server →
    e.state = .pending → e.nextTransmission ≤ env.now →
    (∀ t, env.randomTid j = some t → Unused a t) → P a → P (a.sendCheck env j)
  consent : ∀ (a : Agent) (j : Nat) (e : StunEntry), a.entries[j]? = some e → e.type ≠ .server →
    e.state = .succeededKeepalive → e.nextTransmission ≤ env.now →
    (∀ t, env.randomTid j = some t → Unused a t) → P a → P (a.keepAlive env j)
  resend : ∀ (a : Agent) (j : Nat) (e : StunEntry), a.entries[j]? = some e → e.type = .server →
    P a → P (a.noteRequest e none .udp (buildBindingRequest e.transactionID))
  pushServer : ∀ (a : Agent) (resolved : AddrRecord), a.entries.length < maxStunEntries →
    (∀ t, env.randomTid a.entries.length = some t → Unused a t) →
    P a → P (a.pushServer env resolved)

theorem Keeps.path {K K' : Kind → Bool} {P : Agent → Prop} (h : Keeps env K P)
    (hK : ∀ k, K' k = true → K k = true) (hg : Goes env K' a b) (ha : P a) : P b :=
  Goes.invariant (fun a k b hk hm ha => h.move a k b (hK k hk) hm ha) hg ha

/-! ## What a step sends -/

theorem encode_transactionID (m : Message) (password : Option Bytes) (creds : Option Credentials)
    (software : Option Bytes) : (m.encode password creds software).transactionID =
      m.transactionID := rfl

theorem requestAttributes_transactionID (e : StunEntry) (m : Message) :
    (a.requestAttributes env e m).transactionID = m.transactionID := by
  unfold requestAttributes
  dsimp only
  cases e.pair.bind a.localOf with
  | none =>
    dsimp only [Option.elim]
    split <;> split <;> first | rfl | split <;> rfl
  | some c =>
    dsimp only [Option.elim]
    split <;> split <;> split <;> first | rfl | split <;> rfl

theorem bindingRequest_transactionID (e : StunEntry) :
    (a.bindingRequest env e).transactionID = e.transactionID :=
  (encode_transactionID _ _ _ _).trans (requestAttributes_transactionID e _)

/-- What a check leaves: its entry may have a new id, and the log one more request with the id
of the entry. -/
theorem Unused.sendCheck (ht : Unused a t) (he : a.entries[j]? = some e)
    (hj : env.randomTid j ≠ some t) : Unused (a.sendCheck env j) t := by
  have htid : ∀ tid, transactionFor env j e = some tid → tid ≠ t := by
    intro tid htid
    unfold transactionFor at htid
    split at htid
    · rintro rfl
      exact hj htid
    · cases htid
      exact ht.entry e (List.mem_of_getElem? he)
  have hentries : ∀ tid, tid ≠ t → ∀ d ∈ (a.modifyEntry j fun _ => a.sentEntry e tid).entries,
      d.transactionID ≠ t := by
    intro tid hne
    exact forall_mem_modify ht.entry fun _ _ => hne
  rcases sendCheck_cases env he with heq | ⟨tid, hfor, ⟨route, _, _, heq⟩ | heq | heq⟩
  · rw [heq]
    exact ht
  · rw [heq]
    have hne := htid tid hfor
    refine ⟨ht.drawn, hentries tid hne, ?_⟩
    intro p m hm
    rw [noteRequest_requests] at hm
    rcases List.mem_append.mp hm with hm | hm
    · exact ht.request p m hm
    · cases List.mem_singleton.mp hm
      rw [bindingRequest_transactionID]
      exact hne
  · rw [heq]
    exact ⟨ht.drawn, hentries tid (htid tid hfor), ht.request⟩
  · rw [heq]
    refine ⟨ht.drawn, ?_, ?_⟩
    · rw [setPairState_entries]
      exact hentries tid (htid tid hfor)
    · rw [setPairState_requests]
      exact ht.request

theorem Transmits.unused (h : Transmits env a j b) (ht : Unused a t)
    (hj : env.randomTid j ≠ some t) : Unused b t := by
  cases h with
  | none => exact ht
  | check he => exact ht.sendCheck he hj
  | consent he _ hkeep hdue =>
    exact (ht.sendCheck he hj).unsent ((Move.keepAlive he hkeep hdue).unsent rfl)
  | @server e he =>
    refine ⟨ht.drawn, ht.entry, ?_⟩
    intro p m hm
    rw [noteRequest_requests] at hm
    rcases List.mem_append.mp hm with hm | hm
    · exact ht.request p m hm
    · cases List.mem_singleton.mp hm
      exact ht.entry e (List.mem_of_getElem? he)

section
variable {K : Kind → Bool} {P : Agent → Prop}

theorem Keeps.transmits {j : Nat} (h : Keeps env K P) (ht : Transmits env a j b)
    (hunused : ∀ t, env.randomTid j = some t → Unused a t) (ha : P a) : P b := by
  cases ht with
  | none => exact ha
  | check he htype hpending hdue => exact h.send a j _ he htype hpending hdue hunused ha
  | consent he htype hkeep hdue => exact h.consent a j _ he htype hkeep hdue hunused ha
  | server he htype => exact h.resend a j _ he htype ha

/-- The entries of a pass, one after the other: the ids of those to come are still new. -/
theorem Keeps.driveEntries (h : Keeps env K P) (hK : ∀ k, k.driven = true → K k = true)
    (hapart : ∀ i j t, env.randomTid i = some t → env.randomTid j = some t → i = j) {l : List Nat}
    (hl : l.Nodup) (hc : Checks a) (hunused : ∀ j ∈ l, ∀ t, env.randomTid j = some t → Unused a t)
    (ha : P a) : P (l.foldl (driveEntry env) a) := by
  induction l generalizing a with
  | nil => exact ha
  | cons j l ih =>
    obtain ⟨hnew, hl⟩ := List.nodup_cons.mp hl
    obtain ⟨b, hb, hpath⟩ := @Goes.driveEntry env a hc j
    have hPb : P b := h.transmits hb (hunused j List.mem_cons_self) ha
    refine ih hl ((hb.goes.checks hc) |> hpath.checks) ?_ (h.path hK hpath hPb)
    intro i hi t ht
    have hbefore : Unused b t := by
      refine hb.unused (hunused i (List.mem_cons_of_mem _ hi) t ht) ?_
      intro hj
      have hij := hapart i j t ht hj
      rw [hij] at hi
      exact hnew hi
    exact hbefore.unsent (hpath.unsent (by decide))

theorem Keeps.onBookkeeping (h : Keeps env K P) (hK : ∀ k, k.timed = true → k.unsent = true →
    K k = true) (hc : Checks a) {e : AgentEvent} (hdraws : Draws a (e, env)) (ha : P a) :
    P (a.onBookkeeping env) := by
  have hopening : ∀ k, k.opening = true → K k = true := fun k hk =>
    hK k (by revert k; decide) (by revert k; decide)
  have hdriven : ∀ k, k.driven = true → K k = true := fun k hk =>
    hK k (by revert k; decide) (by revert k; decide)
  have hclosing : ∀ k, k.closing = true → K k = true := by
    intro k hk
    refine hK k (by revert k; decide) ?_
    cases k <;> first | rfl | exact absurd hk (by decide)
  have hstart := @Goes.bookkeepingStart env a
  have hstartChecks := hstart.checks hc
  have hdrive : P (((a.gatherTimeout env).connectTimeouts env).driveEntries env) :=
    h.driveEntries hdriven hdraws.apart List.nodup_range hstartChecks
    (fun j _ t ht => (hdraws.unused j t ht).unsent (hstart.unsent (by decide)))
    (h.path hopening hstart ha)
  have hdriveChecks := (@Goes.driveEntries env _ hstartChecks).checks hstartChecks
  exact h.path hclosing (Goes.bookkeepingEnd hdriveChecks) hdrive

/-- Arming pairs takes no entry away. -/
theorem Goes.length_le (h : Goes env Kind.arming a b) : a.entries.length ≤ b.entries.length := by
  cases hn : a.entries.length with
  | zero => exact Nat.zero_le _
  | succ n =>
    have hlt : n < a.entries.length := by omega
    have hkept := (h.mono (by decide)).entry_kept (List.getElem?_eq_getElem hlt)
    obtain ⟨d, hd, _⟩ := hkept
    exact (List.getElem?_eq_some_iff.mp hd).1

theorem pushServer_requests (a : Agent) (resolved : AddrRecord) :
    (a.pushServer env resolved).requests = a.requests ++
      [(none, buildBindingRequest ((env.randomTid a.entries.length).getD noTransaction))] := by
  unfold pushServer
  exact noteRequest_requests a (a.serverEntry env resolved) none .udp _

theorem pushServer_entries (a : Agent) (resolved : AddrRecord) :
    (a.pushServer env resolved).entries = a.entries ++
      [{ type := .server, state := .pending, record := some resolved
         transactionID := (env.randomTid a.entries.length).getD noTransaction
         nextTransmission := env.now + minStunRetransmissionTimeoutMs
         serial := a.tally.created }] := rfl

theorem Unused.pushServer {t : TransactionID} (h : Unused a t) (resolved : AddrRecord)
    (ht : env.randomTid a.entries.length ≠ some t) : Unused (a.pushServer env resolved) t := by
  have hne : (env.randomTid a.entries.length).getD noTransaction ≠ t := by
    cases hdraw : env.randomTid a.entries.length with
    | none => exact h.drawn.symm
    | some u =>
      rintro rfl
      exact ht hdraw
  refine ⟨h.drawn, ?_, ?_⟩
  · rw [pushServer_entries]
    exact forall_mem_concat h.entry hne
  · intro p m hm
    rw [pushServer_requests] at hm
    rcases List.mem_append.mp hm with hm | hm
    · exact h.request p m hm
    · cases List.mem_singleton.mp hm
      exact hne

/-- The ids for entries to come are new. -/
def Ahead (env : AgentEnv) (a : Agent) : Prop :=
  ∀ j t, a.entries.length ≤ j → env.randomTid j = some t → Unused a t

theorem Ahead.arming (h : Ahead env a) (hg : Goes env Kind.arming a b) : Ahead env b :=
  fun j t hj ht => (h j t (hg.length_le.trans hj) ht).unsent (hg.unsent (by decide))

theorem Keeps.gatherItem (h : Keeps env K P) (hK : ∀ k, k.arming = true → K k = true)
    (hapart : ∀ i j t, env.randomTid i = some t → env.randomTid j = some t → i = j)
    (item : GatherItem) (ha : P a ∧ Ahead env a) :
    P (a.gatherItem env item) ∧ Ahead env (a.gatherItem env item) := by
  obtain ⟨ha, hahead⟩ := ha
  cases item with
  | stun host port =>
    unfold Agent.gatherItem Agent.createServerReflexiveEntry
    dsimp only
    split
    · exact ⟨ha, hahead⟩
    · split
      · exact ⟨ha, hahead⟩
      · rename_i hroom
        have hlt := Nat.lt_of_not_le (not_or.mp hroom).1
        refine ⟨h.pushServer a _ hlt (fun t ht => hahead _ t (le_refl _) ht) ha, ?_⟩
        intro j t hj ht
        rw [pushServer_entries, List.length_append, List.length_singleton] at hj
        refine (hahead j t (by omega) ht).pushServer _ ?_
        intro hlen
        have := hapart _ _ t ht hlen
        omega
  | turn srv index =>
    have hpath := Goes.gatherRelayWith (@Goes.armNextFrozenPair env) a (srv, index)
    exact ⟨h.path hK hpath ha, hahead.arming hpath⟩

theorem Keeps.gatherCandidatesWorker (h : Keeps env K P) (hK : ∀ k, k.arming = true → K k = true)
    (hworker : K .worker = true) (hdraws : Draws a (.gatherCandidatesWorker, env)) (ha : P a) :
    P (a.gatherCandidatesWorker env) := by
  have hfold : ∀ (items : List GatherItem) (a : Agent), P a ∧ Ahead env a →
      P (items.foldl (Agent.gatherItem env) a) := by
    intro items
    induction items with
    | nil => exact fun a ha => ha.1
    | cons item items ih => exact fun a ha => ih _ (h.gatherItem hK hdraws.apart item ha)
  unfold Agent.gatherCandidatesWorker
  split
  · exact ha
  · rename_i items _
    have htaken : P { a with gatherWorker := none } := h.move a .worker _ hworker (.worker none) ha
    refine h.path hK (Goes.settleGathering _) (hfold items _ ⟨htaken, ?_⟩)
    intro j t _ ht
    have hunused := hdraws.unused j t ht
    exact ⟨hunused.drawn, hunused.entry, hunused.request⟩

/-- What an invariant of the ids withstands move by move, it withstands step by step. -/
theorem Keeps.step (h : Keeps env K P) (hc : Checks a) (e : AgentEvent)
    (hK : ∀ k, moves e k = true → k.unsent = true → K k = true) (hdraws : Draws a (e, env))
    (ha : P a) : P (a.step (e, env)) := by
  have hgoes := @Goes.step env a hc e
  have hquiet : (∀ k, moves e k = true → k.unsent = true) → P (a.step (e, env)) := fun hsent =>
    h.path (fun k hk => hK k hk (hsent k hk)) hgoes ha
  cases e with
  | onBookkeeping => exact h.onBookkeeping hK hc hdraws ha
  | gatherCandidatesWorker =>
    refine h.gatherCandidatesWorker (fun k hk => hK k ?_ ?_) (hK .worker rfl rfl) hdraws ha
    · revert k; decide
    · revert k; decide
  | gatherWorkerLost => exact h.move a .worker _ (hK .worker rfl rfl) (.worker none) ha
  | _ =>
    refine hquiet fun k hk => ?_
    cases k <;> first | rfl | cases hk

end

/-! ## An id belongs to one entry -/

/-- Every id that was drawn belongs to one entry, and the requests with it were for its pair. -/
structure Traced (a : Agent) : Prop where
  unique : a.ids.Pairwise fun s t => s = t → s = noTransaction
  owner : ∀ e ∈ a.entries, e.transactionID ≠ noTransaction →
    ∀ p m, (p, m) ∈ a.requests → m.transactionID = e.transactionID → p = e.pair
  named : ∀ e ∈ a.entries, e.type ≠ .server → e.transactionIdExpired = false →
    e.transactionID ≠ noTransaction

theorem Traced.eq_of_id (h : Traced a) {d e : StunEntry} (hd : d ∈ a.entries) (he : e ∈ a.entries)
    (hid : d.transactionID = e.transactionID) (hne : d.transactionID ≠ noTransaction) : d = e := by
  have hpairs := List.pairwise_iff_getElem.mp (List.pairwise_map.mp h.unique)
  obtain ⟨i, hi, rfl⟩ := List.getElem_of_mem hd
  obtain ⟨j, hj, rfl⟩ := List.getElem_of_mem he
  rcases Nat.lt_trichotomy i j with hlt | rfl | hlt
  · exact absurd (hpairs i j hi hj hlt hid) hne
  · rfl
  · rw [hid] at hne
    exact absurd (hpairs j i hj hi hlt hid.symm) hne

theorem Traced.unsent (h : Traced a) (hs : Unsent a b) : Traced b where
  unique := by
    obtain ⟨n, hn⟩ := hs.ids
    refine List.Pairwise.sublist hn (List.pairwise_append.mpr ⟨h.unique, ?_, ?_⟩)
    · exact List.pairwise_replicate.mpr (.inr fun _ => rfl)
    · intro s _ t ht hst
      rw [hst]
      exact List.eq_of_mem_replicate ht
  owner d hd hne p m hm hid := by
    rw [hs.requests] at hm
    rcases hs.entries d hd with ⟨e, he, hkin⟩ | hblank
    · rw [hkin.transactionID] at hne hid
      rw [hkin.pair]
      exact h.owner e he hne p m hm hid
    · exact absurd hblank.transactionID hne
  named d hd htype hexpired := by
    rcases hs.entries d hd with ⟨e, he, hkin⟩ | hblank
    · rw [hkin.transactionID]
      exact h.named e he (hkin.type ▸ htype) (hkin.expired hexpired)
    · rw [hblank.expired] at hexpired
      cases hexpired

/-- The id a check is sent with: the one its entry has, or a new one. -/
structure SentWith (a : Agent) (e : StunEntry) (tid : TransactionID) : Prop where
  cases : tid = e.transactionID ∧ e.transactionIdExpired = false ∨ Unused a tid

theorem SentWith.of_transactionFor (h : transactionFor env j e = some tid)
    (hunused : ∀ t, env.randomTid j = some t → Unused a t) : SentWith a e tid := by
  unfold transactionFor at h
  split at h
  · exact ⟨.inr (hunused tid h)⟩
  · rename_i hexpired
    cases h
    exact ⟨.inl ⟨rfl, Bool.eq_false_of_not_eq_true hexpired⟩⟩

theorem Traced.sent_drawn (h : Traced a) (he : a.entries[j]? = some e) (htype : e.type ≠ .server)
    (hsent : SentWith a e tid) : tid ≠ noTransaction := by
  rcases hsent.cases with ⟨rfl, hexpired⟩ | hunused
  · exact h.named e (List.mem_of_getElem? he) htype hexpired
  · exact hunused.drawn

/-- An entry with the id of a request is the one that was sent. -/
theorem Traced.owner_of_sent {d e : StunEntry} {tid : TransactionID} (h : Traced a)
    (he : a.entries[j]? = some e) (htype : e.type ≠ .server) (hsent : SentWith a e tid)
    (hd : d ∈ a.entries) (hid : d.transactionID = tid) : d = e := by
  have hne := h.sent_drawn he htype hsent
  rcases hsent.cases with ⟨htid, _⟩ | hunused
  · exact h.eq_of_id hd (List.mem_of_getElem? he) (hid.trans htid) (by rw [hid]; exact hne)
  · exact absurd hid (hunused.entry d hd)

/-- An entry has been sent with an id: what its request is to the others. -/
theorem Traced.sent (h : Traced a)
    (he : a.entries[j]? = some e) (htype : e.type ≠ .server) (hsent : SentWith a e tid)
    (hentries : b.entries = a.entries.modify j fun _ => a.sentEntry e tid)
    (hrequests : b.requests = a.requests ∨
      ∃ m, m.transactionID = tid ∧ b.requests = a.requests ++ [(e.pair, m)]) : Traced b := by
  have hmem := List.mem_of_getElem? he
  have hne := h.sent_drawn he htype hsent
  have howner : ∀ p m, (p, m) ∈ b.requests → m.transactionID = tid → p = e.pair := by
    intro p m hm hid
    have hbefore : (p, m) ∈ a.requests → p = e.pair := by
      intro hm
      rcases hsent.cases with ⟨htid, _⟩ | hunused
      · exact h.owner e hmem (by rw [← htid]; exact hne) p m hm (hid.trans htid)
      · exact absurd hid (hunused.request p m hm)
    rcases hrequests with hsame | ⟨m', _, hmore⟩
    · rw [hsame] at hm
      exact hbefore hm
    · rw [hmore] at hm
      rcases List.mem_append.mp hm with hm | hm
      · exact hbefore hm
      · cases List.mem_singleton.mp hm
        rfl
  refine ⟨?_, ?_, ?_⟩
  · have hids : b.ids = a.ids.set j tid := by
      unfold ids
      rw [hentries, List.modify_eq_set_getElem?, he]
      simp [List.map_set, sentEntry]
    rw [hids]
    rcases hsent.cases with ⟨htid, _⟩ | hunused
    · have hsame : a.ids.set j tid = a.ids := by
        refine List.ext_getElem? fun k => ?_
        rw [List.getElem?_set]
        split
        · rename_i hjk
          subst hjk
          have hget : a.ids[j]? = some tid := by
            unfold ids
            rw [List.getElem?_map, he, htid]
            rfl
          rw [hget]
          simp [(List.getElem?_eq_some_iff.mp hget).1]
        · rfl
      rw [hsame]
      exact h.unique
    · refine pairwise_set h.unique ?_ j
      intro t ht
      obtain ⟨d, hd, rfl⟩ := List.mem_map.mp ht
      exact ⟨fun hid => absurd hid.symm (hunused.entry d hd),
        fun hid => absurd hid (hunused.entry d hd)⟩
  · rw [hentries]
    refine forall_mem_modify ?_ fun d hd => ?_
    · intro d hd hnedraw p m hm hid
      by_cases hdtid : d.transactionID = tid
      · rw [h.owner_of_sent he htype hsent hd hdtid]
        exact howner p m hm (hid.trans hdtid)
      · refine h.owner d hd hnedraw p m ?_ hid
        rcases hrequests with hsame | ⟨m', hm', hmore⟩
        · rwa [hsame] at hm
        · rw [hmore] at hm
          rcases List.mem_append.mp hm with hm | hm
          · exact hm
          · cases List.mem_singleton.mp hm
            exact absurd (hid.symm.trans hm') hdtid
    · exact fun _ p m hm hid => howner p m hm hid
  · rw [hentries]
    refine forall_mem_modify h.named fun d hd => ?_
    exact fun _ _ => hne

theorem Traced.sendCheck (h : Traced a) (he : a.entries[j]? = some e) (htype : e.type ≠ .server)
    (hunused : ∀ t, env.randomTid j = some t → Unused a t) : Traced (a.sendCheck env j) := by
  rcases sendCheck_cases env he with heq | ⟨tid, hfor, hcases⟩
  · rw [heq]
    exact h
  · have hsent := SentWith.of_transactionFor hfor hunused
    rcases hcases with ⟨route, _, _, heq⟩ | heq | heq
    · rw [heq]
      exact h.sent he htype hsent rfl (.inr ⟨_, bindingRequest_transactionID _,
        noteRequest_requests _ _ e.pair route _⟩)
    · rw [heq]
      exact h.sent he htype hsent rfl (.inl rfl)
    · rw [heq]
      exact h.sent he htype hsent (by rw [setPairState_entries]; rfl)
        (.inl (by rw [setPairState_requests]; rfl))

theorem Traced.resend (h : Traced a) (he : a.entries[j]? = some e)
    (hpair : e.pair = none) :
    Traced (a.noteRequest e none .udp (buildBindingRequest e.transactionID)) where
  unique := h.unique
  owner d hd hne p m hm hid := by
    rw [noteRequest_requests] at hm
    rcases List.mem_append.mp hm with hm | hm
    · exact h.owner d hd hne p m hm hid
    · cases List.mem_singleton.mp hm
      have hid : e.transactionID = d.transactionID := hid
      rw [h.eq_of_id hd (List.mem_of_getElem? he) hid.symm hne]
      exact hpair.symm
  named := h.named

theorem Traced.pushServer (h : Traced a) (resolved : AddrRecord)
    (hunused : ∀ t, env.randomTid a.entries.length = some t → Unused a t) :
    Traced (a.pushServer env resolved) := by
  cases hdraw : env.randomTid a.entries.length with
  | none =>
    -- without an id the entry has the id of none
    refine ⟨?_, ?_, ?_⟩
    · unfold ids
      rw [pushServer_entries, hdraw, List.map_append]
      refine List.pairwise_append.mpr ⟨h.unique, List.pairwise_singleton _ _, ?_⟩
      intro s _ t ht hst
      rw [hst]
      exact List.mem_singleton.mp ht
    · rw [pushServer_entries, pushServer_requests, hdraw]
      refine forall_mem_concat ?_ fun hne => absurd rfl hne
      intro d hd hne p m hm hid
      rcases List.mem_append.mp hm with hm | hm
      · exact h.owner d hd hne p m hm hid
      · cases List.mem_singleton.mp hm
        exact absurd hid.symm hne
    · rw [pushServer_entries]
      exact forall_mem_concat h.named fun hne => absurd rfl hne
  | some u =>
    have hu := hunused u hdraw
    refine ⟨?_, ?_, ?_⟩
    · unfold ids
      rw [pushServer_entries, hdraw, List.map_append]
      refine List.pairwise_append.mpr ⟨h.unique, List.pairwise_singleton _ _, ?_⟩
      intro s hs t ht hst
      obtain ⟨d, hd, rfl⟩ := List.mem_map.mp hs
      have ht : t = u := List.mem_singleton.mp ht
      exact absurd (hst.trans ht) (hu.entry d hd)
    · rw [pushServer_entries, pushServer_requests, hdraw]
      refine forall_mem_concat ?_ ?_
      · intro d hd hne p m hm hid
        rcases List.mem_append.mp hm with hm | hm
        · exact h.owner d hd hne p m hm hid
        · cases List.mem_singleton.mp hm
          exact absurd hid.symm (hu.entry d hd)
      · intro _ p m hm hid
        rcases List.mem_append.mp hm with hm | hm
        · exact absurd hid (hu.request p m hm)
        · cases List.mem_singleton.mp hm
          rfl
    · rw [pushServer_entries]
      exact forall_mem_concat h.named fun hne => absurd rfl hne

/-- The entries of checks are those with a pair. -/
theorem Checks.server_pair (h : Checks a) {e : StunEntry} (he : e ∈ a.entries)
    (htype : e.type = .server) : e.pair = none := by
  by_contra hne
  have hcheck := (h e he).of_pair hne
  rw [htype] at hcheck
  cases hcheck

theorem Traced.keeps : Keeps env Kind.unsent fun a => Traced a ∧ Checks a where
  move _ _ _ hk hm h := ⟨h.1.unsent (hm.unsent hk), hm.checks h.2⟩
  send a j e he htype hpending hdue hunused h :=
    ⟨h.1.sendCheck he htype hunused, Move.checks (.send j he htype (.inl hpending) hdue) h.2⟩
  consent a j e he htype hkeep hdue hunused h := by
    have hnext := @Move.keepAlive env a j e he hkeep hdue
    exact ⟨(h.1.sendCheck he htype hunused).unsent (hnext.unsent rfl),
      hnext.checks (Move.checks (.send j he htype (.inr hkeep) hdue) h.2)⟩
  resend a j e he htype h :=
    ⟨h.1.resend he (h.2.server_pair (List.mem_of_getElem? he) htype), h.2⟩
  pushServer a resolved _ hunused h :=
    ⟨h.1.pushServer resolved hunused, forall_mem_concat h.2
      ⟨fun h => absurd rfl h, fun _ h => StunEntryState.noConfusion h⟩⟩

theorem Traced.step (hc : Checks a) (e : AgentEvent) (hdraws : Draws a (e, env)) (h : Traced a) :
    Traced (a.step (e, env)) :=
  (Traced.keeps.step hc e (fun _ _ hk => hk) hdraws ⟨h, hc⟩).1

end Agent

end Stice.Ice
