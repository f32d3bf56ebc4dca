import Stice.Net.Mdns
import Stice.Lib.Reach

/-! The queries of the mDNS client: `query` takes one in, an answer for its name or its deadline
takes it out. The callbacks of those timed out run after the lock is given back, so such a query
is held by the thread that found it. -/
namespace Stice.Net.Mdns

variable {ntop : InetNtop} {c : MDnsClient}

def kQueryIntervalMs : Nat := 1000
def kQueryTimeoutMs : Nat := 5000

structure PendingQuery where
  id : Nat
  hostname : Bytes
  deadline : Nat
  lastSent : Nat
  deriving DecidableEq, Repr

/-- What made a callback run. -/
inductive Cause
  | answer (packet : Bytes) (ans : DnsAnswer)
  | timeout (now : Nat)
  deriving DecidableEq, Repr

/-- A call of the callback of `query` with `addr`. -/
structure Call where
  query : PendingQuery
  addr : Bytes
  cause : Cause
  deriving DecidableEq, Repr

/-- The client; `accepted` are the queries it has taken in. -/
structure MDnsClient where
  disabled : Bool := false
  queries : List PendingQuery := []
  timedOut : List (PendingQuery × Nat) := []
  calls : List Call := []
  sent : List Bytes := []
  accepted : List PendingQuery := []

/-- `inet_ntop`, which writes a text for any address. -/
structure InetNtop where
  inet : { b : Bytes // b.length = 4 } → { t : Bytes // t ≠ [] }
  inet6 : { b : Bytes // b.length = 16 } → { t : Bytes // t ≠ [] }

def stripDot (name : Bytes) : Bytes := if name.getLast? = some 46 then name.dropLast else name

def toLower (name : Bytes) : Bytes :=
  name.map fun c => if 65 ≤ c ∧ c ≤ 90 then c + 32 else c

/-- The part of `query` under the lock. -/
def MDnsClient.query (c : MDnsClient) (hostname : Bytes) (now : Nat) : MDnsClient × Bool :=
  if c.disabled then (c, false)
  else
    let pq := ⟨c.accepted.length, stripDot hostname, now + kQueryTimeoutMs, 0⟩
    ({ c with queries := c.queries ++ [pq], accepted := c.accepted ++ [pq] }, true)

def PendingQuery.touch (q : PendingQuery) (now : Nat) : PendingQuery :=
  if q.lastSent ≤ now then { q with lastSent := now + kQueryIntervalMs } else q

/-- `sendPendingQueries` up to the callbacks. -/
def MDnsClient.sendPendingQueries (c : MDnsClient) (now : Nat) : MDnsClient :=
  let live := c.queries.filter fun q => ¬ q.deadline ≤ now
  { c with
    queries := live.map (·.touch now)
    timedOut := c.timedOut ++ (c.queries.filter fun q => q.deadline ≤ now).map (·, now)
    sent := c.sent ++ (live.filter fun q => q.lastSent ≤ now).flatMap fun q =>
      [encodeQuery q.hostname kDnsTypeA, encodeQuery q.hostname kDnsTypeAAAA] }

/-- One of the timeout callbacks. -/
def MDnsClient.fireTimeout (c : MDnsClient) (i : Nat) : MDnsClient :=
  match c.timedOut[i]? with
  | some (q, now) =>
    { c with timedOut := c.timedOut.eraseIdx i, calls := c.calls ++ [⟨q, [], .timeout now⟩] }
  | none => c

/-- An answer `run` looks at, for the name of the query. -/
def DnsAnswer.answers (ans : DnsAnswer) (q : PendingQuery) : Bool :=
  (ans.type = kDnsTypeA ∨ ans.type = kDnsTypeAAAA) ∧
    toLower q.hostname = toLower (stripDot ans.name)

/-- The text of the address; empty if the data has the wrong length. -/
def DnsAnswer.address (ntop : InetNtop) (ans : DnsAnswer) : Bytes :=
  if h : ans.type = kDnsTypeA ∧ ans.rdata.length = 4 then (ntop.inet ⟨ans.rdata, h.2⟩).1
  else if h : ans.type = kDnsTypeAAAA ∧ ans.rdata.length = 16 then
    (ntop.inet6 ⟨ans.rdata, h.2⟩).1
  else []

def MDnsClient.handleAnswer (ntop : InetNtop) (packet : Bytes) (c : MDnsClient)
    (ans : DnsAnswer) : MDnsClient :=
  { c with
    queries := c.queries.filter fun q => !ans.answers q
    calls := c.calls ++ if ans.address ntop = [] then [] else
      (c.queries.filter ans.answers).map fun q => ⟨q, ans.address ntop, .answer packet ans⟩ }

/-- The answers of a packet; those of one that does not parse are dropped. -/
def packetAnswers (packet : Bytes) : List DnsAnswer :=
  match parseMessage packet with
  | some m => if m.ok then m.answers else []
  | none => []

/-- What the two threads do between taking and giving back the lock, and the callbacks between. -/
inductive Event
  | query (hostname : Bytes) (now : Nat)
  | sendPendingQueries (now : Nat)
  | fireTimeout (i : Nat)
  | packet (data : Bytes)

def MDnsClient.step (ntop : InetNtop) (c : MDnsClient) : Event → MDnsClient
  | .query hostname now => (c.query hostname now).1
  | .sendPendingQueries now => c.sendPendingQueries now
  | .fireTimeout i => c.fireTimeout i
  | .packet data => (packetAnswers data).foldl (MDnsClient.handleAnswer ntop data) c

/-- A length that fits the type. -/
def DnsAnswer.sized (ans : DnsAnswer) : Bool :=
  (ans.type = kDnsTypeA ∧ ans.rdata.length = 4) ∨
    (ans.type = kDnsTypeAAAA ∧ ans.rdata.length = 16)

/-- The first answer of the packet for a pending query has a length that fits its type. -/
def MDnsClient.Readable (c : MDnsClient) : Event → Prop
  | .packet data => ∀ q ∈ c.queries, ∀ ans,
      (packetAnswers data).find? (DnsAnswer.answers · q) = some ans → ans.sized
  | _ => True

/-- The calls that a query may see. -/
def Call.Due (ntop : InetNtop) (call : Call) : Prop :=
  match call.cause with
  | .answer packet ans => ans ∈ packetAnswers packet ∧ ans.answers call.query ∧ ans.sized ∧
      call.addr = ans.address ntop ∧ call.addr ≠ []
  | .timeout now => call.query.deadline ≤ now ∧ call.addr = []

/-- What a query keeps. -/
def PendingQuery.key (q : PendingQuery) : Nat × Bytes × Nat := (q.id, q.hostname, q.deadline)

/-- Where a query may be: pending, with the thread that found it late, or called back. -/
def MDnsClient.held (c : MDnsClient) : List (Nat × Bytes × Nat) :=
  c.queries.map (·.key) ++ (c.timedOut.map (·.1.key) ++ c.calls.map (·.query.key))

/-- Every query taken in is in one of the places, and only there. -/
structure MDnsClient.Kept (ntop : InetNtop) (c : MDnsClient) : Prop where
  held : c.held.Perm (c.accepted.map (·.key))
  ids : c.accepted.map (·.id) = List.range c.accepted.length
  late : ∀ x ∈ c.timedOut, x.1.deadline ≤ x.2
  due : ∀ call ∈ c.calls, call.Due ntop

theorem PendingQuery.touch_key (q : PendingQuery) (now : Nat) : (q.touch now).key = q.key := by
  unfold touch
  split <;> rfl

theorem MDnsClient.Kept.query (hc : c.Kept ntop)
    (hostname : Bytes) (now : Nat) : (c.query hostname now).1.Kept ntop := by
  unfold MDnsClient.query
  split
  · exact hc
  · refine ⟨?_, ?_, hc.late, hc.due⟩
    · simp only [MDnsClient.held, List.map_append, List.append_assoc]
      exact (List.perm_middle.trans (hc.held.cons _)).trans (List.perm_append_singleton _ _).symm
    · simp only [List.map_append, hc.ids, List.length_append, List.range_succ, List.map_cons,
        List.map_nil, List.length_cons, List.length_nil, Nat.zero_add]

theorem MDnsClient.Kept.sendPendingQueries (hc : c.Kept ntop)
    (now : Nat) : (c.sendPendingQueries now).Kept ntop := by
  refine ⟨?_, hc.ids, ?_, hc.due⟩
  · have hsplit := (List.filter_append_perm (fun q : PendingQuery => decide (q.deadline ≤ now))
      c.queries).map (·.key)
    rw [List.perm_iff_count] at hsplit
    refine List.Perm.trans ?_ hc.held
    rw [List.perm_iff_count]
    intro k
    have := hsplit k
    simp only [MDnsClient.held, MDnsClient.sendPendingQueries, List.map_map, List.map_append,
      Function.comp_def, PendingQuery.touch_key, List.count_append] at this ⊢
    simp only [decide_not] at this ⊢
    omega
  · intro x hx
    rcases List.mem_append.mp hx with h | h
    · exact hc.late x h
    · obtain ⟨q, hq, rfl⟩ := List.mem_map.mp h
      exact of_decide_eq_true (List.mem_filter.mp hq).2

theorem MDnsClient.Kept.fireTimeout (hc : c.Kept ntop) (i : Nat) : (c.fireTimeout i).Kept ntop := by
  unfold MDnsClient.fireTimeout
  split
  · rename_i q now hi
    obtain ⟨hlt, hat⟩ := List.getElem?_eq_some_iff.mp hi
    refine ⟨?_, hc.ids, fun x hx => hc.late x (List.mem_of_mem_eraseIdx hx), ?_⟩
    · have hout := (List.getElem_cons_eraseIdx_perm hlt).map (·.1.key)
      rw [List.perm_iff_count] at hout
      refine List.Perm.trans ?_ hc.held
      rw [List.perm_iff_count]
      intro k
      have := hout k
      rw [hat] at this
      simp only [MDnsClient.held, List.map_append, List.map_cons, List.map_nil, List.count_append,
        List.count_cons, List.count_nil] at this ⊢
      omega
    · intro call hcall
      rcases List.mem_append.mp hcall with h | h
      · exact hc.due call h
      · cases List.mem_singleton.mp h
        exact ⟨hc.late (q, now) (List.mem_of_getElem? hi), rfl⟩
  · exact hc

theorem DnsAnswer.address_ne_nil {ans : DnsAnswer} (h : ans.sized) : ans.address ntop ≠ [] := by
  unfold DnsAnswer.address
  split
  · exact (ntop.inet _).2
  · split
    · exact (ntop.inet6 _).2
    · rename_i hA hAAAA
      exact absurd (of_decide_eq_true h) (not_or.mpr ⟨hA, hAAAA⟩)

/-- An answer takes out the queries it is for and calls each of them back. -/
theorem MDnsClient.Kept.handleAnswer {packet : Bytes} {ans : DnsAnswer} (hc : c.Kept ntop)
    (hans : ans ∈ packetAnswers packet) (hsized : ∀ q ∈ c.queries, ans.answers q → ans.sized) :
    (c.handleAnswer ntop packet ans).Kept ntop := by
  have hempty : ans.address ntop = [] → c.queries.filter ans.answers = [] := by
    intro haddr
    rw [List.filter_eq_nil_iff]
    intro q hq h
    exact DnsAnswer.address_ne_nil (hsized q hq h) haddr
  have hcalls : (c.handleAnswer ntop packet ans).calls = c.calls ++
      (c.queries.filter ans.answers).map fun q => ⟨q, ans.address ntop, .answer packet ans⟩ := by
    unfold MDnsClient.handleAnswer
    split
    · rename_i haddr
      rw [hempty haddr]
      rfl
    · rfl
  refine ⟨?_, hc.ids, hc.late, ?_⟩
  · have hsplit := (List.filter_append_perm ans.answers c.queries).map (·.key)
    rw [List.perm_iff_count] at hsplit
    refine List.Perm.trans ?_ hc.held
    rw [List.perm_iff_count]
    intro k
    have := hsplit k
    rw [MDnsClient.held, hcalls]
    simp only [MDnsClient.held, MDnsClient.handleAnswer, List.map_append, List.map_map,
      Function.comp_def, List.count_append] at this ⊢
    omega
  · intro call hcall
    rw [hcalls] at hcall
    rcases List.mem_append.mp hcall with h | h
    · exact hc.due call h
    · obtain ⟨q, hq, rfl⟩ := List.mem_map.mp h
      obtain ⟨hq, hanswers⟩ := List.mem_filter.mp hq
      have := hsized q hq hanswers
      exact ⟨hans, hanswers, this, rfl, DnsAnswer.address_ne_nil this⟩

/-- A query that is still pending was for none of the answers before, so the first one of the
packet for it is the first one of the rest. -/
theorem MDnsClient.Kept.handleAnswers {packet : Bytes} {answers : List DnsAnswer}
    (hin : ∀ ans ∈ answers, ans ∈ packetAnswers packet) {c : MDnsClient} (hc : c.Kept ntop)
    (hfirst : ∀ q ∈ c.queries, ∀ ans, answers.find? (DnsAnswer.answers · q) = some ans →
      ans.sized) : (answers.foldl (MDnsClient.handleAnswer ntop packet) c).Kept ntop := by
  induction answers generalizing c with
  | nil => exact hc
  | cons ans answers ih =>
    refine ih (fun a ha => hin a (List.mem_cons_of_mem _ ha)) ?_ ?_
    · refine hc.handleAnswer (hin ans List.mem_cons_self) ?_
      intro q hq h
      exact hfirst q hq ans (List.find?_cons_of_pos h)
    · intro q hq a ha
      obtain ⟨hq, hother⟩ := List.mem_filter.mp hq
      refine hfirst q hq a ?_
      rw [List.find?_cons_of_neg (by simpa using hother)]
      exact ha

theorem MDnsClient.Kept.step (hc : c.Kept ntop) (e : Event)
    (hok : c.Readable e) : (c.step ntop e).Kept ntop := by
  cases e with
  | query hostname now => exact hc.query hostname now
  | sendPendingQueries now => exact hc.sendPendingQueries now
  | fireTimeout i => exact hc.fireTimeout i
  | packet data => exact MDnsClient.Kept.handleAnswers (fun _ h => h) hc hok

theorem MDnsClient.Kept.start (ntop : InetNtop) (disabled : Bool) :
    MDnsClient.Kept ntop { disabled } :=
  ⟨.refl _, rfl, List.forall_mem_nil _, List.forall_mem_nil _⟩

/-- The clients that start without queries. -/
def MDnsClient.Reached (ntop : InetNtop) : MDnsClient → Prop :=
  Lib.Reach (fun c => ∃ disabled, c = { disabled }) (Lib.Guarded MDnsClient.Readable (·.step ntop))

/-- The callback of a query has run once when the query is neither pending nor with the thread
that found it late, and not at all before; it ran with the address of an answer or, after the
deadline, with the empty string. -/
theorem queries_called_once {ntop : InetNtop} {c : MDnsClient} (h : c.Reached ntop) :
    (∀ call ∈ c.calls, call.Due ntop) ∧ (∀ x ∈ c.timedOut, x.1.deadline ≤ x.2) ∧
    ∀ q ∈ c.accepted, (c.calls.map (·.query.key)).count q.key =
      if q.key ∈ c.queries.map (·.key) ∨ q.key ∈ c.timedOut.map (·.1.key) then 0 else 1 := by
  have hkept : c.Kept ntop := by
    refine h.invariant ?_ ?_
    · rintro _ ⟨disabled, rfl⟩
      exact .start ntop disabled
    · rintro _ e _ hs ⟨hok, rfl⟩
      exact hs.step e hok
  refine ⟨hkept.due, hkept.late, ?_⟩
  intro q hq
  have hnodup : (c.accepted.map (·.key)).Nodup := by
    refine List.Nodup.of_map Prod.fst ?_
    rw [List.map_map, show Prod.fst ∘ PendingQuery.key = PendingQuery.id from rfl, hkept.ids]
    exact List.nodup_range
  have hone := List.count_eq_one_of_mem hnodup (List.mem_map_of_mem hq)
  rw [← hkept.held.count_eq, MDnsClient.held, List.count_append, List.count_append] at hone
  simp only [← List.count_pos_iff]
  split <;> omega

/-- An A answer for `b` with the data `rdata`. -/
def answerFor (rdata : Bytes) : Bytes :=
  be16 0 ++ (be16 0x8400 ++ (be16 0 ++ (be16 1 ++ (be16 0 ++ (be16 0 ++ (encodeName [98] ++
    (be16 kDnsTypeA ++ (be16 kDnsClassIN ++ (be32 kResponseTTL ++
      (be16 (UInt16.ofNat rdata.length) ++ rdata))))))))))

theorem packetAnswers_answerFor {rdata : Bytes} (hne : rdata ≠ []) (hlt : rdata.length < 65536) :
    packetAnswers (answerFor rdata) = [⟨[98], kDnsTypeA, kDnsClassIN, kResponseTTL, rdata⟩] := by
  have hname : HostName [98] := by
    unfold HostName
    decide
  have hlength : rdata.length = (UInt16.ofNat rdata.length).toNat := by
    rw [UInt16.toNat_ofNat', Nat.mod_eq_of_lt hlt]
  have hparse := parseMessage_answer _ hname hlength hne (show answerFor rdata = _ from rfl)
  rw [packetAnswers, hparse]
  rfl

/-- An `inet_ntop` that writes no `::`. -/
def numericNtop : InetNtop where
  inet
    | ⟨[b0, b1, b2, b3], _⟩ => ⟨text4 [b0, b1, b2, b3], by simp [text4]⟩
  inet6 b := ⟨text6 b.1, by simp [text6, List.range, List.range.loop]⟩

/-- The client behind a query for `b` and an answer with `rdata`. -/
def asked (rdata : Bytes) : MDnsClient :=
  (MDnsClient.step numericNtop (MDnsClient.step numericNtop {} (.query [98] 0))
    (.packet (answerFor rdata)))

theorem asked_eq {rdata : Bytes} (hne : rdata ≠ []) (hlt : rdata.length < 65536) :
    asked rdata = MDnsClient.handleAnswer numericNtop (answerFor rdata)
      (MDnsClient.step numericNtop {} (.query [98] 0))
      ⟨[98], kDnsTypeA, kDnsClassIN, kResponseTTL, rdata⟩ := by
  have hanswers := packetAnswers_answerFor hne hlt
  exact congrArg (List.foldl (MDnsClient.handleAnswer numericNtop (answerFor rdata)) _) hanswers

theorem queries_called_once_answered :
    (asked [10, 0, 0, 1]).Reached numericNtop ∧
      ((asked [10, 0, 0, 1]).calls.map (·.query.key)).count (0, [98], 5000) = 1 := by
  have hreached : (asked [10, 0, 0, 1]).Reached numericNtop := by
    refine .next _ (.next (.query [98] 0) (.start ⟨false, rfl⟩) ⟨trivial, rfl⟩) ⟨?_, rfl⟩
    unfold MDnsClient.Readable
    dsimp only
    rw [packetAnswers_answerFor (by decide) (by decide)]
    decide
  refine ⟨hreached, ?_⟩
  have hc := (queries_called_once hreached).2.2 ⟨0, [98], 5000, 0⟩
  rw [asked_eq (by decide) (by decide)] at hc ⊢
  exact hc (by decide)

/-- An answer with three bytes takes the query out, and nobody hears of it. -/
theorem short_answer_drops_query :
    (asked [10, 0, 0]).accepted = [⟨0, [98], 5000, 0⟩] ∧ (asked [10, 0, 0]).queries = [] ∧
      (asked [10, 0, 0]).timedOut = [] ∧ (asked [10, 0, 0]).calls = [] := by
  rw [asked_eq (by decide) (by decide)]
  decide

end Stice.Net.Mdns
