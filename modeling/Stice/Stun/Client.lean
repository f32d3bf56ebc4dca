import Stice.Stun.Attributes

/-! The STUN client (`stun/client.cpp`): a Binding request is sent until an answer, an error, the
timeout or the last retransmission ends the exchange. -/
namespace Stice.Stun
open Net

structure BindingResult where
  reflexiveAddr : AddrRecord
  transactionID : TransactionID
  deriving DecidableEq

def buildBindingRequest (tid : TransactionID) : Message := ⟨.binding, .request, tid, [], []⟩

/-- What `poll` and, on a readable socket, `recvfrom` give; a failed `recvfrom` is `none`. -/
inductive Polled
  | failed (interrupted : Bool)
  | quiet
  | readable (datagram : Option Bytes)
  deriving DecidableEq

/-- What a round of the loop meets outside: whether `sendto` fails, the time since the start and
what is polled. -/
structure Round where
  sendFails : Bool
  elapsed : Int
  polled : Polled
  deriving DecidableEq

/-- How a round ends: with `return`, with `continue` or at the bottom of the loop. -/
inductive Ending
  | returns (result : Option BindingResult)
  | continues
  | falls
  deriving DecidableEq

def recvBufferSize : Nat := 1500

/-- The address in a response, from either attribute. -/
def responseAddress (resp : Message) : Option AddrRecord :=
  (readXorAddress resp .xorMappedAddress resp.transactionID).or (readMappedAddress resp)

def handleDatagram (tid : TransactionID) (buf : Bytes) : Ending :=
  if buf ≠ [] ∧ isMessage buf then
    match decode buf with
    | none => .continues
    | some resp =>
      if resp.method ≠ .binding then .continues
      else if resp.cls ≠ .successResponse then .continues
      else if resp.transactionID ≠ tid then .continues
      else .returns ((responseAddress resp).map (⟨·, resp.transactionID⟩))
  else .falls

def Round.ending (tid : TransactionID) (timeout : Int) (r : Round) : Ending :=
  if r.sendFails then .returns none
  else if timeout - r.elapsed ≤ 0 then .returns none
  else match r.polled with
    | .failed interrupted => if interrupted then .continues else .returns none
    | .quiet => .falls
    | .readable none => .falls
    | .readable (some datagram) => handleDatagram tid (datagram.take recvBufferSize)

/-- The packets handed to `sendto` and what the call returns, once it does. -/
structure Exchange where
  sent : List Bytes
  result : Option (Option BindingResult)
  deriving DecidableEq

/-- The loop from `retransmit` on, as far as the rounds go. -/
def bindingLoop (raw : Bytes) (tid : TransactionID) (timeout maxRetransmissions : Int) :
    List Round → Nat → Exchange
  | [], _ => ⟨[], none⟩
  | r :: rs, retransmit =>
    match r.ending tid timeout with
    | .returns result => ⟨[raw], some result⟩
    | .continues =>
      let e := bindingLoop raw tid timeout maxRetransmissions rs retransmit
      { e with sent := raw :: e.sent }
    | .falls =>
      if maxRetransmissions ≤ retransmit then ⟨[raw], some none⟩
      else
        let e := bindingLoop raw tid timeout maxRetransmissions rs (retransmit + 1)
        { e with sent := raw :: e.sent }

def sendBindingRequest (tid : TransactionID) (timeout maxRetransmissions : Int)
    (rounds : List Round) : Exchange :=
  let req := (buildBindingRequest tid).encode none none (some (ascii "stice"))
  bindingLoop req.raw tid timeout maxRetransmissions rounds 0

section
variable {raw : Bytes} {tid : TransactionID} {timeout max : Int}

/-- Rounds that do not end with `continue` are counted. -/
theorem bindingLoop_counted {rounds : List Round} {retransmit : Nat} (hmax : retransmit ≤ max)
    (h : ∀ i : Nat, i + retransmit ≤ max → ∀ r, rounds[i]? = some r →
      r.ending tid timeout ≠ .continues) :
    (bindingLoop raw tid timeout max rounds retransmit).sent.length + retransmit ≤ 1 + max := by
  induction rounds generalizing retransmit with
  | nil =>
    simp only [bindingLoop, List.length_nil]
    omega
  | cons r rs ih =>
    have hr := h 0 (by omega) r rfl
    unfold bindingLoop
    split
    · simp only [List.length_cons, List.length_nil]
      omega
    · rename_i hcontinues
      exact absurd hcontinues hr
    · split
      · simp only [List.length_cons, List.length_nil]
        omega
      · have := @ih (retransmit + 1) (by omega) (fun i hi r hr => h (i + 1) (by omega) r hr)
        simp only [List.length_cons]
        omega

/-- No round follows one that returns. -/
theorem bindingLoop_returns {rounds : List Round} {retransmit i : Nat}
    (h : ∀ r, rounds[i]? = some r → ∃ result, r.ending tid timeout = .returns result) :
    (bindingLoop raw tid timeout max rounds retransmit).sent.length ≤ i + 1 := by
  induction rounds generalizing retransmit i with
  | nil => exact Nat.zero_le _
  | cons r rs ih =>
    unfold bindingLoop
    split
    · simp
    · rename_i hcontinues
      cases i with
      | zero =>
        obtain ⟨result, hreturns⟩ := h r rfl
        rw [hreturns] at hcontinues
        cases hcontinues
      | succ i => simpa using ih h
    · rename_i hfalls
      split
      · simp
      · cases i with
        | zero =>
          obtain ⟨result, hreturns⟩ := h r rfl
          rw [hreturns] at hfalls
          cases hfalls
        | succ i => simpa using ih h

theorem bindingLoop_one (r : Round) (retransmit : Nat) :
    (bindingLoop raw tid timeout max [r] retransmit).sent.length = 1 := by
  unfold bindingLoop
  split
  · rfl
  · rfl
  · split <;> rfl

/-- Rounds that end with `continue` are not. -/
theorem bindingLoop_uncounted {rounds : List Round} {retransmit : Nat} (last : Round)
    (hopen : ∀ r ∈ rounds, ∀ result, r.ending tid timeout ≠ .returns result)
    (h : (rounds.countP (·.ending tid timeout = .falls) + retransmit : Nat) ≤ max) :
    (bindingLoop raw tid timeout max (rounds ++ [last]) retransmit).sent.length =
      rounds.length + 1 := by
  induction rounds generalizing retransmit with
  | nil => exact bindingLoop_one last retransmit
  | cons r rs ih =>
    have hrest : ∀ r ∈ rs, ∀ result, r.ending tid timeout ≠ .returns result :=
      fun r hr => hopen r (List.mem_cons_of_mem _ hr)
    rw [List.cons_append]
    unfold bindingLoop
    split
    · rename_i result hreturns
      exact absurd hreturns (hopen r List.mem_cons_self result)
    · rename_i hcontinues
      rw [List.countP_cons_of_neg (by simp [hcontinues])] at h
      simp only [List.length_cons, ih hrest h]
    · rename_i hfalls
      rw [List.countP_cons_of_pos (by simp [hfalls])] at h
      have hleft : (rs.countP (·.ending tid timeout = .falls) + (retransmit + 1) : Nat) ≤ max := by
        omega
      rw [if_neg (by omega)]
      simp only [List.length_cons, ih hrest hleft]

/-- The result is that of a round. -/
theorem bindingLoop_result {rounds : List Round} {retransmit : Nat} {res : BindingResult}
    (h : (bindingLoop raw tid timeout max rounds retransmit).result = some (some res)) :
    ∃ r ∈ rounds, r.ending tid timeout = .returns (some res) := by
  induction rounds generalizing retransmit with
  | nil => cases h
  | cons r rs ih =>
    unfold bindingLoop at h
    split at h
    · rename_i result hreturns
      cases h
      exact ⟨r, List.mem_cons_self, hreturns⟩
    · obtain ⟨r, hr, hres⟩ := ih h
      exact ⟨r, List.mem_cons_of_mem _ hr, hres⟩
    · split at h
      · cases h
      · obtain ⟨r, hr, hres⟩ := ih h
        exact ⟨r, List.mem_cons_of_mem _ hr, hres⟩

/-- A datagram that a result may come from. -/
def Answers (tid : TransactionID) (res : BindingResult) (datagram : Bytes) : Prop :=
  ∃ m, decode (datagram.take recvBufferSize) = some m ∧ m.method = .binding ∧
    m.cls = .successResponse ∧ m.transactionID = tid ∧ res.transactionID = tid ∧
    (readXorAddress m .xorMappedAddress tid = some res.reflexiveAddr ∨
      readMappedAddress m = some res.reflexiveAddr)

theorem handleDatagram_result {buf : Bytes} {res : BindingResult}
    (h : handleDatagram tid buf = .returns (some res)) :
    ∃ m, decode buf = some m ∧ m.method = .binding ∧
    m.cls = .successResponse ∧ m.transactionID = tid ∧ res.transactionID = tid ∧
    (readXorAddress m .xorMappedAddress tid = some res.reflexiveAddr ∨
      readMappedAddress m = some res.reflexiveAddr) := by
  unfold handleDatagram at h
  split at h
  · split at h
    · cases h
    · rename_i m hm
      split at h
      · cases h
      · split at h
        · cases h
        · split at h
          · cases h
          · rename_i hmethod hcls htid
            have hmethod := not_not.mp hmethod
            have hcls := not_not.mp hcls
            have htid := not_not.mp htid
            obtain ⟨addr, haddr, rfl⟩ := Option.map_eq_some_iff.mp (Ending.returns.inj h)
            refine ⟨m, hm, hmethod, hcls, htid, htid, ?_⟩
            rw [← htid]
            rcases Option.or_eq_some_iff.mp haddr with hxor | ⟨-, hmapped⟩
            · exact .inl hxor
            · exact .inr hmapped
  · cases h

theorem Round.ending_result {r : Round} {res : BindingResult}
    (h : r.ending tid timeout = .returns (some res)) :
    ∃ datagram, r.polled = .readable (some datagram) ∧ Answers tid res datagram := by
  unfold Round.ending at h
  split at h
  · cases h
  · split at h
    · cases h
    · split at h
      · split at h <;> cases h
      · cases h
      · cases h
      · rename_i datagram hpolled
        exact ⟨datagram, hpolled, handleDatagram_result h⟩

end

/-- What the exchange needs to stay within its retransmissions: one of the rounds they leave room
for returns, or none of them ends with `continue`. -/
def Quota (tid : TransactionID) (timeout max : Int) (rounds : Nat → Round) : Prop :=
  0 ≤ max ∧ ((∃ i : Nat, i ≤ max ∧ ∃ result, (rounds i).ending tid timeout = .returns result) ∨
    ∀ i : Nat, i ≤ max → (rounds i).ending tid timeout ≠ .continues)

theorem of_range_map_getElem? {rounds : Nat → Round} {n i : Nat} {r : Round}
    (h : ((List.range n).map rounds)[i]? = some r) : r = rounds i := by
  obtain ⟨_, _, rfl⟩ := List.getElem?_eq_some_iff.mp h
  rw [List.getElem_map, List.getElem_range]

theorem binding_request_bounded (tid : TransactionID) (timeout max : Int)
    (rounds : Nat → Round) :
    ((∀ n, ((sendBindingRequest tid timeout max ((List.range n).map rounds)).sent.length : Int) ≤
      1 + max) ↔ Quota tid timeout max rounds) ∧
    ∀ n res, (sendBindingRequest tid timeout max ((List.range n).map rounds)).result =
      some (some res) →
      ∃ i < n, ∃ datagram, (rounds i).polled = .readable (some datagram) ∧
        Answers tid res datagram := by
  refine ⟨⟨?_, ?_⟩, ?_⟩
  · intro hbound
    have hmax : 0 ≤ max := by
      have hone := hbound 1
      rw [sendBindingRequest, List.range_one, List.map_singleton, bindingLoop_one] at hone
      omega
    refine ⟨hmax, or_iff_not_imp_left.mpr ?_⟩
    intro hopen i hi hcontinues
    -- one round more than the bound leaves room for, since round `i` is not counted
    set n := max.toNat + 1 with hn
    have hfew : ((List.range n).map rounds).countP (·.ending tid timeout = .falls) < n := by
      have := List.countP_lt_length_iff (p := fun r : Round =>
        decide (r.ending tid timeout = .falls))
        (l := (List.range n).map rounds)
      rw [List.length_map, List.length_range] at this
      refine this.mpr ⟨rounds i, List.mem_map_of_mem (List.mem_range.mpr (by omega)), ?_⟩
      simp [hcontinues]
    have hsent := @bindingLoop_uncounted
      ((buildBindingRequest tid).encode none none (some (ascii "stice"))).raw tid timeout max
      ((List.range n).map rounds) 0 (rounds n) ?_ (by omega)
    · have := hbound (n + 1)
      rw [sendBindingRequest, List.range_succ, List.map_append, List.map_singleton, hsent,
        List.length_map, List.length_range] at this
      omega
    · intro r hr result hreturns
      obtain ⟨j, hj, rfl⟩ := List.mem_map.mp hr
      have := List.mem_range.mp hj
      exact hopen ⟨j, by omega, result, hreturns⟩
  · rintro ⟨hmax, ⟨i, hi, result, hreturns⟩ | hcounted⟩ n
    · have := @bindingLoop_returns
        ((buildBindingRequest tid).encode none none (some (ascii "stice"))).raw tid timeout max
        ((List.range n).map rounds) 0 i ?_
      · rw [sendBindingRequest]
        omega
      · intro r hr
        exact ⟨result, of_range_map_getElem? hr ▸ hreturns⟩
    · refine bindingLoop_counted hmax ?_
      intro i hi r hr
      exact of_range_map_getElem? hr ▸ hcounted i (by omega)
  · intro n res hres
    obtain ⟨r, hr, hres⟩ := bindingLoop_result hres
    obtain ⟨i, hi, rfl⟩ := List.mem_map.mp hr
    exact ⟨i, List.mem_range.mp hi, Round.ending_result hres⟩

/-- A success response to nobody's request, at once. -/
def strayResponse : Round :=
  ⟨false, 0, .readable (some ([1, 1, 0, 0, 0x21, 0x12, 0xA4, 0x42] ++ List.replicate 12 7))⟩

/-- Without retransmissions the request still goes out once more for each stray response. -/
theorem stray_responses_resend :
    (sendBindingRequest ⟨List.replicate 12 0, rfl⟩ 5000 0
      [strayResponse, strayResponse, strayResponse]).sent.length = 3 := by
  decide +kernel

end Stice.Stun
