import Stice.Stun.RoundTrip
import Stice.Turn.CallRule

/-! The credentials of the TURN client: what a request carries of them once it is
encoded and decoded again, and which calls change them. -/
namespace Stice.Stun
open Net

/-! ## Looking an attribute up -/

/-- An attribute that is left out when empty reads the same. -/
theorem getString_nonEmpty {d : Message} {pre post : List Attribute} {t : AttrType} {v : Bytes}
    (h : d.attributes = pre ++ nonEmptyAttribute t v ++ post) (hpre : ∀ a ∈ pre, a.type ≠ t)
    (hpost : ∀ a ∈ post, a.type ≠ t) : getString d t = v := by
  have hnone : ∀ l : List Attribute, (∀ a ∈ l, a.type ≠ t) →
      l.find? (fun a => decide (a.type = t)) = none := fun l hl => by simpa using hl
  unfold getString Message.find
  rw [h, List.find?_append, List.find?_append, hnone pre hpre, hnone post hpost]
  unfold nonEmptyAttribute
  split
  · rename_i hv
    rw [List.isEmpty_iff.mp hv]
    rfl
  · simp

theorem length_tlvs_append (as bs : List Attribute) :
    (tlvs (as ++ bs)).length = (tlvs as).length + (tlvs bs).length := by
  rw [tlvs_append, List.length_append]

theorem length_tlvs_nonEmptyAttribute (t : AttrType) (v : Bytes) :
    (tlvs (nonEmptyAttribute t v)).length ≤ 4 + paddedSize v.length := by
  unfold nonEmptyAttribute
  split
  · exact Nat.zero_le _
  · simp

theorem length_encodeXorAddr (addr : AddrRecord) (tid : TransactionID) :
    (encodeXorAddr addr tid).length ≤ 20 := by
  have hmask : (xorMask tid).length = 16 := by simp [xorMask, tid.2]
  unfold encodeXorAddr
  split
  · simp [xorBytes, hmask]
  · rename_i ip _ _
    simp [xorBytes, hmask, ip.2]

end Stice.Stun

namespace Stice.Turn.Client
open Std Net Stun Lib

variable {n : Nat} {m : Message} {env : ClientEnv} (c : Client) (peer : AddrRecord)
variable {f : PeerBinding → PeerBinding} {k : Credentials}

/-! ## Requests on the wire -/

/-- A type that `encode` does not use itself. -/
def FreeType (t : AttrType) : Prop :=
  t ≠ .username ∧ t ≠ .realm ∧ t ≠ .nonce ∧ t ≠ .messageIntegrity

instance (t : AttrType) : Decidable (FreeType t) :=
  inferInstanceAs (Decidable (_ ∧ _ ∧ _ ∧ _))

/-- A request without credentials of its own, with attributes of at most `n` bytes. -/
structure Plain (n : Nat) (m : Message) : Prop where
  cls : m.cls = .request
  method : m.method.toNat < 4096
  types : ∀ a ∈ m.attributes, FreeType a.type
  length : (tlvs m.attributes).length ≤ n

theorem Plain.request {method : Method} (h : method.toNat < 4096) (tid : TransactionID) :
    Plain 0 (request method tid) := ⟨rfl, h, (fun _ h => nomatch h), Nat.le_refl 0⟩

theorem Plain.addAttribute (h : Plain n m) {t : AttrType} {v : Bytes}
    (ht : FreeType t) (hv : v.length ≤ 20) : Plain (n + 24) (m.addAttribute t v) := by
  refine ⟨h.cls, h.method, fun a ha => ?_, ?_⟩
  · obtain ha | ha := List.mem_append.mp ha
    · exact h.types a ha
    · rw [List.mem_singleton.mp ha]
      exact ht
  · have hlen := h.length
    simp only [Message.addAttribute, length_tlvs_append, tlvs_cons, tlvs_nil, List.append_nil,
      length_tlv, paddedSize]
    omega

theorem Built.plain (h : Built m) : Plain 48 m := by
  have hmono {n : Nat} {m : Message} (h : Plain n m) (hn : n ≤ 48) : Plain 48 m :=
    ⟨h.cls, h.method, h.types, Nat.le_trans h.length hn⟩
  have hpeer {method : Method} (hm : method.toNat < 4096) (tid : TransactionID)
      (peer : AddrRecord) :
      Plain 24 (writeXorAddress (Client.request method tid) .xorPeerAddress peer tid) :=
    (Plain.request hm tid).addAttribute (by decide) (length_encodeXorAddr peer tid)
  cases h with
  | allocate tid proto =>
    exact hmono ((Plain.request (by decide) tid).addAttribute (by decide) (by simp)) (by decide)
  | refresh tid lt =>
    exact hmono ((Plain.request (by decide) tid).addAttribute (by decide) (by simp)) (by decide)
  | createPermission tid peer => exact hmono (hpeer (by decide) tid peer) (by decide)
  | channelBind tid peer channel =>
    exact (hpeer (by decide) tid peer).addAttribute (by decide) (by simp)
  | connect tid peer => exact hmono (hpeer (by decide) tid peer) (by decide)
  | connectionBind tid id =>
    exact hmono ((Plain.request (by decide) tid).addAttribute (by decide) (by simp)) (by decide)

/-- The credentials `k` fit into a message. -/
def Short (k : Credentials) : Prop :=
  k.username.length + k.realm.length + k.nonce.length < 65000

theorem length_encoded (hm : Plain n m) (hn : n ≤ 48) (hk : Short k) (p : Bytes) :
    (tlvs (m.encodedAttributes (some p) (some k) (some software))).length < 65536 := by
  have hu := length_tlvs_nonEmptyAttribute .username k.username
  have hr := length_tlvs_nonEmptyAttribute .realm k.realm
  have hnonce := length_tlvs_nonEmptyAttribute .nonce k.nonce
  have hsw := length_tlvs_nonEmptyAttribute .software software
  have hmi := length_tlv_integrityOver
    (m.coveredAttributes (some p) (some k) (some software)) m (integrityKey p (some k))
  have hfp := length_tlv_fingerprintOver (m.signedAttributes (some p) (some k) (some software)) m
  have hlen := hm.length
  have hsoft : software.length = 5 := rfl
  have hcls : m.cls ≠ .indication := by rw [hm.cls]; decide
  unfold Short at hk
  have hcovered : (tlvs (m.coveredAttributes (some p) (some k) (some software))).length ≤
    65081 := by
    simp only [Message.coveredAttributes, credentialAttributes, softwareAttributes, hcls, if_false,
      length_tlvs_append]
    simp only [paddedSize, hsoft] at hu hr hnonce hsw
    omega
  simp only [Message.encodedAttributes, Message.signedAttributes, length_tlvs_append, tlvs_cons,
    tlvs_nil, List.append_nil, Message.integrityAttributes, hcls, if_false] at hfp ⊢
  omega

/-- What the server reads from an encoded request: the credentials, and an integrity
attribute that its check accepts. -/
theorem decode_encoded (hm : Plain n m) (hn : n ≤ 48) (hk : Short k) (p : Bytes) :
    ∃ d, decode (m.encode (some p) (some k) (some software)).raw = some d ∧
      getString d .username = k.username ∧ getString d .realm = k.realm ∧
      getString d .nonce = k.nonce ∧ (d.find .messageIntegrity).isSome = true ∧
      d.checkIntegrity (integrityKey p (some k)) false = true := by
  have hlen := length_encoded hm hn hk p
  have hcls : m.cls ≠ .indication := by rw [hm.cls]; decide
  let mi := m.integrityOver (integrityKey p (some k))
    (m.coveredAttributes (some p) (some k) (some software))
  let fp := m.fingerprintOver (m.signedAttributes (some p) (some k) (some software))
  let u := nonEmptyAttribute .username k.username
  let r := nonEmptyAttribute .realm k.realm
  let o := nonEmptyAttribute .nonce k.nonce
  let rest := m.attributes ++ ⟨.software, software⟩ :: [mi, fp]
  have hattrs : m.encodedAttributes (some p) (some k) (some software) =
    u ++ (r ++ (o ++ rest)) := by
    simp [Message.encodedAttributes, Message.signedAttributes, Message.coveredAttributes,
      Message.integrityAttributes, credentialAttributes, softwareAttributes, hcls, u, r, o, rest,
      mi, fp]
    rfl
  have hrest : ∀ t, (t = .username ∨ t = .realm ∨ t = .nonce) → ∀ a ∈ rest, a.type ≠ t := by
    intro t ht a ha hat
    subst hat
    obtain ha | ha := List.mem_append.mp ha
    · obtain ⟨h₁, h₂, h₃, -⟩ := hm.types a ha
      exact ht.elim h₁ fun h => h.elim h₂ h₃
    · have htype : a.type = .software ∨ a.type = .messageIntegrity ∨ a.type = .fingerprint := by
        simp only [List.mem_cons, List.not_mem_nil, or_false] at ha
        obtain rfl | rfl | rfl := ha
        · exact .inl rfl
        · exact .inr (.inl rfl)
        · exact .inr (.inr rfl)
      obtain h | h | h := htype <;> rw [h] at ht <;> revert ht <;> decide
  have hu : ∀ a ∈ u, a.type = .username := fun a => mem_nonEmptyAttribute
  have hr : ∀ a ∈ r, a.type = .realm := fun a => mem_nonEmptyAttribute
  have ho : ∀ a ∈ o, a.type = .nonce := fun a => mem_nonEmptyAttribute
  refine ⟨_, decode_raw m (some p) (some k) (some software) hm.method hlen, ?_, ?_, ?_, ?_, ?_⟩
  · refine @getString_nonEmpty _ [] (r ++ (o ++ rest)) _ _ hattrs
      (fun _ h => absurd h List.not_mem_nil)
      fun a ha => ?_
    obtain ha | ha := List.mem_append.mp ha
    · rw [hr a ha]
      decide
    obtain ha | ha := List.mem_append.mp ha
    · rw [ho a ha]
      decide
    · exact hrest _ (.inl rfl) a ha
  · refine @getString_nonEmpty _ u (o ++ rest) _ _ (by simp only [List.append_assoc]; exact hattrs)
      (fun a ha => by rw [hu a ha]; decide) fun a ha => ?_
    obtain ha | ha := List.mem_append.mp ha
    · rw [ho a ha]
      decide
    · exact hrest _ (.inr (.inl rfl)) a ha
  · refine @getString_nonEmpty _ (u ++ r) rest _ _ (by simp only [List.append_assoc]; exact hattrs)
      (fun a ha => ?_) (hrest _ (.inr (.inr rfl)))
    obtain ha | ha := List.mem_append.mp ha
    · rw [hu a ha]
      decide
    · rw [hr a ha]
      decide
  · have hmem : mi ∈ m.encodedAttributes (some p) (some k) (some software) := by
      rw [hattrs]
      simp [rest]
    exact Option.isSome_map.trans (List.find?_isSome.mpr ⟨mi, hmem, decide_eq_true rfl⟩)
  · exact checkIntegrity_raw m _ p (some k) (some software) hcls
      (fun a ha => (hm.types a ha).2.2.2) hlen rfl

theorem longTermKey_ne_nil (username realm password : Bytes) :
    Crypto.longTermKey username realm password ≠ [] := by
  have h : (Crypto.longTermKey username realm password).length = 16 := rfl
  intro hnil
  rw [hnil] at h
  cases h

/-- What the server reads from a request of the client. -/
theorem decode_prepareRequest {c : Client} {m : Message} (hm : Built m) (hk : c.creds = some k)
    (hname : k.username ≠ []) (hshort : Short k) :
    ∃ d, decode (c.prepareRequest m).2.raw = some d ∧
      getString d .username = k.username ∧ getString d .realm = k.realm ∧
      getString d .nonce = k.nonce ∧ (d.find .messageIntegrity).isSome = true ∧
      d.checkIntegrity (Crypto.longTermKey k.username k.realm c.cfg.password) false = true := by
  let key := Crypto.longTermKey k.username k.realm c.cfg.password
  have hname' : k.username.isEmpty = false := by simpa using hname
  have happly : c.applyCredentials.creds = some { k with key := key } := by
    simp only [applyCredentials, hk, Option.map_some, hname', Bool.false_eq_true, if_false]
    rfl
  have hraw : (c.prepareRequest m).2 =
      m.encode (some c.cfg.password) (some { k with key := key }) (some software) := by
    unfold prepareRequest encodeRequest
    simp only [happly, hname', Bool.false_eq_true, if_false]
    rfl
  have hkey : integrityKey c.cfg.password (some { k with key := key }) = key := by
    have hne : key.isEmpty = false := by
      simpa using longTermKey_ne_nil k.username k.realm c.cfg.password
    simp only [integrityKey, hne, Bool.false_eq_true, if_false]
  rw [hraw]
  have h := decode_encoded hm.plain (Nat.le_refl 48) (k := { k with key := key }) hshort
    c.cfg.password
  rw [hkey] at h
  exact h

/-! ## Who changes the credentials -/

/-- A request that the client encoded with these credentials. -/
def Prepared (l : TurnConfig × Option (Bytes × Bytes × Bytes)) (r : Message) : Prop :=
  ∃ (c : Client) (m : Message), c.login = l ∧ Built m ∧ (c.prepareRequest m).2 = r

/-- The credentials stay, and every new transaction is encoded with them. -/
structure Keeps (c c' : Client) : Prop where
  login : c'.login = c.login
  pending : ∀ (k : Bytes) (tx' : PendingTx), c'.pending[k]? = some tx' →
    (∃ tx : PendingTx, c.pending[k]? = some tx ∧ tx'.request = tx.request) ∨
      Prepared c.login tx'.request

theorem Keeps.of_eq {c c' : Client} (hlogin : c'.login = c.login)
    (hpending : c'.pending = c.pending) : Keeps c c' where
  login := hlogin
  pending k tx h := .inl ⟨tx, by rwa [← hpending], rfl⟩

theorem Keeps.refl : Keeps c c := .of_eq rfl rfl

theorem Keeps.trans {a b c : Client} (hab : Keeps a b) (hbc : Keeps b c) : Keeps a c := by
  refine ⟨hbc.login.trans hab.login, fun k tx h => ?_⟩
  obtain ⟨tx₁, h₁, hr⟩ | h₁ := hbc.pending k tx h
  · rw [hr]
    exact hab.pending k tx₁ h₁
  · rw [hab.login] at h₁
    exact .inr h₁

theorem Keeps.erase (key : Bytes) : Keeps c { c with pending := c.pending.erase key } :=
  ⟨rfl, fun _ tx h => .inl ⟨tx, (getElem?_erase_some h).2, rfl⟩⟩

theorem passive_keeps (env : ClientEnv) : Passive env Keeps where
  trans := .trans
  same hpending _ hlogin _ _ _ _ := .of_eq hlogin hpending
  fail c code reason := by
    have hnone (k : Bytes) (tx : PendingTx) : (∅ : TreeMap Bytes PendingTx)[k]? ≠ some tx := by simp
    unfold Client.failAllocation
    split
    · exact .of_eq rfl rfl
    · exact ⟨rfl, fun k tx h => absurd h (hnone k tx)⟩
  bind c peer := by
    unfold Client.withBinding
    split
    · exact .refl c
    · exact .of_eq rfl rfl
  flags _ _ _ := .of_eq rfl rfl
  start c kind build hbuild := by
    rw [startTx_eq]
    refine ⟨applyCredentials_login c, fun k tx h => ?_⟩
    obtain ⟨-, rfl⟩ | ⟨-, h⟩ := getElem?_insert_some h
    · exact .inr ⟨c, _, rfl, hbuild _, rfl⟩
    · exact .inl ⟨tx, h, rfl⟩

/-- A transaction is answered by 401 or 438. -/
def authError (c : Client) (e : Call) : Bool :=
  match c.responseOf e with
  | some (m, _) => m.cls = .errorResponse && ((errorOf m).1 = 401 || (errorOf m).1 = 438)
  | none => false

/-- A response that is not 401 or 438 leaves the credentials. -/
theorem handleAuthError_other {code : Nat} (h₁ : code ≠ 401) (h₂ : code ≠ 438) (c : Client)
    (msg : Message) (retryAuthed : Bool) : c.handleAuthError msg code retryAuthed = (false, c) := by
  simp [handleAuthError, h₁, h₂]

/-- Only a 401 or 438 changes the credentials, and every request that is encoded in
between carries them. -/
theorem Keeps.call (env : ClientEnv) (c : Client) (e : Call) (h : c.authError e = false) :
    Keeps c (c.call env e) := by
  have hR := passive_keeps env
  refine hR.call (fun m tx hm => ?_) fun _ => ?_
  · have htx := responseOf_pending hm
    refine hR.handleStunResponse htx (.erase c _) (fun d creds n hcreds => ?_)
      (fun _ _ _ _ => .of_eq rfl rfl) (fun _ _ _ _ => .of_eq rfl rfl)
      (fun _ _ _ _ _ _ => .of_eq rfl rfl) fun peer hkind => ?_
    · obtain rfl | ⟨hcls, hcode⟩ := hcreds
      · exact .of_eq rfl rfl
      · obtain hcode | hcode := hcode <;> simp [authError, hm, hcls, hcode] at h
    · refine .trans (.erase c m.transactionID.1) ?_
      simp only [Client.handleStunResponse, htx, hkind, handleConnectResponse]
      split
      · exact .of_eq rfl rfl
      · split <;> exact .of_eq rfl rfl
  · refine hR.tick c (hR.tickPending .erase (fun c key tx htx => ?_) c _) fun _ => .of_eq rfl rfl
    -- the request sent again is the one on record
    refine ⟨rfl, fun k tx' h => ?_⟩
    obtain ⟨rfl, rfl⟩ | ⟨-, h⟩ := getElem?_insert_some h
    · exact .inl ⟨tx, htx, rfl⟩
    · exact .inl ⟨tx', h, rfl⟩

/-! ## Retries -/

theorem allocate_start {c : Client} (h : c.state = .idle) :
    c.allocate env = startTx env { c with state := .allocating } .allocate fun tid =>
      addRequestedTransport (request .allocate tid) (if c.cfg.tcpAllocation then 6 else 17) := by
  unfold allocate
  rw [if_neg (by simp [h])]

theorem sendRefresh_start {c : Client} (h : c.refreshTidFresh = false) (lt : UInt32) :
    c.sendRefresh env lt =
      startTx env { c with refreshTidFresh := true, refreshAt := env.now + turnRtoMs } .refresh
        fun tid => addLifetime (request .refresh tid) lt := by
  unfold sendRefresh
  rw [if_neg (by simp [h])]

theorem sendCreatePermission_start {c : Client} {peer : AddrRecord}
    (h : (c.getBinding peer).permissionTidFresh = false) :
    c.sendCreatePermission env peer =
      startTx env ((c.withBinding peer).updateBinding peer fun b =>
        { b with permissionTidFresh := true }) (.createPermission peer) fun tid =>
          writeXorAddress (request .createPermission tid) .xorPeerAddress peer tid := by
  unfold sendCreatePermission
  dsimp only
  rw [getBinding_withBinding, if_neg (by simp [h])]

theorem withBinding_eq :
    c.withBinding peer = { c with bindings := (c.withBinding peer).bindings } := by
  unfold withBinding
  split <;> rfl

/-- The channel a ChannelBind asks for. -/
def channelFor (env : ClientEnv) (c : Client) (peer : AddrRecord) : UInt16 :=
  if (c.getBinding peer).channel = 0 then (c.withBinding peer).pickChannel env peer
  else (c.getBinding peer).channel

theorem randomChannelNumber_ne_zero (r : UInt32) : randomChannelNumber r ≠ 0 := by
  intro h
  have h := congrArg UInt16.toNat h
  simp only [randomChannelNumber, UInt16.toNat_or, UInt16.toNat_zero, Nat.or_eq_zero_iff] at h
  exact absurd h.1 (by decide)

theorem pickChannel_ne_zero (env : ClientEnv) (c : Client) (peer : AddrRecord) :
    c.pickChannel env peer ≠ 0 := by
  unfold pickChannel
  dsimp only
  cases h : ((List.range 8).map fun attempt =>
      randomChannelNumber (env.random c.drawn attempt)).find? _ with
  | none => exact randomChannelNumber_ne_zero _
  | some ch =>
    obtain ⟨_, -, rfl⟩ := List.mem_map.mp (List.mem_of_find?_eq_some h)
    exact randomChannelNumber_ne_zero _

theorem channelFor_ne_zero (env : ClientEnv) (c : Client) (peer : AddrRecord) :
    c.channelFor env peer ≠ 0 := by
  unfold channelFor
  split
  · exact pickChannel_ne_zero env _ peer
  · assumption

theorem sendChannelBind_start {c : Client} {peer : AddrRecord}
    (h : (c.getBinding peer).channelTidFresh = false) :
    c.sendChannelBind env peer =
      startTx env ((c.withBinding peer).updateBinding peer fun b =>
        { b with channel := c.channelFor env peer, channelTidFresh := true })
        (.channelBind peer) fun tid =>
          addChannelNumber (writeXorAddress (request .channelBind tid) .xorPeerAddress peer tid)
            (c.channelFor env peer) := by
  unfold sendChannelBind channelFor
  dsimp only
  rw [getBinding_withBinding, if_neg (by simp [h])]

theorem getBinding_clearPermissionTid :
    ((c.updateBinding peer .clearPermissionTid).getBinding peer).permissionTidFresh = false := by
  unfold getBinding updateBinding
  rw [find?_modifyBinding (f := PeerBinding.clearPermissionTid) peer fun _ => rfl]
  cases c.bindings.find? (samePeer peer) <;> rfl

theorem getBinding_clearChannelTid :
    ((c.updateBinding peer .clearChannelTid).getBinding peer).channelTidFresh = false := by
  unfold getBinding updateBinding
  rw [find?_modifyBinding (f := PeerBinding.clearChannelTid) peer fun _ => rfl]
  cases c.bindings.find? (samePeer peer) <;> rfl

/-- The binding has buffered data and no channel yet. -/
def owes (b : PeerBinding) : Bool := b.channel = 0 && !b.pendingData.isEmpty

theorem owes_channel {b : PeerBinding} (h : b.channel ≠ 0) : owes b = false := by
  simp [owes, h]

def owed (bs : List PeerBinding) : Nat := bs.countP owes

theorem owed_modifyBinding {peer : AddrRecord} {bs : List PeerBinding}
    (hf : ∀ b, bs.find? (samePeer peer) = some b → owes (f b) = true → owes b = true) :
    owed (modifyBinding peer f bs) ≤ owed bs := by
  unfold owed
  induction bs with
  | nil => exact Nat.le_refl 0
  | cons b bs ih =>
    unfold modifyBinding
    split
    · rename_i h
      have hb := hf b (List.find?_cons_of_pos h)
      rw [List.countP_cons, List.countP_cons]
      split
      · rename_i howes
        exact Nat.le_of_eq (by rw [if_pos (hb howes)])
      · omega
    · rename_i h
      rw [List.countP_cons, List.countP_cons]
      refine Nat.add_le_add_right (ih fun b' hb' => hf b' ?_) _
      rw [List.find?_cons_of_neg h]
      exact hb'

/-- The binding gets a channel, or its data is gone. -/
theorem owed_modifyBinding_lt {peer : AddrRecord} {bs : List PeerBinding} {b : PeerBinding}
    (hb : bs.find? (samePeer peer) = some b) (howes : owes b = true) (hf : owes (f b) = false) :
    owed (modifyBinding peer f bs) < owed bs := by
  unfold owed
  induction bs with
  | nil => cases hb
  | cons b' bs ih =>
    unfold modifyBinding
    rw [List.find?_cons] at hb
    split
    · rename_i h
      simp only [h, Option.some.injEq] at hb
      subst hb
      simp [hf, howes]
    · rename_i h
      simp only [h] at hb
      rw [List.countP_cons, List.countP_cons]
      exact Nat.add_lt_add_right (ih hb) _

theorem owed_withBinding : owed (c.withBinding peer).bindings = owed c.bindings := by
  unfold withBinding
  split
  · rfl
  · exact List.countP_append

/-- A change that leaves a binding no more in want of a channel, and the binding added if it
is not there. -/
theorem updated_withBinding (hf : ∀ b, owes (f b) = true → owes b = true) :
    ∃ bs, (c.updateBinding peer f).withBinding peer = { c with bindings := bs } ∧
      owed bs ≤ owed c.bindings := by
  refine ⟨_, withBinding_eq _ peer, ?_⟩
  rw [owed_withBinding]
  exact owed_modifyBinding fun b _ => hf b

/-- The client that a retry of the transaction `key` of that kind starts from. -/
structure Retries (c : Client) (key : Bytes) (kind : TxKind) (creds : Option Credentials) (n : Nat)
    (d : Client) : Prop where
  pending : d.pending = c.pending.erase key
  creds : d.creds = creds
  nonceRetries : d.nonceRetries = n
  cfg : d.cfg = c.cfg
  drawn : d.drawn = c.drawn
  out : d.out = c.out
  state : kind ≠ .allocate → d.state = c.state
  owed : owed d.bindings ≤ owed c.bindings

/-- The answer 401 or 438 to a transaction, if it is followed, starts a transaction of
the same kind with the new credentials. -/
theorem retry_eq {c : Client} {m : Message} {tx : PendingTx} {creds : Option Credentials} {n : Nat}
    (htx : c.pending[m.transactionID.1]? = some tx) (hkind : ∀ peer, tx.kind ≠ .connect peer)
    (hcls : m.cls = .errorResponse) (hcode : (errorOf m).1 = 401 ∨ (errorOf m).1 = 438)
    (h : ∀ d : Client, d.cfg = c.cfg → d.creds = c.creds → d.nonceRetries = c.nonceRetries →
      d.handleAuthError m (errorOf m).1 (tx.kind ≠ .allocate) = (true, d.withAuth creds n)) :
    ∃ d build, c.handleStunResponse env m = startTx env d tx.kind build ∧
      Retries c m.transactionID.1 tx.kind creds n d ∧ ∀ tid, Built (build tid) := by
  unfold handleStunResponse
  simp only [htx, hcls, decide_true]
  cases hk : tx.kind with
  | allocate =>
    simp only [hk, ne_eq, not_true, decide_false] at h
    unfold handleAllocateResponse
    simp only [if_true, if_pos hcode]
    rw [h { c with pending := c.pending.erase m.transactionID.1 } rfl rfl rfl]
    dsimp only
    rw [allocate_start rfl]
    exact ⟨_, _, rfl, ⟨rfl, rfl, rfl, rfl, rfl, rfl, fun h => absurd rfl h,
      Nat.le_refl _⟩, fun tid => .allocate tid _⟩
  | refresh =>
    simp only [hk, ne_eq, reduceCtorEq, not_false_eq_true, decide_true] at h
    unfold handleRefreshResponse
    simp only [if_true]
    rw [h { c with pending := c.pending.erase m.transactionID.1, refreshTidFresh := false }
      rfl rfl rfl]
    dsimp only
    rw [sendRefresh_start rfl]
    exact ⟨_, _, rfl, ⟨rfl, rfl, rfl, rfl, rfl, rfl, fun _ => rfl, Nat.le_refl _⟩,
      fun tid => .refresh tid _⟩
  | createPermission peer =>
    simp only [hk, ne_eq, reduceCtorEq, not_false_eq_true, decide_true] at h
    unfold handleCreatePermissionResponse
    simp only [Bool.not_true, Bool.false_eq_true, if_false]
    obtain ⟨bs, hbs, howed⟩ := updated_withBinding
      { c with pending := c.pending.erase m.transactionID.1 } peer
      (f := .clearPermissionTid) fun _ h => h
    rw [hbs, h { c with pending := c.pending.erase m.transactionID.1, bindings := bs } rfl rfl rfl]
    dsimp only
    rw [sendCreatePermission_start (getBinding_clearPermissionTid ..)]
    obtain ⟨bs', hbs', howed'⟩ := updated_withBinding
      ({ c with pending := c.pending.erase m.transactionID.1, bindings := bs }.withAuth creds n)
        peer
      (f := .clearPermissionTid) fun _ h => h
    rw [hbs']
    refine ⟨_, _, rfl, ⟨rfl, rfl, rfl, rfl, rfl, rfl, fun _ => rfl, ?_⟩,
      fun tid => .createPermission tid peer⟩
    refine Nat.le_trans (owed_modifyBinding ?_) (Nat.le_trans howed' howed)
    exact fun _ _ h => h
  | channelBind peer =>
    simp only [hk, ne_eq, reduceCtorEq, not_false_eq_true, decide_true] at h
    unfold handleChannelBindResponse
    simp only [Bool.not_true, Bool.false_eq_true, if_false]
    obtain ⟨bs, hbs, howed⟩ := updated_withBinding
      { c with pending := c.pending.erase m.transactionID.1 } peer
      (f := .clearChannelTid) fun _ h => h
    rw [hbs, h { c with pending := c.pending.erase m.transactionID.1, bindings := bs } rfl rfl rfl]
    dsimp only
    rw [sendChannelBind_start (getBinding_clearChannelTid ..)]
    obtain ⟨bs', hbs', howed'⟩ := updated_withBinding
      ({ c with pending := c.pending.erase m.transactionID.1, bindings := bs }.withAuth creds n)
        peer
      (f := .clearChannelTid) fun _ h => h
    rw [hbs']
    refine ⟨_, _, rfl, ⟨rfl, rfl, rfl, rfl, rfl, rfl, fun _ => rfl, ?_⟩,
      fun tid => .channelBind tid peer _⟩
    refine Nat.le_trans (owed_modifyBinding ?_) (Nat.le_trans howed' howed)
    intro b _ h
    rw [owes_channel (channelFor_ne_zero env _ peer)] at h
    cases h
  | connect peer => exact absurd hk (hkind peer)

end Stice.Turn.Client
