import Stice.Net.Identity

/-! The messages of the mDNS client (`net/mdns.cpp`): names are labels behind their lengths, or
pointers to names elsewhere in the message. A read outside the buffer makes the outer `none`. -/
namespace Stice.Net.Mdns

/-- `data[off .. off + n)`, if it is inside the buffer. -/
def read (data : Bytes) (off n : Nat) : Option Bytes :=
  if off + n ≤ data.length then some (slice data off n) else none

def get16 (data : Bytes) (off : Nat) : Option UInt16 := (read data off 2).map (readU16Be · 0)

def get32 (data : Bytes) (off : Nat) : Option UInt32 := (read data off 4).map (readU32Be · 0)

/-- The loop of `parseName` from `pos` on. `jumped` is where reading goes on after the first
pointer; a loop that breaks off behind a pointer leaves the offset where it was. -/
def parseNameFrom (data : Bytes) (offset : Nat) (name : Bytes) (pos : Nat) (jumped : Option Nat)
    (jumps : Nat) : Option (Bytes × Nat) :=
  if hpos : pos < data.length then
    (read data pos 1).bind fun byte =>
    let b := byteAt byte 0
    if b = 0 then some (name, jumped.getD (pos + 1))
    else if b &&& 0xC0 = 0xC0 then
      if data.length ≤ pos + 1 then some (name, if jumped.isSome then offset else pos)
      else
        (read data (pos + 1) 1).bind fun low =>
        let target := (b &&& 0x3F).toNat * 256 + (byteAt low 0).toNat
        if 10 < jumps + 1 then some (name, offset)
        else parseNameFrom data offset name target (some (jumped.getD (pos + 2))) (jumps + 1)
    else if data.length < pos + 1 + b.toNat then
      some (name, if jumped.isSome then offset else pos)
    else
      (read data (pos + 1) b.toNat).bind fun label =>
      parseNameFrom data offset (name ++ (if name = [] then [] else [46]) ++ label)
        (pos + 1 + b.toNat) jumped jumps
  else some (name, if jumped.isSome then offset else pos)
termination_by (10 - jumps, data.length - pos)

def parseName (data : Bytes) (offset : Nat) : Option (Bytes × Nat) :=
  parseNameFrom data offset [] offset none 0

structure DnsHeader where
  id : UInt16
  flags : UInt16
  qdcount : UInt16
  ancount : UInt16
  nscount : UInt16
  arcount : UInt16
  deriving DecidableEq, Repr

structure DnsQuestion where
  name : Bytes
  type : UInt16
  qclass : UInt16
  deriving DecidableEq, Repr

structure DnsAnswer where
  name : Bytes
  type : UInt16
  rclass : UInt16
  ttl : UInt32
  rdata : Bytes
  deriving DecidableEq, Repr

/-- A question and the offset behind it; the inner `none` is a message that ends too early. -/
def parseQuestion (data : Bytes) (off : Nat) : Option (Option (DnsQuestion × Nat)) := do
  let (name, off) ← parseName data off
  if data.length < off + 4 then return none
  let type ← get16 data off
  let qclass ← get16 data (off + 2)
  return some (⟨name, type, qclass⟩, off + 4)

def parseAnswer (data : Bytes) (off : Nat) : Option (Option (DnsAnswer × Nat)) := do
  let (name, off) ← parseName data off
  if data.length < off + 10 then return none
  let type ← get16 data off
  let rclass ← get16 data (off + 2)
  let ttl ← get32 data (off + 4)
  let rdlength ← get16 data (off + 8)
  if data.length < off + 10 + rdlength.toNat then return none
  let rdata ← read data (off + 10) rdlength.toNat
  return some (⟨name, type, rclass, ttl, rdata⟩, off + 10 + rdlength.toNat)

/-- One of the two loops of `parseMessage`: what was read, and the offset behind it unless the
message ends too early. -/
def parseRecords {α : Type} (parse : Nat → Option (Option (α × Nat))) (size : Nat) :
    Nat → Nat → Option (List α × Option Nat)
  | 0, off => some ([], some off)
  | n + 1, off =>
      if off < size then do
        match ← parse off with
        | none => return ([], none)
        | some (x, off) =>
          let (xs, off) ← parseRecords parse size n off
          return (x :: xs, off)
      else some ([], some off)

/-- What `parseMessage` leaves in its arguments; `ok` is what it returns. -/
structure Parsed where
  ok : Bool
  hdr : Option DnsHeader := none
  questions : List DnsQuestion := []
  answers : List DnsAnswer := []
  deriving DecidableEq, Repr

def parseMessage (data : Bytes) : Option Parsed :=
  if data.length < 12 then some { ok := false }
  else do
    let hdr : DnsHeader := ⟨← get16 data 0, ← get16 data 2, ← get16 data 4, ← get16 data 6,
      ← get16 data 8, ← get16 data 10⟩
    let (questions, off) ← parseRecords (parseQuestion data) data.length hdr.qdcount.toNat 12
    match off with
    | none => return { ok := false, hdr, questions }
    | some off =>
      let (answers, off) ← parseRecords (parseAnswer data) data.length hdr.ancount.toNat off
      return { ok := off.isSome, hdr, questions, answers }

/-! ## Bounds -/

theorem read_of_le {data : Bytes} {off n : Nat} (h : off + n ≤ data.length) :
    read data off n = some (slice data off n) := if_pos h

/-- Each round of the loop reads inside the buffer, and what it adds to the name is there. The
name fits into what has been passed since the last pointer, on top of a buffer for each jump. -/
theorem parseNameFrom_safe {data : Bytes} {offset pos jumps : Nat} {name : Bytes}
    {jumped : Option Nat} (hjump : ∀ p, jumped = some p → offset ≤ p)
    (hpos : jumped = none → offset ≤ pos) (hjumps : jumps ≤ 10)
    (hname : name.length ≤ jumps * data.length + min pos data.length) :
    ∃ out off, parseNameFrom data offset name pos jumped jumps = some (out, off) ∧ offset ≤ off ∧
      out.length ≤ 11 * data.length := by
  have hlong : name.length ≤ 11 * data.length := by
    have := Nat.mul_le_mul_right data.length hjumps
    omega
  have hbreak : offset ≤ if jumped.isSome then offset else pos := by
    split
    · exact le_refl _
    · rename_i hnone
      exact hpos (Option.not_isSome_iff_eq_none.mp hnone)
  rw [parseNameFrom]
  split
  · rename_i hlt
    rw [read_of_le (by omega), Option.bind_some]
    dsimp only
    split
    · refine ⟨name, _, rfl, ?_, hlong⟩
      cases jumped with
      | none => exact (hpos rfl).trans (Nat.le_succ pos)
      | some p => exact hjump p rfl
    split
    · split
      · exact ⟨name, _, rfl, hbreak, hlong⟩
      · rw [read_of_le (by omega), Option.bind_some]
        split
        · exact ⟨name, offset, rfl, le_refl _, hlong⟩
        · refine parseNameFrom_safe ?_ (fun h => absurd h (Option.some_ne_none _)) (by omega) ?_
          · intro p hp
            cases hp
            cases jumped with
            | none => exact (hpos rfl).trans (Nat.le_add_right pos 2)
            | some p => exact hjump p rfl
          · rw [Nat.succ_mul]
            omega
    split
    · exact ⟨name, _, rfl, hbreak, hlong⟩
    · rename_i hlabel
      rw [read_of_le (by omega), Option.bind_some]
      refine parseNameFrom_safe hjump (fun h => (hpos h).trans (by omega)) hjumps ?_
      have hdot : (if name = [] then [] else [(46 : UInt8)]).length ≤ 1 := by split <;> simp
      simp only [List.length_append, slice, List.length_take, List.length_drop]
      omega
  · exact ⟨name, _, rfl, hbreak, hlong⟩
termination_by (10 - jumps, data.length - pos)

theorem parseName_safe (data : Bytes) (off : Nat) :
    ∃ name off', parseName data off = some (name, off') ∧ off ≤ off' ∧
      name.length ≤ 11 * data.length :=
  parseNameFrom_safe (fun _ h => absurd h.symm (Option.some_ne_none _)) (fun _ => le_refl _)
    (Nat.zero_le _) (Nat.zero_le _)

/-- A record is read inside the buffer, and takes at least `k` of its bytes. -/
def Advances {α : Type} (size k : Nat) (parse : Nat → Option (Option (α × Nat))) : Prop :=
  ∀ off, ∃ r, parse off = some r ∧ ∀ x off', r = some (x, off') → off + k ≤ off' ∧ off' ≤ size

theorem get16_of_le {data : Bytes} {off : Nat} (h : off + 2 ≤ data.length) :
    get16 data off = some (readU16Be (slice data off 2) 0) := by
  rw [get16, read_of_le h]
  rfl

theorem parseQuestion_advances (data : Bytes) : Advances data.length 4 (parseQuestion data) := by
  intro off
  obtain ⟨name, off', hname, hle, -⟩ := parseName_safe data off
  simp only [parseQuestion, hname, Option.bind_eq_bind, Option.bind_some]
  split
  · exact ⟨none, rfl, fun _ _ h => absurd h.symm (Option.some_ne_none _)⟩
  · rw [get16_of_le (by omega), get16_of_le (by omega)]
    refine ⟨_, rfl, ?_⟩
    intro x off'' h
    cases h
    omega

theorem parseAnswer_advances (data : Bytes) : Advances data.length 10 (parseAnswer data) := by
  intro off
  obtain ⟨name, off', hname, hle, -⟩ := parseName_safe data off
  simp only [parseAnswer, hname, Option.bind_eq_bind, Option.bind_some]
  split
  · exact ⟨none, rfl, fun _ _ h => absurd h.symm (Option.some_ne_none _)⟩
  · rw [get16_of_le (by omega), get16_of_le (by omega), get16_of_le (by omega), get32,
      read_of_le (by omega)]
    simp only [Option.map_some, Option.bind_some]
    split
    · exact ⟨none, rfl, fun _ _ h => absurd h.symm (Option.some_ne_none _)⟩
    · rw [read_of_le (by omega)]
      refine ⟨_, rfl, ?_⟩
      intro x off'' h
      cases h
      omega

theorem parseRecords_safe {α : Type} {size k : Nat} {parse : Nat → Option (Option (α × Nat))}
    (hparse : Advances size k parse) (n : Nat) {off : Nat} (hoff : off ≤ size) :
    ∃ xs r, parseRecords parse size n off = some (xs, r) ∧ off + k * xs.length ≤ size ∧
      ∀ off', r = some off' → off + k * xs.length ≤ off' ∧ off' ≤ size := by
  induction n generalizing off with
  | zero => exact ⟨[], some off, rfl, hoff, fun _ h => by cases h; exact ⟨le_refl _, hoff⟩⟩
  | succ n ih =>
    rw [parseRecords]
    split
    · obtain ⟨r, hr, hadv⟩ := hparse off
      rw [hr]
      cases r with
      | none => exact ⟨[], none, rfl, hoff, fun _ h => absurd h.symm (Option.some_ne_none _)⟩
      | some p =>
        obtain ⟨x, off'⟩ := p
        obtain ⟨hle, hsize⟩ := hadv x off' rfl
        obtain ⟨xs, r, hxs, hcount, hend⟩ := ih hsize
        refine ⟨x :: xs, r, ?_, ?_, ?_⟩
        · simp [hxs]
        · rw [List.length_cons, Nat.mul_succ]
          omega
        · intro off'' h
          rw [List.length_cons, Nat.mul_succ]
          have := hend off'' h
          omega
    · exact ⟨[], some off, rfl, hoff, fun _ h => by cases h; exact ⟨le_refl _, hoff⟩⟩

/-- `parseName` and `parseMessage` end on every buffer without a read outside it; names, the
progress of every record and their number are bounded. -/
theorem mdns_parser_safe (data : Bytes) :
    (∀ off, ∃ name off', parseName data off = some (name, off') ∧
      name.length ≤ 11 * data.length) ∧
    Advances data.length 4 (parseQuestion data) ∧ Advances data.length 10 (parseAnswer data) ∧
    ∃ m, parseMessage data = some m ∧ m.questions.length + m.answers.length ≤ data.length := by
  refine ⟨?_, parseQuestion_advances data, parseAnswer_advances data, ?_⟩
  · intro off
    obtain ⟨name, off', hname, -, hlength⟩ := parseName_safe data off
    exact ⟨name, off', hname, hlength⟩
  · unfold parseMessage
    split
    · exact ⟨_, rfl, Nat.zero_le _⟩
    · rename_i hsize
      simp only [get16_of_le (show 0 + 2 ≤ data.length by omega),
        get16_of_le (show 2 + 2 ≤ data.length by omega),
        get16_of_le (show 4 + 2 ≤ data.length by omega),
        get16_of_le (show 6 + 2 ≤ data.length by omega),
        get16_of_le (show 8 + 2 ≤ data.length by omega),
        get16_of_le (show 10 + 2 ≤ data.length by omega), Option.bind_eq_bind, Option.bind_some]
      obtain ⟨qs, r, hqs, hcount, hend⟩ := parseRecords_safe (parseQuestion_advances data)
        (readU16Be (slice data 4 2) 0).toNat (show 12 ≤ data.length by omega)
      rw [hqs]
      cases r with
      | none => exact ⟨_, rfl, by dsimp only; rw [List.length_nil]; omega⟩
      | some off =>
        obtain ⟨hle, hoff⟩ := hend off rfl
        obtain ⟨as, r, has, hcount', -⟩ := parseRecords_safe (parseAnswer_advances data)
          (readU16Be (slice data 6 2) 0).toNat hoff
        simp only [Option.bind_some, has]
        exact ⟨_, rfl, by dsimp only; omega⟩

/-! ## Encoding -/

def kDnsTypeA : UInt16 := 1
def kDnsTypeAAAA : UInt16 := 28
def kDnsClassIN : UInt16 := 1
def kDnsClassINUnicast : UInt16 := 0x8001
def kResponseTTL : UInt32 := 120

/-- A label of a name; empty ones are left out. -/
def encodeLabel (label : Bytes) : Bytes :=
  if label = [] then [] else UInt8.ofNat label.length :: label

def encodeName (name : Bytes) : Bytes := (name.splitOn 46).flatMap encodeLabel ++ [0]

def encodeQuery (name : Bytes) (type : UInt16) : Bytes :=
  be16 0 ++ be16 0 ++ be16 1 ++ be16 0 ++ be16 0 ++ be16 0 ++
    encodeName name ++ be16 type ++ be16 kDnsClassINUnicast

/-- The length and the data of an address; neither if it is none of that type. -/
def encodeAddress (pton : InetPton) (type : UInt16) (addr : Bytes) : Bytes :=
  if type = kDnsTypeA then (pton.inet addr).elim [] fun b => be16 4 ++ b.1
  else if type = kDnsTypeAAAA then (pton.inet6 addr).elim [] fun b => be16 16 ++ b.1
  else []

def encodeResponse (pton : InetPton) (id : UInt16) (name : Bytes) (type : UInt16)
    (addr : Bytes) : Bytes :=
  be16 id ++ be16 0x8400 ++ be16 0 ++ be16 1 ++ be16 0 ++ be16 0 ++
    encodeName name ++ be16 type ++ be16 kDnsClassIN ++ be32 kResponseTTL ++
    encodeAddress pton type addr

/-- The labels of a host name. -/
def HostName (name : Bytes) : Prop := ∀ l ∈ name.splitOn 46, 1 ≤ l.length ∧ l.length ≤ 63

/-- The label at `pos` is read, and the loop goes on behind it. -/
theorem parseNameFrom_label {data label rest name : Bytes} {offset pos jumps : Nat}
    {jumped : Option Nat} (hlabel : 1 ≤ label.length ∧ label.length ≤ 63)
    (h : data.drop pos = encodeLabel label ++ rest) :
    parseNameFrom data offset name pos jumped jumps =
      parseNameFrom data offset (name ++ (if name = [] then [] else [46]) ++ label)
        (pos + (encodeLabel label).length) jumped jumps := by
  have hne : label ≠ [] := List.ne_nil_of_length_pos hlabel.1
  rw [encodeLabel, if_neg hne] at h ⊢
  have hcode : (UInt8.ofNat label.length).toNat = label.length := by
    rw [UInt8.toNat_ofNat']
    omega
  have hsize : pos + 1 + label.length ≤ data.length := by
    have := congrArg List.length h
    simp only [List.length_drop, List.length_cons, List.length_append] at this
    omega
  have hbyte : byteAt (slice data pos 1) 0 = UInt8.ofNat label.length := by
    rw [slice, h]
    rfl
  have hread : slice data (pos + 1) label.length = label := by
    have hbehind : data.drop (pos + 1) = label ++ rest := by
      rw [← List.drop_drop, h]
      rfl
    exact slice_of_drop hbehind
  have hzero : UInt8.ofNat label.length ≠ 0 := by
    intro h0
    rw [h0] at hcode
    exact absurd hcode.symm (by simpa using Nat.ne_of_gt hlabel.1)
  have hplain : UInt8.ofNat label.length &&& 0xC0 ≠ 0xC0 := by
    intro hmask
    have hand := congrArg UInt8.toNat hmask
    rw [UInt8.toNat_and, hcode] at hand
    have hle : label.length &&& 192 ≤ label.length := Nat.and_le_left
    have : label.length &&& 192 = 192 := hand
    omega
  rw [parseNameFrom, dif_pos (by omega), read_of_le (by omega), Option.bind_some]
  simp only [hbyte, if_neg hzero, if_neg hplain, hcode]
  rw [if_neg (by omega), read_of_le hsize, Option.bind_some, hread, List.length_cons]
  congr 1
  omega

/-- The name the labels make up, behind what has been read. -/
def joinLabels (name : Bytes) (labels : List Bytes) : Bytes :=
  labels.foldl (fun n l => n ++ (if n = [] then [] else [46]) ++ l) name

theorem parseNameFrom_labels {data rest : Bytes} {offset : Nat} {labels : List Bytes}
    (hlabels : ∀ l ∈ labels, 1 ≤ l.length ∧ l.length ≤ 63) {name : Bytes} {pos : Nat}
    (h : data.drop pos = labels.flatMap encodeLabel ++ 0 :: rest) :
    parseNameFrom data offset name pos none 0 =
      some (joinLabels name labels, pos + (labels.flatMap encodeLabel).length + 1) := by
  induction labels generalizing name pos with
  | nil =>
    have hlt : pos < data.length := by
      have := congrArg List.length h
      simp at this
      omega
    have hbyte : byteAt (slice data pos 1) 0 = 0 := by
      rw [slice, h]
      rfl
    rw [parseNameFrom, dif_pos hlt, read_of_le hlt, Option.bind_some]
    simp only [hbyte]
    rfl
  | cons l ls ih =>
    rw [List.flatMap_cons, List.append_assoc] at h
    rw [parseNameFrom_label (hlabels l List.mem_cons_self) h,
      ih (fun l hl => hlabels l (List.mem_cons_of_mem _ hl)) (by rw [← List.drop_drop, h]; simp)]
    simp only [joinLabels, List.foldl_cons, List.flatMap_cons, List.length_append, Nat.add_assoc]

theorem joinLabels_of_ne {name : Bytes} (hname : name ≠ []) (labels : List Bytes) :
    joinLabels name labels = name ++ labels.flatMap (46 :: ·) := by
  induction labels generalizing name with
  | nil => simp [joinLabels]
  | cons l ls ih =>
    have := ih (show name ++ 46 :: l ≠ [] by simp)
    simpa [joinLabels, hname] using this

theorem intercalate_dot (l : Bytes) (ls : List Bytes) :
    List.intercalate [46] (l :: ls) = l ++ ls.flatMap (46 :: ·) := by
  induction ls generalizing l with
  | nil => simp [List.intercalate]
  | cons m ls ih =>
    have := ih m
    simp [List.intercalate] at this ⊢
    rw [this]

theorem joinLabels_splitOn {name : Bytes} (h : HostName name) :
    joinLabels [] (name.splitOn 46) = name := by
  unfold HostName at h
  have hname : List.intercalate [46] (name.splitOn 46) = name := List.intercalate_splitOn 46
  cases hsplit : name.splitOn 46 with
  | nil => exact absurd hsplit (List.splitOn_ne_nil 46 name)
  | cons l ls =>
    rw [hsplit] at h hname
    have hl : l ≠ [] := List.ne_nil_of_length_pos (h l List.mem_cons_self).1
    have hjoin := joinLabels_of_ne hl ls
    rw [intercalate_dot] at hname
    rw [← hname, ← hjoin]
    rfl

/-- The name is read back, with the offset behind it. -/
theorem parseName_encodeName {data rest name : Bytes} {off : Nat} (hname : HostName name)
    (h : data.drop off = encodeName name ++ rest) :
    parseName data off = some (name, off + (encodeName name).length) := by
  rw [encodeName, List.append_assoc] at h
  rw [parseName, parseNameFrom_labels hname h, joinLabels_splitOn hname, encodeName,
    List.length_append]
  rfl

/-- A dot at the end makes no label. -/
theorem encodeName_dot (name : Bytes) : encodeName (name ++ [46]) = encodeName name := by
  have hsplit : (name ++ [46]).splitOn 46 = name.splitOn 46 ++ [[]] :=
    List.splitOn_append_cons_self name []
  rw [encodeName, hsplit, List.flatMap_append]
  simp [encodeName, encodeLabel]

theorem read_of_drop {data v rest : Bytes} {off n : Nat} (h : data.drop off = v ++ rest)
    (hn : v.length = n) (hpos : 0 < n) : read data off n = some v := by
  have hlength := congrArg List.length h
  rw [List.length_drop, List.length_append, hn] at hlength
  subst hn
  rw [read_of_le (by omega), slice_of_drop h]

theorem get16_of_drop {data rest : Bytes} {off : Nat} (v : UInt16)
    (h : data.drop off = be16 v ++ rest) : get16 data off = some v := by
  have hread : read data off 2 = some (be16 v) := read_of_drop h rfl (by decide)
  have hvalue : readU16Be (be16 v) 0 = v := readU16Be_of_drop (List.append_nil (be16 v)).symm
  rw [get16, hread, Option.map_some, hvalue]

theorem get32_of_drop {data rest : Bytes} {off : Nat} (v : UInt32)
    (h : data.drop off = be32 v ++ rest) : get32 data off = some v := by
  have hread : read data off 4 = some (be32 v) := read_of_drop h rfl (by decide)
  have hvalue : readU32Be (be32 v) 0 = v := readU32Be_of_drop (List.append_nil (be32 v)).symm
  rw [get32, hread, Option.map_some, hvalue]

/-- What stands behind `v` when `v` stands at `off`. -/
theorem drop_behind {data v rest : Bytes} {off : Nat} (h : data.drop off = v ++ rest) :
    data.drop (off + v.length) = rest := by
  rw [← List.drop_drop, h, List.drop_left]

theorem le_length_of_drop {data v rest : Bytes} {off : Nat} (h : data.drop off = v ++ rest)
    (hv : v ≠ []) : off + v.length ≤ data.length := by
  have hlength := congrArg List.length h
  have := List.length_pos_of_ne_nil hv
  rw [List.length_drop, List.length_append] at hlength
  omega

theorem name_inside {data name rest : Bytes} {off : Nat}
    (h : data.drop off = encodeName name ++ rest) : off < data.length := by
  have hname : encodeName name ≠ [] := by simp [encodeName]
  have := List.length_pos_of_ne_nil hname
  have := le_length_of_drop h hname
  omega

theorem parseQuestion_encoded {data name : Bytes} {off : Nat} {type qclass : UInt16}
    (hname : HostName name)
    (h : data.drop off = encodeName name ++ (be16 type ++ be16 qclass)) :
    parseQuestion data off =
      some (some (⟨name, type, qclass⟩, off + (encodeName name).length + 4)) := by
  have h1 := drop_behind h
  have h2 : data.drop (off + (encodeName name).length + 2) = be16 qclass := drop_behind h1
  have hsize := le_length_of_drop h1 (by simp [be16])
  have hsize' := le_length_of_drop (h2.trans (List.append_nil _).symm) (by simp [be16])
  have hroom : ¬ data.length < off + (encodeName name).length + 4 := by
    simp only [be16, List.length_cons, List.length_nil] at hsize'
    omega
  simp only [parseQuestion, Option.bind_eq_bind, parseName_encodeName hname h, Option.bind_some,
    if_neg hroom, get16_of_drop type h1,
    get16_of_drop qclass (h2.trans (List.append_nil _).symm)]
  rfl

theorem parseAnswer_encoded {data name rdata : Bytes} {off : Nat} {type rclass rdlength : UInt16}
    {ttl : UInt32} (hname : HostName name) (hlength : rdata.length = rdlength.toNat)
    (hrdata : rdata ≠ [])
    (h : data.drop off = encodeName name ++
      (be16 type ++ (be16 rclass ++ (be32 ttl ++ (be16 rdlength ++ rdata))))) :
    parseAnswer data off = some (some (⟨name, type, rclass, ttl, rdata⟩,
      off + (encodeName name).length + 10 + rdlength.toNat)) := by
  have h1 := drop_behind h
  have h2 : data.drop (off + (encodeName name).length + 2) = _ := drop_behind h1
  have h3 : data.drop (off + (encodeName name).length + 4) = _ := drop_behind h2
  have h4 : data.drop (off + (encodeName name).length + 8) = _ := drop_behind h3
  have h5 : data.drop (off + (encodeName name).length + 10) = rdata ++ [] :=
    (drop_behind h4).trans (List.append_nil _).symm
  have hsize := le_length_of_drop h5 hrdata
  have hroom : ¬ data.length < off + (encodeName name).length + 10 := by omega
  have hroom' : ¬ data.length < off + (encodeName name).length + 10 + rdlength.toNat := by omega
  have hpos : 0 < rdlength.toNat := hlength ▸ List.length_pos_of_ne_nil hrdata
  simp only [parseAnswer, Option.bind_eq_bind, parseName_encodeName hname h, Option.bind_some,
    if_neg hroom, get16_of_drop type h1, get16_of_drop rclass h2, get32_of_drop ttl h3,
    get16_of_drop rdlength h4, if_neg hroom', read_of_drop h5 hlength hpos]
  rfl

/-- A message behind its header. -/
theorem parseMessage_header {data rest : Bytes} {id flags qd an ns ar : UInt16}
    (h : data = be16 id ++ (be16 flags ++ (be16 qd ++ (be16 an ++ (be16 ns ++ (be16 ar ++ rest))))))
    : parseMessage data = (parseRecords (parseQuestion data) data.length qd.toNat 12).bind
      fun q => match q.2 with
        | none => some ⟨false, some ⟨id, flags, qd, an, ns, ar⟩, q.1, []⟩
        | some off => (parseRecords (parseAnswer data) data.length an.toNat off).bind fun a =>
            some ⟨a.2.isSome, some ⟨id, flags, qd, an, ns, ar⟩, q.1, a.1⟩ := by
  have h0 : data.drop 0 = _ := h
  have h2 : data.drop 2 = _ := drop_behind h0
  have h4 : data.drop 4 = _ := drop_behind h2
  have h6 : data.drop 6 = _ := drop_behind h4
  have h8 : data.drop 8 = _ := drop_behind h6
  have h10 : data.drop 10 = _ := drop_behind h8
  have hsize := le_length_of_drop h10 (by simp [be16])
  have hlarge : ¬ data.length < 12 := Nat.not_lt.mpr hsize
  simp only [parseMessage, if_neg hlarge, get16_of_drop _ h0, get16_of_drop _ h2,
    get16_of_drop _ h4, get16_of_drop _ h6, get16_of_drop _ h8, get16_of_drop _ h10,
    Option.bind_eq_bind, Option.bind_some]
  rfl

/-- A message of a question and nothing else. -/
theorem parseMessage_encodeQuery {name : Bytes} (type : UInt16) (hname : HostName name) :
    parseMessage (encodeQuery name type) = some ⟨true, some ⟨0, 0, 1, 0, 0, 0⟩,
      [⟨name, type, kDnsClassINUnicast⟩], []⟩ := by
  have hdata : encodeQuery name type = be16 0 ++ (be16 0 ++ (be16 1 ++ (be16 0 ++ (be16 0 ++
      (be16 0 ++ (encodeName name ++ (be16 type ++ be16 kDnsClassINUnicast))))))) := by
    simp only [encodeQuery, List.append_assoc]
  have h12 : (encodeQuery name type).drop 12 =
      encodeName name ++ (be16 type ++ be16 kDnsClassINUnicast) := congrArg (List.drop 12) hdata
  rw [parseMessage_header hdata]
  simp only [show (1 : UInt16).toNat = 1 from rfl, show (0 : UInt16).toNat = 0 from rfl,
    parseRecords, if_pos (name_inside h12), parseQuestion_encoded hname h12]
  rfl

/-- A message of an answer with `rdata` and nothing else. -/
theorem parseMessage_answer {name data rdata : Bytes} {id type : UInt16} (rdlength : UInt16)
    (hname : HostName name) (hlength : rdata.length = rdlength.toNat) (hrdata : rdata ≠ [])
    (hdata : data = be16 id ++ (be16 0x8400 ++ (be16 0 ++ (be16 1 ++ (be16 0 ++ (be16 0 ++
      (encodeName name ++ (be16 type ++ (be16 kDnsClassIN ++ (be32 kResponseTTL ++
        (be16 rdlength ++ rdata))))))))))) :
    parseMessage data = some ⟨true, some ⟨id, 0x8400, 0, 1, 0, 0⟩, [],
      [⟨name, type, kDnsClassIN, kResponseTTL, rdata⟩]⟩ := by
  have h12 : data.drop 12 = encodeName name ++ (be16 type ++ (be16 kDnsClassIN ++
      (be32 kResponseTTL ++ (be16 rdlength ++ rdata)))) := congrArg (List.drop 12) hdata
  rw [parseMessage_header hdata]
  simp only [show (1 : UInt16).toNat = 1 from rfl, show (0 : UInt16).toNat = 0 from rfl,
    parseRecords, Option.bind_some, if_pos (name_inside h12),
      parseAnswer_encoded hname hlength hrdata h12]
  rfl

/-- What the encoders write is what the parser reads: a query is the question alone, a response
the answer alone with the bytes `inet_pton` gives for the address. A dot at the end is lost. -/
theorem encode_parse (pton : InetPton) {name spelled : Bytes} (hname : HostName name)
    (hspelled : spelled = name ∨ spelled = name ++ [46]) :
    (∀ type, type = kDnsTypeA ∨ type = kDnsTypeAAAA →
      parseMessage (encodeQuery spelled type) = some ⟨true, some ⟨0, 0, 1, 0, 0, 0⟩,
        [⟨name, type, kDnsClassINUnicast⟩], []⟩) ∧
    (∀ id addr b, pton.inet addr = some b →
      parseMessage (encodeResponse pton id spelled kDnsTypeA addr) =
        some ⟨true, some ⟨id, 0x8400, 0, 1, 0, 0⟩, [],
          [⟨name, kDnsTypeA, kDnsClassIN, kResponseTTL, b.1⟩]⟩) ∧
    (∀ id addr b, pton.inet6 addr = some b →
      parseMessage (encodeResponse pton id spelled kDnsTypeAAAA addr) =
        some ⟨true, some ⟨id, 0x8400, 0, 1, 0, 0⟩, [],
          [⟨name, kDnsTypeAAAA, kDnsClassIN, kResponseTTL, b.1⟩]⟩) := by
  have hencode : encodeName spelled = encodeName name := by
    rcases hspelled with rfl | rfl
    · rfl
    · exact encodeName_dot name
  refine ⟨?_, ?_, ?_⟩
  · intro type _
    rw [← parseMessage_encodeQuery type hname, encodeQuery, hencode, encodeQuery]
  · intro id addr b hb
    refine parseMessage_answer 4 hname b.2
      (List.ne_nil_of_length_pos (by rw [b.2]; decide)) ?_
    simp only [encodeResponse, encodeAddress, if_true, hb, Option.elim_some, hencode,
      List.append_assoc]
  · intro id addr b hb
    refine parseMessage_answer 16 hname b.2
      (List.ne_nil_of_length_pos (by rw [b.2]; decide)) ?_
    simp only [encodeResponse, encodeAddress, if_true,
      if_neg (show ¬ kDnsTypeAAAA = kDnsTypeA by decide), hb, Option.elim_some, hencode,
      List.append_assoc]

/-- The answer for `b.local.` with the address `10.0.0.1`. -/
theorem encode_parse_local :
    numericPton.inet [49, 48, 46, 48, 46, 48, 46, 49] = some ⟨[10, 0, 0, 1], rfl⟩ ∧
      HostName [98, 46, 108, 111, 99, 97, 108] ∧
      parseMessage (encodeResponse numericPton 7 [98, 46, 108, 111, 99, 97, 108, 46] kDnsTypeA
          [49, 48, 46, 48, 46, 48, 46, 49]) =
        some ⟨true, some ⟨7, 0x8400, 0, 1, 0, 0⟩, [],
          [⟨[98, 46, 108, 111, 99, 97, 108], kDnsTypeA, kDnsClassIN, kResponseTTL,
            [10, 0, 0, 1]⟩]⟩ := by
  have hname : HostName [98, 46, 108, 111, 99, 97, 108] := by
    unfold HostName
    decide
  have haddr : numericPton.inet [49, 48, 46, 48, 46, 48, 46, 49] = some ⟨[10, 0, 0, 1], rfl⟩ := by
    decide
  exact ⟨haddr, hname, (encode_parse _ hname (.inr rfl)).2.1 7 _ ⟨[10, 0, 0, 1], rfl⟩ haddr⟩

end Stice.Net.Mdns
