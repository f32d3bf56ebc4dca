import Stice.Crypto
import Stice.Lib.Blocks

/-! Streaming digests against their definition: the block function folded over the
padded message. The three contexts of `crypto.cpp` hold what they were given as whole
blocks, already folded in, and a rest shorter than a block. -/
namespace Stice.Crypto
open Lib

/-! ## SHA-256 -/

def sha256K : List UInt32 := [
  0x428a2f98, 0x71374491, 0xb5c0fbcf, 0xe9b5dba5, 0x3956c25b, 0x59f111f1, 0x923f82a4, 0xab1c5ed5,
  0xd807aa98, 0x12835b01, 0x243185be, 0x550c7dc3, 0x72be5d74, 0x80deb1fe, 0x9bdc06a7, 0xc19bf174,
  0xe49b69c1, 0xefbe4786, 0x0fc19dc6, 0x240ca1cc, 0x2de92c6f, 0x4a7484aa, 0x5cb0a9dc, 0x76f988da,
  0x983e5152, 0xa831c66d, 0xb00327c8, 0xbf597fc7, 0xc6e00bf3, 0xd5a79147, 0x06ca6351, 0x14292967,
  0x27b70a85, 0x2e1b2138, 0x4d2c6dfc, 0x53380d13, 0x650a7354, 0x766a0abb, 0x81c2c92e, 0x92722c85,
  0xa2bfe8a1, 0xa81a664b, 0xc24b8b70, 0xc76c51a3, 0xd192e819, 0xd6990624, 0xf40e3585, 0x106aa070,
  0x19a4c116, 0x1e376c08, 0x2748774c, 0x34b0bcb5, 0x391c0cb3, 0x4ed8aa4a, 0x5b9cca4f, 0x682e6ff3,
  0x748f82ee, 0x78a5636f, 0x84c87814, 0x8cc70208, 0x90befffa, 0xa4506ceb, 0xbef9a3f7, 0xc67178f2]

def rotr32 (x n : UInt32) : UInt32 := (x >>> n) ||| (x <<< (32 - n))

structure SHA256State where
  h0 : UInt32
  h1 : UInt32
  h2 : UInt32
  h3 : UInt32
  h4 : UInt32
  h5 : UInt32
  h6 : UInt32
  h7 : UInt32

abbrev SHA256Ctx := HashCtx SHA256State

def sha256Init : SHA256Ctx :=
  ⟨⟨0x6a09e667, 0xbb67ae85, 0x3c6ef372, 0xa54ff53a, 0x510e527f, 0x9b05688c, 0x1f83d9ab,
    0x5be0cd19⟩, 0, []⟩

/-- The message schedule, latest word first: `w[i]` is built from `w[i - 2]`,
`w[i - 7]`, `w[i - 15]` and `w[i - 16]`. -/
def sha256Extend (w : List UInt32) (_ : Nat) : List UInt32 :=
  let s0 := rotr32 (w.getD 14 0) 7 ^^^ rotr32 (w.getD 14 0) 18 ^^^ (w.getD 14 0 >>> 3)
  let s1 := rotr32 (w.getD 1 0) 17 ^^^ rotr32 (w.getD 1 0) 19 ^^^ (w.getD 1 0 >>> 10)
  (w.getD 15 0 + s0 + w.getD 6 0 + s1) :: w

def sha256Schedule (p : Bytes) : List UInt32 :=
  ((List.range 48).foldl sha256Extend
    ((List.range 16).map fun i => readU32Be p (i * 4)).reverse).reverse

def sha256Round (s : SHA256State) (iw : Nat × UInt32) : SHA256State :=
  let S1 := rotr32 s.h4 6 ^^^ rotr32 s.h4 11 ^^^ rotr32 s.h4 25
  let ch := (s.h4 &&& s.h5) ^^^ (~~~s.h4 &&& s.h6)
  let t1 := s.h7 + S1 + ch + sha256K.getD iw.1 0 + iw.2
  let S0 := rotr32 s.h0 2 ^^^ rotr32 s.h0 13 ^^^ rotr32 s.h0 22
  let maj := (s.h0 &&& s.h1) ^^^ (s.h0 &&& s.h2) ^^^ (s.h1 &&& s.h2)
  let t2 := S0 + maj
  ⟨t1 + t2, s.h0, s.h1, s.h2, s.h3 + t1, s.h4, s.h5, s.h6⟩

def sha256Block (c : SHA256State) (p : Bytes) : SHA256State :=
  let s := ((List.range 64).zip (sha256Schedule p)).foldl sha256Round c
  ⟨c.h0 + s.h0, c.h1 + s.h1, c.h2 + s.h2, c.h3 + s.h3, c.h4 + s.h4, c.h5 + s.h5, c.h6 + s.h6,
    c.h7 + s.h7⟩

def sha256Update : SHA256Ctx → Bytes → SHA256Ctx := hashUpdate sha256Block

def sha256Final (c : SHA256Ctx) : Bytes :=
  let s := hashFinal sha256Block lenBytesBe c
  be32 s.h0 ++ be32 s.h1 ++ be32 s.h2 ++ be32 s.h3 ++ be32 s.h4 ++ be32 s.h5 ++ be32 s.h6 ++
    be32 s.h7

def hmacSha256 (key msg : Bytes) : Bytes := hmacImpl sha256Init sha256Update sha256Final key msg

/-! ## The definition of the digests -/

/-- The bytes of a number, least significant first. -/
def littleEndian (n : Nat) : Bytes := (List.range 8).map fun i => UInt8.ofNat (n / 256 ^ i)

def bigEndian (n : Nat) : Bytes := (littleEndian n).reverse

/-- The byte 0x80, as few zeros as fill up the last block, and the bit length. -/
def padded (lengthField : Nat → Bytes) (data : Bytes) : Bytes :=
  data ++ [0x80] ++ List.replicate ((119 - data.length % 64) % 64) 0 ++
    lengthField (8 * data.length)

def digest {σ : Type} (block : σ → Bytes → σ) (lengthField : Nat → Bytes) (init : σ)
    (data : Bytes) : σ := (blocks 64 (padded lengthField data)).foldl block init

def md5Digest (data : Bytes) : Bytes :=
  let s := digest md5Block littleEndian md5Init.state data
  le32 s.a ++ le32 s.b ++ le32 s.c ++ le32 s.d

def sha1Digest (data : Bytes) : Bytes :=
  let s := digest sha1Block bigEndian sha1Init.state data
  be32 s.h0 ++ be32 s.h1 ++ be32 s.h2 ++ be32 s.h3 ++ be32 s.h4

def sha256Digest (data : Bytes) : Bytes :=
  let s := digest sha256Block bigEndian sha256Init.state data
  be32 s.h0 ++ be32 s.h1 ++ be32 s.h2 ++ be32 s.h3 ++ be32 s.h4 ++ be32 s.h5 ++ be32 s.h6 ++
    be32 s.h7

/-- RFC 2104 over the hash function `H` with blocks of 64 bytes. -/
def hmac (H : Bytes → Bytes) (key msg : Bytes) : Bytes :=
  let k := if key.length ≤ 64 then key else H key
  let k0 := k ++ List.replicate (64 - k.length) 0
  H (k0.map (· ^^^ 0x5c) ++ H (k0.map (· ^^^ 0x36) ++ msg))

/-! ## Streaming -/

variable {σ : Type} {block : σ → Bytes → σ} {s₀ : σ} {c : HashCtx σ} {data : Bytes}

/-- What a context holds after `data`. -/
structure Streamed (block : σ → Bytes → σ) (init : σ) (c : HashCtx σ) (data : Bytes) : Prop where
  whole : ∃ whole, data = whole ++ c.buf ∧ 64 ∣ whole.length ∧
    c.state = (blocks 64 whole).foldl block init
  short : c.buf.length < 64
  len : c.len = UInt64.ofNat data.length

theorem Streamed.start (s : σ) : Streamed block s ⟨s, 0, []⟩ [] :=
  ⟨⟨[], rfl, ⟨0, rfl⟩, rfl⟩, Nat.zero_lt_succ 63, rfl⟩

theorem Streamed.length_buf (h : Streamed block s₀ c data) :
    c.buf.length = data.length % 64 := by
  obtain ⟨whole, hdata, ⟨k, hk⟩, -⟩ := h.whole
  have hshort := h.short
  rw [hdata, List.length_append, hk]
  omega

theorem absorb_eq (n : Nat) (s : σ) {data : Bytes} (h : 64 * n ≤ data.length) :
    absorb block n s data = ((blocks 64 (data.take (64 * n))).foldl block s,
      data.drop (64 * n)) := by
  induction n generalizing s data with
  | zero => simp [absorb, blocks]
  | succ n ih =>
    have hfirst : (data.take 64).length = 64 := by
      rw [List.length_take]
      omega
    have hsplit : data.take (64 * (n + 1)) = data.take 64 ++ (data.drop 64).take (64 * n) := by
      rw [Nat.mul_succ, Nat.add_comm, List.take_add]
    rw [absorb, ih _ (by rw [List.length_drop]; omega), hsplit,
      blocks_append (by decide) ⟨1, hfirst⟩, blocks_single (by decide) hfirst, List.drop_drop,
      Nat.mul_succ, Nat.add_comm]
    rfl

/-- The whole blocks of `rest` go in, the bytes after them stay. -/
theorem Streamed.absorb (whole : Bytes) {rest : Bytes} {s : σ} {len : UInt64}
    (hdata : data = whole ++ rest)
    (hwhole : 64 ∣ whole.length) (hs : s = (blocks 64 whole).foldl block s₀)
    (hlen : len = UInt64.ofNat data.length) :
    Streamed block s₀ ⟨(absorb block (rest.length / 64) s rest).1, len,
      (absorb block (rest.length / 64) s rest).2⟩ data := by
  have hle : 64 * (rest.length / 64) ≤ rest.length := Nat.mul_div_le _ _
  rw [absorb_eq _ _ hle]
  refine ⟨⟨whole ++ rest.take (64 * (rest.length / 64)), ?_, ?_, ?_⟩, ?_, hlen⟩
  · rw [List.append_assoc, List.take_append_drop, hdata]
  · rw [List.length_append, List.length_take, Nat.min_eq_left hle]
    exact Nat.dvd_add hwhole (Nat.dvd_mul_right _ _)
  · rw [blocks_append (by decide) hwhole, List.foldl_append, ← hs]
  · rw [List.length_drop]
    omega

theorem Streamed.update (h : Streamed block s₀ c data) (more : Bytes) :
    Streamed block s₀ (hashUpdate block c more) (data ++ more) := by
  obtain ⟨whole, hdata, hwhole, hstate⟩ := h.whole
  have hlen : c.len + UInt64.ofNat more.length = UInt64.ofNat (data ++ more).length := by
    rw [h.len, List.length_append, UInt64.ofNat_add]
  have hkeep (rest : Bytes) : (if rest = [] then [] else rest) = rest := by
    cases rest <;> rfl
  have hshort := h.short
  by_cases hempty : c.buf = []
  · have hupdate : hashUpdate block c more =
      ⟨(Crypto.absorb block (more.length / 64) c.state more).1,
        c.len + UInt64.ofNat more.length,
        (Crypto.absorb block (more.length / 64) c.state more).2⟩ := by
      simp [hashUpdate, hempty]
    rw [hupdate]
    exact .absorb whole (by rw [hdata, hempty, List.append_nil]) hwhole hstate hlen
  by_cases hfill : 64 - c.buf.length ≤ more.length
  · -- the block is completed and folded in
    have htake : min (64 - c.buf.length) more.length = 64 - c.buf.length := Nat.min_eq_left hfill
    generalize ht : 64 - c.buf.length = t at hfill htake
    have hblock : (c.buf ++ more.take t).length = 64 := by
      rw [List.length_append, List.length_take, Nat.min_eq_left hfill]
      omega
    have hupdate : hashUpdate block c more =
        ⟨(Crypto.absorb block ((more.drop t).length / 64) (block c.state (c.buf ++ more.take t))
            (more.drop t)).1, c.len + UInt64.ofNat more.length,
          (Crypto.absorb block ((more.drop t).length / 64) (block c.state (c.buf ++ more.take t))
            (more.drop t)).2⟩ := by
      simp only [hashUpdate, List.isEmpty_iff, hempty, if_false, ht, htake, hblock,
        beq_self_eq_true,
        if_true, hkeep]
    have hmore := List.take_append_drop t more
    rw [hupdate]
    refine .absorb (whole ++ (c.buf ++ more.take t)) ?_ ?_ ?_ hlen
    · rw [hdata, List.append_assoc, List.append_assoc, List.append_assoc, hmore]
    · rw [List.length_append, hblock]
      exact Nat.dvd_add hwhole (Nat.dvd_refl 64)
    · rw [blocks_append (by decide) hwhole, List.foldl_append, ← hstate,
        blocks_single (by decide) hblock]
      rfl
  · -- all of it goes to the buffer
    have htake : min (64 - c.buf.length) more.length = more.length := by omega
    have hpart : c.buf.length + more.length ≠ 64 := by omega
    have hupdate : hashUpdate block c more =
        ⟨c.state, c.len + UInt64.ofNat more.length, c.buf ++ more⟩ := by
      simp [hashUpdate, hempty, htake, Crypto.absorb, hpart]
    rw [hupdate]
    refine ⟨⟨whole, by rw [hdata, List.append_assoc], hwhole, hstate⟩, ?_, hlen⟩
    rw [List.length_append]
    omega

theorem Streamed.foldl_update (h : Streamed block s₀ c data) (chunks : List Bytes) :
    Streamed block s₀ (chunks.foldl (hashUpdate block) c) (data ++ chunks.flatten) := by
  induction chunks generalizing c data with
  | nil => simpa using h
  | cons chunk chunks ih =>
    have hrest := ih (h.update chunk)
    rwa [List.append_assoc] at hrest

/-! ## Finalization -/

/-- The loop stops after the `k` zeros that are missing. -/
theorem Streamed.padZeros {k fuel : Nat} (h : Streamed block s₀ c data)
    (hk : (data.length + k) % 64 = 56) (hlt : k < 64) (hfuel : k < fuel) :
    Streamed block s₀ (padZeros block fuel c) (data ++ List.replicate k 0) := by
  have hbuf := h.length_buf
  obtain ⟨fuel, rfl⟩ : ∃ n, fuel = n + 1 := ⟨fuel - 1, by omega⟩
  induction k generalizing fuel c data with
  | zero =>
    rw [Crypto.padZeros, if_pos (by omega)]
    simpa using h
  | succ k ih =>
    have hnext := h.update [0]
    obtain ⟨fuel, rfl⟩ : ∃ n, fuel = n + 1 := ⟨fuel - 1, by omega⟩
    have hlen : (data ++ [0]).length = data.length + 1 := by simp
    rw [Crypto.padZeros, if_neg (by omega), List.replicate_succ, List.append_cons]
    exact ih hnext (by omega) (by omega) hnext.length_buf fuel (by omega)

theorem lenBytesLe_eq (n : Nat) : lenBytesLe (UInt64.ofNat n) = littleEndian n := by
  apply List.map_congr_left
  intro i hi
  have hi := List.mem_range.mp hi
  apply UInt8.toNat_inj.mp
  interval_cases i <;> simp [Nat.shiftRight_eq_div_pow] <;> omega

theorem lenBytesBe_eq (n : Nat) : lenBytesBe (UInt64.ofNat n) = bigEndian n := by
  rw [bigEndian, ← lenBytesLe_eq]
  rfl

/-- The context after the padding byte and the zeros. -/
theorem Streamed.pad (h : Streamed block s₀ c data) :
    Streamed block s₀ (Crypto.padZeros block 64 (hashUpdate block c [0x80]))
      (data ++ [0x80] ++ List.replicate ((119 - data.length % 64) % 64) 0) := by
  apply (h.update [0x80]).padZeros
  · rw [List.length_append, List.length_singleton]
    omega
  · exact Nat.mod_lt _ (by decide)
  · exact Nat.mod_lt _ (by decide)

theorem Streamed.length_buf_pad (h : Streamed block s₀ c data) :
    (Crypto.padZeros block 64 (hashUpdate block c [0x80])).buf.length = 56 := by
  rw [h.pad.length_buf, List.length_append, List.length_append, List.length_singleton,
    List.length_replicate]
  omega

theorem Streamed.hashFinal {lenBytes : UInt64 → Bytes} {lengthField : Nat → Bytes}
    (hfield : ∀ n, lenBytes (UInt64.ofNat n) = lengthField n)
    (hlength : ∀ n, (lengthField n).length = 8) (h : Streamed block s₀ c data) :
    hashFinal block lenBytes c = digest block lengthField s₀ data := by
  have hbits : lenBytes (c.len * 8) = lengthField (8 * data.length) := by
    rw [← hfield, h.len, Nat.mul_comm, UInt64.ofNat_mul]
    rfl
  have hlast := h.pad.update (lengthField (8 * data.length))
  have hbuf := hlast.length_buf
  rw [List.length_append, ← Nat.mod_add_mod, ← h.pad.length_buf, h.length_buf_pad, hlength] at hbuf
  obtain ⟨whole, hwhole, -, hstate⟩ := hlast.whole
  rw [List.length_eq_zero_iff.mp hbuf, List.append_nil] at hwhole
  rw [Crypto.hashFinal, hbits, hstate, ← hwhole]
  rfl

theorem length_littleEndian (n : Nat) : (littleEndian n).length = 8 := by simp [littleEndian]

theorem length_bigEndian (n : Nat) : (bigEndian n).length = 8 := by
  rw [bigEndian, List.length_reverse, length_littleEndian]

section Digests
variable {data : Bytes}

theorem md5Final_eq {c : MD5Ctx} (h : Streamed md5Block md5Init.state c data) :
    md5Final c = md5Digest data := by
  rw [md5Final, h.hashFinal lenBytesLe_eq length_littleEndian]
  rfl

theorem sha1Final_eq {c : SHA1Ctx} (h : Streamed sha1Block sha1Init.state c data) :
    sha1Final c = sha1Digest data := by
  rw [sha1Final, h.hashFinal lenBytesBe_eq length_bigEndian]
  rfl

theorem sha256Final_eq {c : SHA256Ctx} (h : Streamed sha256Block sha256Init.state c data) :
    sha256Final c = sha256Digest data := by
  rw [sha256Final, h.hashFinal lenBytesBe_eq length_bigEndian]
  rfl

end Digests

/-- HMAC hashes two strings in a row, so it needs the digest of streams of two. -/
theorem hmacImpl_eq {init : HashCtx σ} {final : HashCtx σ → Bytes} {H : Bytes → Bytes}
    (hfinal : ∀ {c data}, Streamed block init.state c data → final c = H data)
    (hinit : Streamed block init.state init []) (key msg : Bytes) :
    hmacImpl init (hashUpdate block) final key msg = hmac H key msg := by
  have hone (a : Bytes) : final (hashUpdate block init a) = H a := hfinal (hinit.update a)
  have htwo (a b : Bytes) : final (hashUpdate block (hashUpdate block init a) b) = H (a ++ b) :=
    hfinal ((hinit.update a).update b)
  simp only [hmacImpl, hmac, hone, htwo]

/-- However a message is split, each context ends with the digest of the whole, its
padding loop stops at 56 buffered bytes, and `hmacImpl` is HMAC over that digest. -/
theorem hash_streaming (chunks : List Bytes) (key msg : Bytes) :
    (md5Final (chunks.foldl md5Update md5Init) = md5Digest chunks.flatten ∧
      sha1Final (chunks.foldl sha1Update sha1Init) = sha1Digest chunks.flatten ∧
      sha256Final (chunks.foldl sha256Update sha256Init) = sha256Digest chunks.flatten) ∧
    ((padZeros md5Block 64 (md5Update (chunks.foldl md5Update md5Init) [0x80])).buf.length = 56 ∧
      (padZeros sha1Block 64 (sha1Update (chunks.foldl sha1Update sha1Init) [0x80])).buf.length =
        56 ∧
      (padZeros sha256Block 64
        (sha256Update (chunks.foldl sha256Update sha256Init) [0x80])).buf.length = 56) ∧
    hmacImpl md5Init md5Update md5Final key msg = hmac md5Digest key msg ∧
      hmacSha1 key msg = hmac sha1Digest key msg ∧
      hmacSha256 key msg = hmac sha256Digest key msg := by
  have hmd5 : Streamed md5Block md5Init.state (chunks.foldl md5Update md5Init) chunks.flatten :=
    (Streamed.start md5Init.state).foldl_update chunks
  have hsha1 : Streamed sha1Block sha1Init.state (chunks.foldl sha1Update sha1Init)
      chunks.flatten := (Streamed.start sha1Init.state).foldl_update chunks
  have hsha256 : Streamed sha256Block sha256Init.state (chunks.foldl sha256Update sha256Init)
      chunks.flatten := (Streamed.start sha256Init.state).foldl_update chunks
  refine ⟨⟨md5Final_eq hmd5, sha1Final_eq hsha1, sha256Final_eq hsha256⟩,
    ⟨hmd5.length_buf_pad, hsha1.length_buf_pad, hsha256.length_buf_pad⟩, ?_, ?_, ?_⟩
  · exact hmacImpl_eq md5Final_eq (.start _) key msg
  · exact hmacImpl_eq sha1Final_eq (.start _) key msg
  · exact hmacImpl_eq sha256Final_eq (.start _) key msg

end Stice.Crypto
