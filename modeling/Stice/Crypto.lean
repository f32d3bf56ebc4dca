import Stice.Types

/-! The digests of `crypto.cpp` that STUN and TURN use: MD5 for the long-term
key, HMAC-SHA1 for MESSAGE-INTEGRITY and CRC32 for FINGERPRINT. The streaming
contexts differ in their block function only, so `HashCtx` is shared. -/
namespace Stice.Crypto

def rotl32 (x n : UInt32) : UInt32 := (x <<< n) ||| (x >>> (32 - n))

/-! ## Streaming -/

/-- A streaming context. `buf` is the filled part of the 64-byte block buffer,
so `bufLen` is its length. -/
structure HashCtx (σ : Type) where
  state : σ
  len : UInt64
  buf : Bytes

/-- `while (len >= 64)`: the loop runs once for each whole block of `data`. -/
def absorb {σ : Type} (block : σ → Bytes → σ) : Nat → σ → Bytes → σ × Bytes
  | 0, s, data => (s, data)
  | n + 1, s, data => absorb block n (block s (data.take 64)) (data.drop 64)

def hashUpdate {σ : Type} (block : σ → Bytes → σ) (c : HashCtx σ) (data : Bytes) : HashCtx σ :=
  let len := c.len + UInt64.ofNat data.length
  -- the partly filled block takes what it needs first
  let take := if c.buf.isEmpty then 0 else min (64 - c.buf.length) data.length
  let buf := c.buf ++ data.take take
  let rest := data.drop take
  let full := buf.length == 64
  let state := if full then block c.state buf else c.state
  let buf := if full then [] else buf
  let (state, rest) := absorb block (rest.length / 64) state rest
  ⟨state, len, if rest.isEmpty then buf else rest⟩

/-- `while (c.bufLen != 56)`: at most 63 zero bytes are needed. -/
def padZeros {σ : Type} (block : σ → Bytes → σ) : Nat → HashCtx σ → HashCtx σ
  | 0, c => c
  | n + 1, c => if c.buf.length = 56 then c else padZeros block n (hashUpdate block c [0])

/-- The common part of the three `Final` functions: `lenBytes` lays out the
64-bit bit count. -/
def hashFinal {σ : Type} (block : σ → Bytes → σ) (lenBytes : UInt64 → Bytes)
    (c : HashCtx σ) : σ :=
  let bits := c.len * 8
  let c := hashUpdate block c [0x80]
  let c := padZeros block 64 c
  (hashUpdate block c (lenBytes bits)).state

def lenBytesLe (bits : UInt64) : Bytes :=
  (List.range 8).map fun i => (bits >>> UInt64.ofNat (8 * i)).toUInt8

def lenBytesBe (bits : UInt64) : Bytes :=
  (List.range 8).map fun i => (bits >>> UInt64.ofNat (56 - 8 * i)).toUInt8

/-! ## MD5 -/

structure MD5State where
  a : UInt32
  b : UInt32
  c : UInt32
  d : UInt32

abbrev MD5Ctx := HashCtx MD5State

def md5Init : MD5Ctx := ⟨⟨0x67452301, 0xefcdab89, 0x98badcfe, 0x10325476⟩, 0, []⟩

def md5K : List UInt32 := [
  0xd76aa478, 0xe8c7b756, 0x242070db, 0xc1bdceee, 0xf57c0faf, 0x4787c62a, 0xa8304613, 0xfd469501,
  0x698098d8, 0x8b44f7af, 0xffff5bb1, 0x895cd7be, 0x6b901122, 0xfd987193, 0xa679438e, 0x49b40821,
  0xf61e2562, 0xc040b340, 0x265e5a51, 0xe9b6c7aa, 0xd62f105d, 0x02441453, 0xd8a1e681, 0xe7d3fbc8,
  0x21e1cde6, 0xc33707d6, 0xf4d50d87, 0x455a14ed, 0xa9e3e905, 0xfcefa3f8, 0x676f02d9, 0x8d2a4c8a,
  0xfffa3942, 0x8771f681, 0x6d9d6122, 0xfde5380c, 0xa4beea44, 0x4bdecfa9, 0xf6bb4b60, 0xbebfbc70,
  0x289b7ec6, 0xeaa127fa, 0xd4ef3085, 0x04881d05, 0xd9d4d039, 0xe6db99e5, 0x1fa27cf8, 0xc4ac5665,
  0xf4292244, 0x432aff97, 0xab9423a7, 0xfc93a039, 0x655b59c3, 0x8f0ccc92, 0xffeff47d, 0x85845dd1,
  0x6fa87e4f, 0xfe2ce6e0, 0xa3014314, 0x4e0811a1, 0xf7537e82, 0xbd3af235, 0x2ad7d2bb, 0xeb86d391]

def md5S : List UInt32 := [
  7, 12, 17, 22, 7, 12, 17, 22, 7, 12, 17, 22, 7, 12, 17, 22,
  5, 9, 14, 20, 5, 9, 14, 20, 5, 9, 14, 20, 5, 9, 14, 20,
  4, 11, 16, 23, 4, 11, 16, 23, 4, 11, 16, 23, 4, 11, 16, 23,
  6, 10, 15, 21, 6, 10, 15, 21, 6, 10, 15, 21, 6, 10, 15, 21]

def wordLe (p : Bytes) (off : Nat) : UInt32 :=
  (byteAt p off).toUInt32 ||| ((byteAt p (off + 1)).toUInt32 <<< 8) |||
    ((byteAt p (off + 2)).toUInt32 <<< 16) ||| ((byteAt p (off + 3)).toUInt32 <<< 24)

def md5Round (p : Bytes) (s : MD5State) (i : Nat) : MD5State :=
  let (f, g) :=
    if i < 16 then ((s.b &&& s.c) ||| (~~~s.b &&& s.d), i)
    else if i < 32 then ((s.d &&& s.b) ||| (~~~s.d &&& s.c), (5 * i + 1) % 16)
    else if i < 48 then (s.b ^^^ s.c ^^^ s.d, (3 * i + 5) % 16)
    else (s.c ^^^ (s.b ||| ~~~s.d), (7 * i) % 16)
  let b := s.b + rotl32 (s.a + f + md5K.getD i 0 + wordLe p (g * 4)) (md5S.getD i 0)
  ⟨s.d, b, s.b, s.c⟩

def md5Block (c : MD5State) (p : Bytes) : MD5State :=
  let s := (List.range 64).foldl (md5Round p) c
  ⟨c.a + s.a, c.b + s.b, c.c + s.c, c.d + s.d⟩

def md5Update : MD5Ctx → Bytes → MD5Ctx := hashUpdate md5Block

def le32 (v : UInt32) : Bytes := (be32 v).reverse

def md5Final (c : MD5Ctx) : Bytes :=
  let s := hashFinal md5Block lenBytesLe c
  le32 s.a ++ le32 s.b ++ le32 s.c ++ le32 s.d

def md5 (data : Bytes) : Bytes := md5Final (md5Update md5Init data)

/-! ## SHA-1 -/

structure SHA1State where
  h0 : UInt32
  h1 : UInt32
  h2 : UInt32
  h3 : UInt32
  h4 : UInt32

abbrev SHA1Ctx := HashCtx SHA1State

def sha1Init : SHA1Ctx :=
  ⟨⟨0x67452301, 0xEFCDAB89, 0x98BADCFE, 0x10325476, 0xC3D2E1F0⟩, 0, []⟩

/-- The message schedule, latest word first: `w[i]` is built from `w[i - 3]`,
`w[i - 8]`, `w[i - 14]` and `w[i - 16]`. -/
def sha1Extend (w : List UInt32) (_ : Nat) : List UInt32 :=
  rotl32 (w.getD 2 0 ^^^ w.getD 7 0 ^^^ w.getD 13 0 ^^^ w.getD 15 0) 1 :: w

def sha1Schedule (p : Bytes) : List UInt32 :=
  ((List.range 64).foldl sha1Extend
    ((List.range 16).map fun i => readU32Be p (i * 4)).reverse).reverse

def sha1Round (s : SHA1State) (iw : Nat × UInt32) : SHA1State :=
  let (f, k) :=
    if iw.1 < 20 then ((s.h1 &&& s.h2) ||| (~~~s.h1 &&& s.h3), (0x5A827999 : UInt32))
    else if iw.1 < 40 then (s.h1 ^^^ s.h2 ^^^ s.h3, 0x6ED9EBA1)
    else if iw.1 < 60 then
      ((s.h1 &&& s.h2) ||| (s.h1 &&& s.h3) ||| (s.h2 &&& s.h3), 0x8F1BBCDC)
    else (s.h1 ^^^ s.h2 ^^^ s.h3, 0xCA62C1D6)
  let t := rotl32 s.h0 5 + f + s.h4 + k + iw.2
  ⟨t, s.h0, rotl32 s.h1 30, s.h2, s.h3⟩

def sha1Block (c : SHA1State) (p : Bytes) : SHA1State :=
  let s := ((List.range 80).zip (sha1Schedule p)).foldl sha1Round c
  ⟨c.h0 + s.h0, c.h1 + s.h1, c.h2 + s.h2, c.h3 + s.h3, c.h4 + s.h4⟩

def sha1Update : SHA1Ctx → Bytes → SHA1Ctx := hashUpdate sha1Block

def sha1Final (c : SHA1Ctx) : Bytes :=
  let s := hashFinal sha1Block lenBytesBe c
  be32 s.h0 ++ be32 s.h1 ++ be32 s.h2 ++ be32 s.h3 ++ be32 s.h4

/-! ## HMAC and CRC32 -/

def hmacImpl {σ : Type} (init : HashCtx σ) (update : HashCtx σ → Bytes → HashCtx σ)
    (final : HashCtx σ → Bytes) (key msg : Bytes) : Bytes :=
  let k := if key.length ≤ 64 then key else final (update init key)
  let k0 := k ++ List.replicate (64 - k.length) 0
  let inner := final (update (update init (k0.map (· ^^^ 0x36))) msg)
  final (update (update init (k0.map (· ^^^ 0x5c))) inner)

def hmacSha1 (key msg : Bytes) : Bytes := hmacImpl sha1Init sha1Update sha1Final key msg

theorem length_hmacSha1 (key msg : Bytes) : (hmacSha1 key msg).length = 20 := rfl

def crcEntry (i : UInt32) : UInt32 :=
  (List.range 8).foldl (fun c _ =>
    if c &&& 1 ≠ 0 then (0xEDB88320 : UInt32) ^^^ (c >>> 1) else c >>> 1) i

def crcTable : List UInt32 := (List.range 256).map fun i => crcEntry (UInt32.ofNat i)

def crcStep (crc : UInt32) (b : UInt8) : UInt32 :=
  crcTable.getD ((crc ^^^ b.toUInt32) &&& 0xFF).toNat 0 ^^^ (crc >>> 8)

def crc32 (data : Bytes) : UInt32 := data.foldl crcStep 0xFFFFFFFF ^^^ 0xFFFFFFFF

/-- `MD5(username ":" realm ":" password)`. -/
def longTermKey (username realm password : Bytes) : Bytes :=
  md5 (username ++ [0x3A] ++ realm ++ [0x3A] ++ password)

end Stice.Crypto
