/-
OvsSgx.Hash — the hash functions of trusted/lib/hash.h and hash.c.

All arithmetic is on 32-bit words, so `BitVec 32` is used as it is.
-/
import Mathlib.Data.List.Basic

namespace OvsSgx

/-- A `uint32_t`. -/
abbrev U32 := BitVec 32

/-- `hash_rot`: rotate left by `k`. -/
def hashRot (x : U32) (k : Nat) : U32 := (x <<< k) ||| (x >>> (32 - k))

/-- `mhash_add__`. -/
def mhashAddCore (hash data : U32) : U32 :=
  hash ^^^ (hashRot (data * 0xcc9e2d51#32) 15 * 0x1b873593#32)

/-- `mhash_add`. -/
def mhashAdd (hash data : U32) : U32 :=
  hashRot (mhashAddCore hash data) 13 * 5#32 + 0xe6546b64#32

/-- `mhash_finish`. -/
def mhashFinish (hash : U32) (nBytes : Nat) : U32 :=
  let h := hash ^^^ BitVec.ofNat 32 nBytes
  let h := h ^^^ (h >>> 16)
  let h := h * 0x85ebca6b#32
  let h := h ^^^ (h >>> 13)
  let h := h * 0xc2b2ae35#32
  h ^^^ (h >>> 16)

/-- `hash_2words`. -/
def hash2words (x y : U32) : U32 := mhashFinish (mhashAdd (mhashAdd x 0#32) y) 4

/-- `hash_int`. -/
def hashInt (x basis : U32) : U32 := hash2words x basis

/-- `hash_3words`. -/
def hash3words (a b c : U32) : U32 :=
  mhashFinish (mhashAdd (mhashAdd (mhashAdd a 0#32) b) c) 12

/-- `hash_words`. -/
def hashWords (p : List U32) (basis : U32) : U32 :=
  mhashFinish (p.foldl mhashAdd basis) (p.length * 4)

/-- `get_unaligned_u32`: a big-endian read followed by `ntohl`, so the first
byte ends up lowest. -/
def getUnalignedU32 (b0 b1 b2 b3 : BitVec 8) : U32 :=
  b0.setWidth 32 ||| (b1.setWidth 32 <<< 8) ||| (b2.setWidth 32 <<< 16) |||
    (b3.setWidth 32 <<< 24)

/-- The loop of `hash_bytes`: whole words first, then the tail as one word
padded with zeros. -/
def hashBytesLoop : List (BitVec 8) → U32 → U32
  | b0 :: b1 :: b2 :: b3 :: rest, hash =>
    hashBytesLoop rest (mhashAdd hash (getUnalignedU32 b0 b1 b2 b3))
  | [], hash => hash
  | [b0], hash => mhashAddCore hash (getUnalignedU32 b0 0#8 0#8 0#8)
  | [b0, b1], hash => mhashAddCore hash (getUnalignedU32 b0 b1 0#8 0#8)
  | [b0, b1, b2], hash => mhashAddCore hash (getUnalignedU32 b0 b1 b2 0#8)

/-- `hash_bytes`. -/
def hashBytes (p : List (BitVec 8)) (basis : U32) : U32 :=
  mhashFinish (hashBytesLoop p basis) p.length

end OvsSgx
