import CgminerT4.Library.Sha256
import CgminerT4.Source.Jansson

/-!
# SHA-256 as the miner computes it (sha2.c, sha2.h)

The context keeps the bytes of an incomplete block, the number of bytes hashed
and the hash value; its block is not initialised. Lengths are unsigned int. A
read behind the message, a write behind the block or a shift of the block number
that leaves int has no result. `w` is kept as the words written so far.
-/
namespace CgminerT4.Source.Sha2
open Library.ByteString

abbrev Hash := Vector UInt32 8

/-- sha256_ctx -/
structure Sha256Ctx where
  totLen : UInt32
  len : UInt32
  block : Buffer (2 * 64)
  h : Hash

def rotr (x n : UInt32) : UInt32 := (x >>> n) ||| (x <<< (32 - n))

def ch (x y z : UInt32) : UInt32 := (x &&& y) ^^^ (~~~x &&& z)

def maj (x y z : UInt32) : UInt32 := (x &&& y) ^^^ (x &&& z) ^^^ (y &&& z)

def sha256F1 (x : UInt32) : UInt32 := rotr x 2 ^^^ rotr x 13 ^^^ rotr x 22

def sha256F2 (x : UInt32) : UInt32 := rotr x 6 ^^^ rotr x 11 ^^^ rotr x 25

def sha256F3 (x : UInt32) : UInt32 := rotr x 7 ^^^ rotr x 18 ^^^ (x >>> 3)

def sha256F4 (x : UInt32) : UInt32 := rotr x 17 ^^^ rotr x 19 ^^^ (x >>> 10)

/-- UNPACK32 -/
def unpack32 (x : UInt32) : Bytes :=
  [(x >>> 24).toUInt8, (x >>> 16).toUInt8, (x >>> 8).toUInt8, x.toUInt8]

/-- PACK32 of the bytes from `4 * j` on. -/
def pack32 (sub : Buffer 64) (j : Nat) : UInt32 :=
  (sub.get (4 * j + 3)).toUInt32 ||| (sub.get (4 * j + 2)).toUInt32 <<< 8 |||
    (sub.get (4 * j + 1)).toUInt32 <<< 16 ||| (sub.get (4 * j)).toUInt32 <<< 24

/-- SHA256_SCR -/
def sha256Scr (w : List UInt32) (i : Nat) : UInt32 :=
  sha256F4 (w.getD (i - 2) 0) + w.getD (i - 7) 0 + sha256F3 (w.getD (i - 15) 0) + w.getD (i - 16) 0

def sha256H0 : Hash :=
  #v[0x6a09e667, 0xbb67ae85, 0x3c6ef372, 0xa54ff53a, 0x510e527f, 0x9b05688c, 0x1f83d9ab, 0x5be0cd19]

def sha256K : List UInt32 :=
  [0x428a2f98, 0x71374491, 0xb5c0fbcf, 0xe9b5dba5, 0x3956c25b, 0x59f111f1, 0x923f82a4, 0xab1c5ed5,
   0xd807aa98, 0x12835b01, 0x243185be, 0x550c7dc3, 0x72be5d74, 0x80deb1fe, 0x9bdc06a7, 0xc19bf174,
   0xe49b69c1, 0xefbe4786, 0x0fc19dc6, 0x240ca1cc, 0x2de92c6f, 0x4a7484aa, 0x5cb0a9dc, 0x76f988da,
   0x983e5152, 0xa831c66d, 0xb00327c8, 0xbf597fc7, 0xc6e00bf3, 0xd5a79147, 0x06ca6351, 0x14292967,
   0x27b70a85, 0x2e1b2138, 0x4d2c6dfc, 0x53380d13, 0x650a7354, 0x766a0abb, 0x81c2c92e, 0x92722c85,
   0xa2bfe8a1, 0xa81a664b, 0xc24b8b70, 0xc76c51a3, 0xd192e819, 0xd6990624, 0xf40e3585, 0x106aa070,
   0x19a4c116, 0x1e376c08, 0x2748774c, 0x34b0bcb5, 0x391c0cb3, 0x4ed8aa4a, 0x5b9cca4f, 0x682e6ff3,
   0x748f82ee, 0x78a5636f, 0x84c87814, 0x8cc70208, 0x90befffa, 0xa4506ceb, 0xbef9a3f7, 0xc67178f2]

/-- The words of a sub-block and those SHA256_SCR adds to them. -/
def messageWords (sub : Buffer 64) : List UInt32 :=
  (List.range' 16 48).foldl (fun w j => w ++ [sha256Scr w j]) ((List.range 16).map (pack32 sub))

def round (w : List UInt32) (wv : Hash) (j : Nat) : Hash :=
  let t1 := wv[7] + sha256F2 wv[4] + ch wv[4] wv[5] wv[6] + sha256K.getD j 0 + w.getD j 0
  let t2 := sha256F1 wv[0] + maj wv[0] wv[1] wv[2]
  #v[t1 + t2, wv[0], wv[1], wv[2], wv[3] + t1, wv[4], wv[5], wv[6]]

/-- The array `h` as the hash value of the standard. -/
def words (h : Hash) : Library.Sha256.Words := ⟨h[0], h[1], h[2], h[3], h[4], h[5], h[6], h[7]⟩

/-- One turn of the loop over the blocks. -/
def transfBlock (h : Hash) (sub : Buffer 64) : Hash :=
  h.zipWith (· + ·) ((List.range 64).foldl (round (messageWords sub)) h)

theorem length_subBlock {message : Bytes} {i : Nat}
    (inside : 64 * i < 2 ^ 31 ∧ 64 * i + 64 ≤ message.length) :
    ((message.drop (64 * i)).take 64).length = 64 := by
  rw [List.length_take, List.length_drop]
  omega

/-- sha256_transf from block `i` on, with `n` blocks left. -/
def transfFrom (h : Hash) (message : Bytes) (i : Nat) : Nat → Option Hash
  | 0 => some h
  | n + 1 =>
    if inside : 64 * i < 2 ^ 31 ∧ 64 * i + 64 ≤ message.length then
      transfFrom (transfBlock h ⟨(message.drop (64 * i)).take 64, length_subBlock inside⟩) message
        (i + 1) n
    else none

def sha256Transf (h : Hash) (message : Bytes) (blockNb : UInt32) : Option Hash :=
  transfFrom h message 0 blockNb.toNat

/-- The bytes a memcpy takes from `message + ofs`. -/
def bytesAt (message : Bytes) (ofs n : UInt32) : Option Bytes :=
  if ofs.toNat + n.toNat ≤ message.length then
    some ((message.drop ofs.toNat).take n.toNat) else none

/-- `stack` is the block as it is found. -/
def sha256Init (stack : Buffer (2 * 64)) : Sha256Ctx where
  totLen := 0
  len := 0
  block := stack
  h := sha256H0

def sha256Update (ctx : Sha256Ctx) (message : Bytes) (len : UInt32) : Option Sha256Ctx :=
  let tmpLen := 64 - ctx.len
  let remLen := if len < tmpLen then len else tmpLen
  (bytesAt message 0 remLen).bind fun front =>
    (ctx.block.store ctx.len.toNat front).bind fun block =>
      if ctx.len + len < 64 then some { ctx with block, len := ctx.len + len }
      else
        let newLen := len - remLen
        let blockNb := newLen / 64
        let shifted := message.drop remLen.toNat
        (sha256Transf ctx.h block.bytes 1).bind fun h =>
          (sha256Transf h shifted blockNb).bind fun h =>
            let remLen := newLen % 64
            (bytesAt shifted (blockNb <<< 6) remLen).bind fun rest =>
              (block.store 0 rest).map fun block =>
                { totLen := ctx.totLen + (blockNb + 1) <<< 6, len := remLen, block, h }

def sha256Final (ctx : Sha256Ctx) : Option Bytes :=
  let blockNb : UInt32 := if 64 - 9 < ctx.len % 64 then 2 else 1
  let lenB := (ctx.totLen + ctx.len) <<< 3
  let pmLen := blockNb <<< 6
  (ctx.block.storeAll
    [(ctx.len.toNat, List.replicate (pmLen - ctx.len).toNat 0), (ctx.len.toNat, [0x80]),
      ((pmLen - 4).toNat, unpack32 lenB)]).bind fun block =>
    (sha256Transf ctx.h block.bytes blockNb).map fun h => h.toList.flatMap unpack32

def sha256 (stack : Buffer (2 * 64)) (message : Bytes) (len : UInt32) : Option Bytes :=
  (sha256Update (sha256Init stack) message len).bind sha256Final

end CgminerT4.Source.Sha2
