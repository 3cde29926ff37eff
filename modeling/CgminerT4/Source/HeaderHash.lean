import CgminerT4.Source.Sha2
import CgminerT4.Source.ShareSubmission

/-!
# Hashes of headers (cgminer.c)

gen_hash, regen_hash and calc_midstate over the functions of sha2.c. The context
of each call is on the stack; `stack` is what its block holds. A build for A5
writes four midstates, one for each version of the header it tries, and leaves
the last version in the work; a build for A6 writes the first; other builds write
none. The host is little-endian.
-/
namespace CgminerT4.Source.HeaderHash
open Library.ByteString Sha2 ShareSubmission
open StratumSend (Chip)

/-- gen_hash: two digests, `len` converted to unsigned int. -/
def genHash (stack : Nat → Buffer (2 * 64)) (data : Bytes) (len : Int) : Option Bytes :=
  (sha256 (stack 0) data (UInt32.ofInt len)).bind fun hash1 => sha256 (stack 1) hash1 32

def regenHash (stack : Nat → Buffer (2 * 64)) (data : Buffer 128) : Option Bytes :=
  (sha256 (stack 0) (flip80 data) 80).bind fun hash1 => sha256 (stack 1) hash1 32

/-- The words of the first block in big-endian order. -/
def flip64 (data : Buffer 128) : Bytes := flipWords (data.bytes.take 64)

def magicNum : List UInt32 :=
  [0x00000020, 0x00000020, 0x02000020, 0x00000020, 0x10000020, 0x00000020, 0x00000020, 0x00000020,
   0x12000020, 0x00000020, 0x00000020, 0x00000020, 0x00000020, 0x00000020, 0x00000020, 0x00000020]

/-- The bytes of `magicNum[i]` in memory. -/
def magicBytes (i : Nat) : Bytes := littleEndian 4 (magicNum.getD i 0).toNat

/-- The fields `midstate`, `midstate1`, `midstate2` and `midstate3`. -/
inductive Slot where
  | midstate
  | midstate1
  | midstate2
  | midstate3
  deriving DecidableEq

/-- The fields of struct work that calc_midstate touches. -/
structure MidstateWork where
  data : Buffer 128
  midstate : Slot → Bytes

/-- The array `h` in memory. -/
def hashBytes (h : Hash) : Bytes := h.toList.flatMap fun word => littleEndian 4 word.toNat

/-- sha256_init, sha256_update with the flipped first block, and the copy of `ctx.h`. -/
def firstBlock (stack : Buffer (2 * 64)) (data : Buffer 128) : Option Bytes :=
  (sha256Update (sha256Init stack) (flip64 data) 64).map fun ctx => hashBytes ctx.h

/-- `memcpy(work->data, &(magicNum[i]), 4)` -/
def setVersion (data : Buffer 128) (i : Nat) : Buffer 128 :=
  ⟨overwrite data.bytes 0 (magicBytes i), by
    rw [length_overwrite _ _ _ (by rw [magicBytes, length_littleEndian, data.length_eq]; decide),
      data.length_eq]⟩

/-- One of the four sections of an A5 build: the version, then its midstate. -/
def versionMidstate (stack : Buffer (2 * 64)) (work : MidstateWork) (slot : Slot) (magic : Nat) :
    Option MidstateWork :=
  let data := setVersion work.data magic
  (firstBlock stack data).map fun state =>
    { data, midstate := fun i => if i = slot then state else work.midstate i }

def calcMidstate (chip : Chip) (stack : Nat → Buffer (2 * 64)) (work : MidstateWork) :
    Option MidstateWork :=
  match chip with
  | .A6 =>
    (firstBlock (stack 0) work.data).map fun state =>
      { work with midstate := fun i => if i = .midstate then state else work.midstate i }
  | .A5 =>
    (versionMidstate (stack 0) work .midstate 0).bind fun work =>
      (versionMidstate (stack 1) work .midstate1 2).bind fun work =>
        (versionMidstate (stack 2) work .midstate2 4).bind fun work =>
          versionMidstate (stack 3) work .midstate3 8
  | .other => some work

end CgminerT4.Source.HeaderHash
