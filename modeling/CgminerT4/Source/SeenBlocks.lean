import CgminerT4.Source.GbtTemplate
import Mathlib.Data.List.Sort

/-!
# The blocks that were seen (cgminer.c)

test_work_current with block_exists, set_blockdiff and set_curblock, and the
table that main starts with. The table is the list in which uthash iterates, and
HASH_SORT is a stable sort; the difference in block_sort wraps. current_diff is
an exact rational where the source has a double: none for a division by zero, and
for a shift by 64 bits or more, which C leaves undefined. Texts for log lines and
the API (current_hash, prev_block, block_diff) are left out.
-/
namespace CgminerT4.Source.SeenBlocks
open Library.ByteString Jansson Hex GbtTemplate

/-- struct block; `hash` is the text before its terminator. -/
structure Block where
  hash : Bytes
  blockNo : Int
  deriving DecidableEq

/-- The variables of cgminer.c that these functions share. -/
structure Seen where
  blocks : List Block
  newBlocks : UInt32
  currentBlock : Buffer 32
  currentDiff : Option ℚ
  workBlock : UInt32

/-- The block with which main starts the table. -/
def placeholder : Block := ⟨List.replicate 36 0x30, 0⟩

def atStart : Seen := ⟨[placeholder], 0, .zero 32, some 0xFFFFFFFFFFFFFFFF, 0⟩

def blockSort (blocka blockb : Block) : Int := toInt (blocka.blockNo - blockb.blockNo)

def hashSort (blocks : List Block) : List Block :=
  blocks.insertionSort fun blocka blockb => blockSort blocka blockb ≤ 0

/-- A big-endian word. -/
def be32toh (word : Bytes) : Nat := ofLittleEndian word.reverse

/-- `powdiff` of set_blockdiff. -/
def powdiff (pow : UInt8) : Nat :=
  let powdiff : Int := 8 * (0x1d - 3) - 8 * ((pow.toNat : Int) - 3)
  (if powdiff < 8 then 8 else powdiff).toNat

/-- `0xFFFFULL << powdiff`, where what leaves the 64 bits is lost. -/
def numerator (pow : UInt8) : Option (BitVec 64) :=
  if powdiff pow < 64 then some ((0xFFFF : BitVec 64) <<< powdiff pow) else none

def diff32 (data : Buffer 128) : Nat := be32toh ((data.bytes.drop 72).take 4) &&& 0x00FFFFFF

/-- `ddiff` of set_blockdiff. -/
def ddiff (data : Buffer 128) : Option ℚ :=
  (numerator (data.get 72)).bind fun numerator =>
    if diff32 data = 0 then none else some (numerator.toNat / diff32 data)

def setBlockdiff (s : Seen) (data : Buffer 128) : Seen := { s with currentDiff := ddiff data }

def setCurblock (s : Seen) (bedata : Buffer 32) : Seen := { s with currentBlock := bedata }

/-- HASH_FIND_STR -/
def findBlock (blocks : List Block) (hexstr : Bytes) : Bool :=
  blocks.any fun block => block.hash = hexstr

/-- HASH_ADD_STR; of more than six blocks the oldest is deleted before. -/
def addBlock (blocks : List Block) (block : Block) : List Block :=
  (if blocks.length > 6 then (hashSort blocks).tail else blocks) ++ [block]

def blockExists (s : Seen) (hexstr : Bytes) (bedata : Buffer 32) (data : Buffer 128) :
    Bool × Seen :=
  if findBlock s.blocks hexstr then (true, s)
  else
    let blocks := addBlock s.blocks ⟨hexstr, toInt s.newBlocks.toNat⟩
    (false, setCurblock (setBlockdiff { s with blocks, newBlocks := s.newBlocks + 1 } data) bedata)

/-- The fields of struct pool and struct work that test_work_current uses. -/
structure CheckedPool where
  coinbase : Bytes
  sworkClean : Bool
  currentHeight : UInt32
  prevBlock : Buffer 32

structure CheckedWork where
  data : Buffer 128
  mandatory : Bool
  longpoll : Bool
  workBlock : UInt32

/-- What test_work_current returns and leaves, and whether it restarts the threads. -/
structure Checked where
  ret : Bool
  seen : Seen
  pool : CheckedPool
  work : CheckedWork
  restart : Bool

/-- The previous block of a work in the order in which it is shown. -/
def bedata (data : Buffer 128) : Buffer 32 :=
  swap256 ⟨(data.bytes.drop 4).take 32, by
    rw [List.length_take, List.length_drop, data.length_eq]; rfl⟩

/-- `height` behind the length byte at offset 42, less one. -/
def cbHeight (coinbase : Bytes) (cbHeightSz : UInt8) : Option UInt32 :=
  if cbHeightSz ≤ 4 then
    if 43 + cbHeightSz.toNat ≤ coinbase.length then
      some (UInt32.ofNat (ofLittleEndian ((coinbase.drop 43).take cbHeightSz.toNat)) - 1)
    else none
  else some 0

/-- A work of a block that is new. -/
def newBlock (s : Seen) (pool : CheckedPool) (work : CheckedWork) : Checked :=
  let pool := { pool with prevBlock := bedata work.data }
  if s.newBlocks = 1 then ⟨false, s, pool, { work with longpoll := false }, false⟩
  else
    ⟨true, { s with workBlock := s.workBlock + 1 }, pool,
      { work with workBlock := s.workBlock + 1, longpoll := false }, true⟩

/-- A work of a block of the table; `preferred` when the pool's long poll counts. -/
def knownBlock (s : Seen) (pool : CheckedPool) (work : CheckedWork) (preferred : Bool) : Checked :=
  let differs := pool.prevBlock ≠ bedata work.data
  let stale := differs ∧ bedata work.data ≠ s.currentBlock
  let pool := if differs ∧ ¬ stale then { pool with prevBlock := bedata work.data } else pool
  if work.longpoll then
    ⟨!stale, { s with workBlock := s.workBlock + 1 }, pool,
      { work with workBlock := s.workBlock + 1, longpoll := false }, preferred⟩
  else ⟨!stale, s, pool, { work with longpoll := false }, false⟩

/-- None when the coinbase ends before the height. -/
def testWorkCurrent (s : Seen) (pool : CheckedPool) (work : CheckedWork) (preferred : Bool) :
    Option Checked :=
  pool.coinbase[42]?.bind fun cbHeightSz =>
    if work.mandatory then some ⟨true, s, pool, work, false⟩
    else
      (cbHeight pool.coinbase cbHeightSz).map fun height =>
        let work := { work with longpoll := work.longpoll || pool.sworkClean }
        let pool := { pool with sworkClean := false, currentHeight := height }
        match blockExists s (bin2hex (bedata work.data).bytes) (bedata work.data) work.data with
        | (false, s) => newBlock s pool work
        | (true, s) => knownBlock s pool work preferred

end CgminerT4.Source.SeenBlocks
