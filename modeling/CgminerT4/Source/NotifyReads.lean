import CgminerT4.Source.StratumTemplate

/-!
# Reads of fixed size around a notify (util.c, cgminer.c)

parse_notify compares the old prev_hash with the new string over 64 bytes before
it stores anything, and test_work_current reads the block height at a fixed
place of the memory of the coinbase that the notify left. A result of none stands
for a read outside the string or this memory, besides what it stands for in
parse_notify.
The rest of test_work_current does not touch the template.
-/
namespace CgminerT4.Source.NotifyReads
open Library.ByteString Jansson StratumTemplate

/-- The 64 bytes of memcmp lie inside the string with its terminator. -/
def comparable (prevHash : Bytes) : Bool := 64 ≤ prevHash.length + 1

/-- parse_notify with the bounds of its memcmp. -/
def parseNotify (pool : Pool) (val : Option Json) : Option (Pool × Bool) :=
  match readNotify val with
  | none => some (pool, false)
  | some n => if comparable n.prevHash then StratumTemplate.parseNotify pool val else none

/-- `pool->coinbase[43 - 1]` is the number of bytes of the height. -/
def heightSize (memory : Bytes) : Option Nat := (memory[42]?).map UInt8.toNat

/-- The height less one, in 32 bits; 0 when its size is above 4. -/
def readHeight (memory : Bytes) (cbHeightSz : Nat) : Option Nat :=
  if cbHeightSz ≤ 4 then
    if 43 + cbHeightSz ≤ memory.length then
      some ((ofLittleEndian ((memory.drop 43).take cbHeightSz) + 2 ^ 32 - 1) % 2 ^ 32)
    else none
  else some 0

/-- The start of test_work_current, which returns at once for a mandatory work. -/
def testWorkCurrent (pool : Pool) (mandatory : Bool) : Option (Option Nat) :=
  pool.coinbase.bind fun memory =>
    (heightSize memory).bind fun cbHeightSz =>
      if mandatory then some none else (readHeight memory cbHeightSz).map some

end CgminerT4.Source.NotifyReads
