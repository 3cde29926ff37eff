import CgminerT4.Source.Jansson

/-!
# Work items (struct work, miner.h)

The fields that the modelled functions read or write. A pool is named by its
number. `makeWork` is the zeroed allocation of make_work; the unique work id it
also hands out is not used by any modelled function.
-/
namespace CgminerT4.Source.WorkItem
open Library.ByteString Jansson

abbrev PoolNo := Nat

structure Work where
  data : Buffer 128
  target : Buffer 32
  hash : Buffer 32
  deviceDiff : Double
  nonce : UInt32
  thrId : Nat
  pool : PoolNo
  longpoll : Bool
  stratum : Bool
  gbt : Bool
  jobId : Option Bytes
  nonce1 : Option Bytes
  ntime : Option Bytes
  nonce2 : UInt64
  nonce2Len : Nat
  sdiff : Double
  workDifficulty : Double
  drvRolllimit : Nat
  getworkMode : Option Char
  deriving DecidableEq

def makeWork : Work where
  data := .zero 128
  target := .zero 32
  hash := .zero 32
  deviceDiff := 0
  nonce := 0
  thrId := 0
  pool := 0
  longpoll := false
  stratum := false
  gbt := false
  jobId := none
  nonce1 := none
  ntime := none
  nonce2 := 0
  nonce2Len := 0
  sdiff := 0
  workDifficulty := 0
  drvRolllimit := 0
  getworkMode := none

end CgminerT4.Source.WorkItem
