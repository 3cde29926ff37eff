import CgminerT4.Library.ByteString
import Mathlib.Logic.Function.Basic

/-!
# Session ids of the getwork pools (getwork.c) and the pool table (cgminer.c)

`rpc2_id` has three rows of 64 bytes, indexed by `pool->pool_no`. add_pool and
remove_pool give out these numbers. A copy or a string that leaves the table,
or reads behind the id string, has no result. Only the fields of struct pool
that the two functions touch are kept; a struct pool is never freed.
-/
namespace CgminerT4.Source.SessionTable
open Library.ByteString

/-- A `struct pool *`, by order of allocation. -/
abbrev PoolId := Nat

structure Pool where
  poolNo : Nat
  prio : Nat
  removed : Bool
  deriving DecidableEq

/-- The allocated pools and the array `pools` up to `total_pools`. -/
structure PoolTable where
  allocated : Nat
  pool : PoolId → Pool
  pools : List PoolId

def addPool (t : PoolTable) : PoolTable :=
  { allocated := t.allocated + 1
    pool := Function.update t.pool t.allocated ⟨t.pools.length, t.pools.length, false⟩
    pools := t.pools ++ [t.allocated] }

/-- Boost the priority of the pools behind `removed`. -/
def boostPriorities (t : PoolTable) (removed : PoolId) (other : PoolId) : Pool :=
  if other ∈ t.pools ∧ (t.pool other).prio > (t.pool removed).prio then
    { t.pool other with prio := (t.pool other).prio - 1 }
  else t.pool other

/-- The last pool takes the number and the place of the removed one, which
gets an invalid number. -/
def removePool (t : PoolTable) (removed : PoolId) : PoolTable :=
  let lastPool := t.pools.length - 1
  let pool := boostPriorities t removed
  let poolNo := (pool removed).poolNo
  let (pool, pools) :=
    match t.pools[lastPool]? with
    | some last =>
      if poolNo < lastPool then
        (Function.update pool last { pool last with poolNo }, t.pools.set poolNo last)
      else (pool, t.pools)
    | none => (pool, t.pools)
  { t with
    pool :=
      Function.update pool removed { pool removed with poolNo := t.pools.length, removed := true }
    pools := pools.take lastPool }

/-- `char rpc2_id[3][64]`. -/
abbrev SessionIds := Buffer 192

/-- login_getwork: clear the row and copy 64 bytes from the id string. -/
def storeSessionId (rpc2Id : SessionIds) (poolNo : Nat) (id : Bytes) : Option SessionIds :=
  if 64 ≤ id.length + 1 then
    (rpc2Id.store (64 * poolNo) (List.replicate 64 0)).bind fun cleared =>
      cleared.store (64 * poolNo) ((id ++ [0]).take 64)
  else none

/-- What getwork_sthread prints for %s of `rpc2_id[pool->pool_no]`. -/
def printSessionId (rpc2Id : SessionIds) (poolNo : Nat) : Option Bytes :=
  if 0 ∈ rpc2Id.bytes.drop (64 * poolNo) then
    some (cString (rpc2Id.bytes.drop (64 * poolNo))) else none

end CgminerT4.Source.SessionTable
