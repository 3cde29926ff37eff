import CgminerT4.Source.WorkItem
import Mathlib.Data.List.Infix

/-!
# Pools and the switch between them (cgminer.c, getwork.c)

The fields of struct pool that pool_active_getwork and switch_pools use, the
global current pool with its nonce mode, and the staged works. A pool is its
index in `pools`, which is its pool_no. Logging, the quota counters and the
signal to the long poll threads are left out.
-/
namespace CgminerT4.Source.PoolSwitch
open Library.ByteString WorkItem

inductive PoolEnable where
  | disabled
  | enabled
  | rejecting
  deriving DecidableEq

inductive PoolStrategy where
  | failover
  | roundrobin
  | rotate
  | loadbalance
  | balance
  deriving DecidableEq

/-- The fields of a pool that other threads change. -/
structure PoolStatus where
  idle : Bool
  enabled : PoolEnable
  hasStratum : Bool
  stratumActive : Bool
  stratumNotify : Bool
  deriving DecidableEq

structure Pool extends PoolStatus where
  rpcUrl : Bytes
  prio : Nat
  stratumInit : Bool
  isNicehashPool : Bool
  deriving DecidableEq

def nicehashPoolUrlStr : Bytes := ascii "nicehash.com:"

/-- `strstr(pool->rpc_url, NICEHASH_POOL_URL_STR)`. -/
def isNicehashUrl (rpcUrl : Bytes) : Bool := nicehashPoolUrlStr <:+: rpcUrl

/-- pool_active_getwork, with the result of initiate_getwork and login_getwork:
once logged in, a pool keeps its receiving thread. -/
def poolActiveGetwork (pool : Pool) (loggedIn : Bool) : Pool :=
  if pool.stratumInit then pool
  else { pool with isNicehashPool := isNicehashUrl pool.rpcUrl, stratumInit := loggedIn }

def poolUnusable (pool : PoolStatus) : Bool :=
  pool.idle || pool.enabled ≠ .enabled ||
    (pool.hasStratum && (!pool.stratumActive || !pool.stratumNotify))

def usable (pools : List Pool) (poolNo : PoolNo) : Bool :=
  (pools[poolNo]?).any fun pool => !poolUnusable pool.toPoolStatus

/-- priority_pool, with `pools[choice]` when no pool has that priority. -/
def priorityPool (pools : List Pool) (choice : Nat) : PoolNo :=
  (pools.findIdx? fun pool => pool.prio = choice).getD choice

/-- Switch the selected pool to priority 0 and move those before it down. -/
def promote (pools : List Pool) (selected : Option PoolNo) : List Pool :=
  match selected.bind fun poolNo => (pools[poolNo]?).map fun pool => (poolNo, pool.prio) with
  | none => pools
  | some (poolNo, prio) =>
    if prio ≠ 0 then
      (pools.map fun pool =>
        { pool with prio := if pool.prio < prio then pool.prio + 1 else pool.prio }).modify
        poolNo fun pool => { pool with prio := 0 }
    else pools

/-- The master pool: the first usable one by priority. -/
def masterPool (pools : List Pool) : Option PoolNo :=
  ((List.range pools.length).map (priorityPool pools)).find? (usable pools)

/-- The next usable pool behind `poolNo`, in a cycle. -/
def nextPool (pools : List Pool) (poolNo : PoolNo) : Option PoolNo :=
  ((List.range (pools.length - 1)).map fun i => (poolNo + 1 + i) % pools.length).find?
    (usable pools)

/-- The switch over pool_strategy. -/
def choosePool (strategy : PoolStrategy) (pools : List Pool) (poolNo : PoolNo)
    (selected : Option PoolNo) :
    PoolNo :=
  match strategy with
  | .balance | .failover | .loadbalance => (masterPool pools).getD poolNo
  | .roundrobin | .rotate =>
    match selected.filter fun choice => (pools[choice]?).any fun pool => !pool.idle with
    | some choice => choice
    | none => (nextPool pools poolNo).getD poolNo

/-- The globals of cgminer.c that switch_pools reads or writes. -/
structure Miner where
  pools : List Pool
  currentpool : PoolNo
  currIsNicehashPool : Bool
  stagedWork : List Work

def clearPoolWork (stagedWork : List Work) (poolNo : PoolNo) : List Work :=
  stagedWork.filter fun work => work.pool ≠ poolNo

/-- switch_pools; none is an access outside `pools`. -/
def switchPools (strategy : PoolStrategy) (s : Miner) (selected : Option PoolNo) : Option Miner :=
  let pools := promote s.pools selected
  let poolNo := choosePool strategy pools s.currentpool selected
  (pools[poolNo]?).map fun pool =>
    { pools
      currentpool := poolNo
      currIsNicehashPool := pool.isNicehashPool
      stagedWork :=
        if poolNo ≠ s.currentpool ∧ strategy ≠ .loadbalance ∧ strategy ≠ .balance then
          clearPoolWork s.stagedWork s.currentpool
        else s.stagedWork }

/-- Only priorities change when a pool is promoted. -/
theorem promote_pool (pools : List Pool) (selected : Option PoolNo) (poolNo : PoolNo) (pool : Pool)
    (found : (promote pools selected)[poolNo]? = some pool) :
    ∃ before, pools[poolNo]? = some before ∧ pool = { before with prio := pool.prio } := by
  unfold promote at found
  split at found
  · exact ⟨pool, found, rfl⟩
  · split at found
    · rw [List.getElem?_modify, List.getElem?_map] at found
      cases present : pools[poolNo]? with
      | none => simp [present] at found
      | some before =>
        refine ⟨before, rfl, ?_⟩
        rw [present] at found
        split at found <;> cases found <;> rfl
    · exact ⟨pool, found, rfl⟩

/-- The mode is that of the pool switch_pools chose, and no work appears. -/
theorem switchPools_spec (strategy : PoolStrategy) (s next : Miner) (selected : Option PoolNo)
    (switched : switchPools strategy s selected = some next) :
    next.pools = promote s.pools selected ∧
    (∃ pool, next.pools[next.currentpool]? = some pool ∧
      next.currIsNicehashPool = pool.isNicehashPool) ∧
    next.stagedWork ⊆ s.stagedWork := by
  obtain ⟨pool, found, rfl⟩ := Option.map_eq_some_iff.mp switched
  refine ⟨rfl, ⟨pool, found, rfl⟩, ?_⟩
  dsimp only
  split
  · exact List.filter_subset_self _
  · exact List.Subset.refl _

end CgminerT4.Source.PoolSwitch
