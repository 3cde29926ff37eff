import CgminerT4.Source.PoolSwitch
import CgminerT4.Source.Jansson

/-!
# The choice of a pool for the next work (cgminer.c)

select_pool and select_balanced. The current pool is its index in `pools`, and
counters of the C type int wrap. Quotas divided by their common divisor are
non-negative.
-/
namespace CgminerT4.Source.PoolSelect
open Jansson (toInt)
open PoolSwitch (PoolStrategy PoolStatus poolUnusable)

/-- A value of the C type int that is not negative. -/
abbrev Quota := Fin (2 ^ 31)

structure Pool extends PoolSwitch.Pool where
  shares : Int
  quotaGcd : Quota
  quotaUsed : Int
  deriving DecidableEq

structure Selector where
  pools : List Pool
  currentpool : Nat
  rotatingPool : Nat
  deriving DecidableEq

def Pool.usable (pool : Pool) : Bool := !poolUnusable pool.toPoolStatus

def Pool.hasQuota (pool : Pool) : Bool := pool.quotaUsed < (pool.quotaGcd.val : Int)

/-- `pool->quota_used++` -/
def Pool.use (pool : Pool) : Pool := { pool with quotaUsed := toInt (pool.quotaUsed + 1) }

/-- `ret->shares++` -/
def Pool.share (pool : Pool) : Pool := { pool with shares := toInt (pool.shares + 1) }

/-- The loop of select_balanced over the pools from index `i` on. -/
def leastShares : List Pool → Nat → Int × Nat → Nat
  | [], _, (_, ret) => ret
  | pool :: rest, i, (lowest, ret) =>
    if pool.usable && pool.shares < lowest then leastShares rest (i + 1) (pool.shares, i)
    else leastShares rest (i + 1) (lowest, ret)

def selectBalanced (pools : List Pool) (cp : Nat) : Nat :=
  leastShares pools 0 (((pools[cp]?).map Pool.shares).getD 0, cp)

/-- `if (++rotating_pool >= total_pools) rotating_pool = 0` -/
def advance (total rotatingPool : Nat) : Nat :=
  if rotatingPool + 1 ≥ total then 0 else rotatingPool + 1

/-- The `while` loop, with the pool it finds; an index outside the table has none. -/
def rotate : Nat → List Pool → Nat → Option Nat × List Pool × Nat
  | 0, pools, rotatingPool => (none, pools, rotatingPool)
  | rounds + 1, pools, rotatingPool =>
    match pools[rotatingPool]? with
    | none => (none, pools, rotatingPool)
    | some pool =>
      let used := pools.set rotatingPool pool.use
      if pool.hasQuota && pool.usable then (some rotatingPool, used, rotatingPool)
      else rotate rounds used (advance pools.length rotatingPool)

def usableAt (pools : List Pool) (i : Nat) : Bool := (pools[i]?).any Pool.usable

/-- priority_pool -/
def priorityPool (pools : List Pool) (choice : Nat) : Nat :=
  PoolSwitch.priorityPool (pools.map Pool.toPool) choice

/-- The choice by priority, and the current pool behind it. -/
def byPriority (pools : List Pool) (cp : Nat) : Nat :=
  (((List.range pools.length).map (priorityPool pools)).find? (usableAt pools)).getD cp

/-- There are no pools with quota, so reset them. -/
def resetQuota (s : Selector) : Selector :=
  if s.pools.any Pool.hasQuota then s
  else
    { s with
      pools := s.pools.map fun pool => { pool with quotaUsed := 0 }
      rotatingPool := advance s.pools.length s.rotatingPool }

def selectPool (strategy : PoolStrategy) (s : Selector) : Nat × Selector :=
  match strategy with
  | .balance =>
    let pool := selectBalanced s.pools s.currentpool
    (pool, { s with pools := s.pools.modify pool Pool.share })
  | .loadbalance =>
    let s := resetQuota s
    let (found, pools, rotatingPool) := rotate s.pools.length s.pools s.rotatingPool
    (found.getD (byPriority pools s.currentpool), { s with pools, rotatingPool })
  | .failover | .roundrobin | .rotate => (s.currentpool, s)

end CgminerT4.Source.PoolSelect
