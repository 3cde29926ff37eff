import CgminerT4.Source.Jansson

/-!
# Quotas of the load-balance strategy (cgminer.c)

`adjust_quota_gcd` runs after a pool has been added or a quota changed. Quotas
are non-negative values of the C type int, since every function that sets one
rejects negative numbers. `unsigned long` has 64 bits.
-/
namespace CgminerT4.Source.PoolQuota
open Jansson (toInt)

structure Pool where
  quota : Fin (2 ^ 31)
  quotaGcd : Int
  quotaUsed : Int
  deriving DecidableEq

structure Quotas where
  pools : List Pool
  globalQuotaGcd : Nat
  deriving DecidableEq

def ulongMax : Nat := 2 ^ 64 - 1

/-- Conversion of an `int` to `unsigned long`. -/
def toUlong (n : Int) : Nat := (n % (2 ^ 64 : Nat)).toNat

/-- The first loop, with the lowest quota so far. -/
def lowestQuota : Nat → List Pool → Nat
  | lowest, [] => lowest
  | lowest, pool :: pools =>
    let quota := pool.quota.val
    if quota = 0 then lowestQuota lowest pools
    else lowestQuota (if quota < lowest then quota else lowest) pools

/-- `while (quota % gcd) gcd--`; a candidate that starts above 0 stops at 1. -/
def descend (quota : Nat) : Nat → Nat
  | 0 => 0
  | gcd + 1 => if quota % (gcd + 1) ≠ 0 then descend quota gcd else gcd + 1

/-- The second loop. -/
def descendAll : Nat → List Pool → Nat
  | gcd, [] => gcd
  | gcd, pool :: pools =>
    let quota := pool.quota.val
    if quota = 0 then descendAll gcd pools else descendAll (descend quota gcd) pools

def quotaGcd (pools : List Pool) : Nat :=
  let lowest := lowestQuota ulongMax pools
  if lowest < ulongMax then descendAll lowest pools else 1

/-- Products wrap as `unsigned long`, and each result is cut to an `int`. -/
def adjustUsed (globalQuotaGcd gcd : Nat) (quotaUsed : Int) : Int :=
  let quotaUsed := toInt (toUlong quotaUsed * globalQuotaGcd % 2 ^ 64 : Nat)
  toInt (toUlong quotaUsed / gcd : Nat)

/-- The third loop. -/
def adjustPool (globalQuotaGcd gcd : Nat) (pool : Pool) : Pool where
  quota := pool.quota
  quotaGcd := toInt (pool.quota.val / gcd : Nat)
  quotaUsed := adjustUsed globalQuotaGcd gcd pool.quotaUsed

def adjustQuotaGcd (s : Quotas) : Quotas :=
  let gcd := quotaGcd s.pools
  ⟨s.pools.map (adjustPool s.globalQuotaGcd gcd), gcd⟩

end CgminerT4.Source.PoolQuota
