import CgminerT4.Library.DivisorDescent
import CgminerT4.Source.PoolQuota

/-!
# Normalised quotas

The second loop lowers one candidate for each pool in turn, so what it leaves
divides the last nonzero quota. It is the greatest common divisor exactly if no
non-increasing choice of divisors of the quotas, in the order of the pools, ends
above it.
-/
namespace CgminerT4.Guarantees.QuotaGcd
open Library.DivisorDescent
open Source.PoolQuota
open Source.Jansson (toInt toInt_of_lt)

def nonzeroQuotas (pools : List Pool) : List Nat :=
  (pools.map fun pool => pool.quota.val).filter (· ≠ 0)

/-- The greatest common divisor of the nonzero quotas, 1 if there is none. -/
def commonDivisor (pools : List Pool) : Nat :=
  if nonzeroQuotas pools = [] then 1 else listGcd (nonzeroQuotas pools)

structure Normalised (s : Quotas) : Prop where
  gcd : s.globalQuotaGcd = commonDivisor s.pools
  product : ∀ pool ∈ s.pools, pool.quotaGcd * s.globalQuotaGcd = pool.quota.val
  proportions : ∀ pool ∈ s.pools, ∀ other ∈ s.pools, pool.quotaGcd * other.quota.val =
    other.quotaGcd * pool.quota.val

/-- Divisors of the nonzero quotas chosen in the order of the pools, the first
at most the lowest quota and each at most the one before, end at or below the
greatest common divisor. -/
def NoDescentAbove (pools : List Pool) : Prop :=
  ∀ lowest ∈ (nonzeroQuotas pools).min?, ∀ last,
    Descent lowest (nonzeroQuotas pools) last → last ≤ commonDivisor pools

/-! ## The first loop -/

theorem nonzeroQuotas_zero (pool : Pool) (pools : List Pool) (zero : pool.quota.val = 0) :
    nonzeroQuotas (pool :: pools) = nonzeroQuotas pools := by
  unfold nonzeroQuotas
  rw [List.map_cons, List.filter_cons_of_neg (by simpa using zero)]

theorem nonzeroQuotas_cons (pool : Pool) (pools : List Pool) (nonzero : pool.quota.val ≠ 0) :
    nonzeroQuotas (pool :: pools) = pool.quota.val :: nonzeroQuotas pools := by
  unfold nonzeroQuotas
  rw [List.map_cons, List.filter_cons_of_pos (by simpa using nonzero)]

theorem nonzeroQuotas_bounds (pools : List Pool) (quota : Nat)
    (member : quota ∈ nonzeroQuotas pools) :
    0 < quota ∧ quota < 2 ^ 31 := by
  unfold nonzeroQuotas at member
  obtain ⟨listed, nonzero⟩ := List.mem_filter.mp member
  obtain ⟨pool, _, rfl⟩ := List.mem_map.mp listed
  have differs : pool.quota.val ≠ 0 := by simpa using nonzero
  exact ⟨by omega, pool.quota.isLt⟩

theorem lowestQuota_eq (lowest : Nat) (pools : List Pool) :
    lowestQuota lowest pools = (nonzeroQuotas pools).foldl min lowest := by
  induction pools generalizing lowest with
  | nil => rfl
  | cons pool pools ih =>
    unfold lowestQuota
    dsimp only
    by_cases zero : pool.quota.val = 0
    · rw [if_pos zero, nonzeroQuotas_zero pool pools zero]
      exact ih lowest
    · rw [if_neg zero, nonzeroQuotas_cons pool pools zero, ih, List.foldl_cons]
      congr 1
      split <;> omega

theorem lowestQuota_none (pools : List Pool) (none : nonzeroQuotas pools = []) :
    lowestQuota ulongMax pools = ulongMax := by
  rw [lowestQuota_eq, none]
  rfl

theorem lowestQuota_some (pools : List Pool) (lowest : Nat)
    (least : (nonzeroQuotas pools).min? = some lowest) :
    lowestQuota ulongMax pools = lowest := by
  rw [lowestQuota_eq]
  cases quotas : nonzeroQuotas pools with
  | nil =>
    rw [quotas] at least
    cases least
  | cons quota rest =>
    have bounds := nonzeroQuotas_bounds pools quota (by rw [quotas]; exact List.mem_cons_self)
    have first : min ulongMax quota = quota := by
      unfold ulongMax
      omega
    rw [quotas, List.min?_cons'] at least
    rw [List.foldl_cons, first]
    exact Option.some.inj least

/-! ## The second loop -/

theorem descend_eq (quota gcd : Nat) :
    descend quota gcd = Nat.findGreatest (fun d => d ∣ quota) gcd := by
  induction gcd with
  | zero => rfl
  | succ gcd ih =>
    unfold descend
    rw [Nat.findGreatest_succ, ← ih]
    by_cases divides : gcd + 1 ∣ quota
    · rw [if_pos divides, if_neg (not_not.mpr (Nat.mod_eq_zero_of_dvd divides))]
    · rw [if_neg divides, if_pos fun exact => divides (Nat.dvd_of_mod_eq_zero exact)]

theorem descendAll_eq (gcd : Nat) (pools : List Pool) :
    descendAll gcd pools = greedy gcd (nonzeroQuotas pools) := by
  induction pools generalizing gcd with
  | nil => rfl
  | cons pool pools ih =>
    unfold descendAll
    dsimp only
    by_cases zero : pool.quota.val = 0
    · rw [if_pos zero, nonzeroQuotas_zero pool pools zero]
      exact ih gcd
    · rw [if_neg zero, nonzeroQuotas_cons pool pools zero, ih, descend_eq]
      rfl

theorem quotaGcd_none (pools : List Pool) (none : nonzeroQuotas pools = []) :
    quotaGcd pools = 1 := by
  unfold quotaGcd
  rw [lowestQuota_none pools none]
  exact if_neg (Nat.lt_irrefl ulongMax)

theorem lowest_bounds (pools : List Pool) (lowest : Nat)
    (least : (nonzeroQuotas pools).min? = some lowest) :
    0 < lowest ∧ lowest < 2 ^ 31 ∧ ∀ quota ∈ nonzeroQuotas pools, lowest ≤ quota := by
  obtain ⟨member, below⟩ := List.min?_eq_some_iff.mp least
  obtain ⟨positive, bounded⟩ := nonzeroQuotas_bounds pools lowest member
  exact ⟨positive, bounded, below⟩

theorem quotaGcd_some (pools : List Pool) (lowest : Nat)
    (least : (nonzeroQuotas pools).min? = some lowest) :
    quotaGcd pools = greedy lowest (nonzeroQuotas pools) := by
  obtain ⟨_, bounded, _⟩ := lowest_bounds pools lowest least
  have found : lowest < ulongMax := by
    unfold ulongMax
    omega
  unfold quotaGcd
  rw [lowestQuota_some pools lowest least, if_pos found, descendAll_eq]

/-! ## The result -/

theorem quotaGcd_iff (pools : List Pool) :
    quotaGcd pools = commonDivisor pools ↔ NoDescentAbove pools := by
  unfold NoDescentAbove
  cases least : (nonzeroQuotas pools).min? with
  | none =>
    have none := List.min?_eq_none_iff.mp least
    refine iff_of_true ?_ fun _ never => by cases never
    unfold commonDivisor
    rw [quotaGcd_none pools none, if_pos none]
  | some lowest =>
    obtain ⟨positive, _, below⟩ := lowest_bounds pools lowest least
    have member := List.min?_mem least
    have nonempty := List.ne_nil_of_mem member
    have reaches : listGcd (nonzeroQuotas pools) ≤ lowest :=
      Nat.le_of_dvd positive (listGcd_dvd (nonzeroQuotas pools) lowest member)
    have common : commonDivisor pools = listGcd (nonzeroQuotas pools) := if_neg nonempty
    rw [quotaGcd_some pools lowest least, common]
    rw [greedy_eq_listGcd_iff lowest (nonzeroQuotas pools) positive reaches nonempty]
    constructor
    · intro bounded start same last choice
      cases same
      exact bounded last choice
    · intro bounded last choice
      exact bounded lowest rfl last choice

theorem adjustPool_quota (globalQuotaGcd gcd : Nat) (pool : Pool) :
    (adjustPool globalQuotaGcd gcd pool).quota = pool.quota := by
  cases pool
  rfl

theorem adjustQuotaGcd_quotas (s : Quotas) :
    nonzeroQuotas (adjustQuotaGcd s).pools = nonzeroQuotas s.pools := by
  have kept : ∀ pool ∈ s.pools, (adjustPool s.globalQuotaGcd (quotaGcd s.pools) pool).quota.val =
      pool.quota.val := by
    intro pool _
    rw [adjustPool_quota]
  unfold nonzeroQuotas adjustQuotaGcd
  rw [List.map_map]
  exact congrArg (List.filter _) (List.map_congr_left kept)

theorem adjustQuotaGcd_divisor (s : Quotas) :
    commonDivisor (adjustQuotaGcd s).pools = commonDivisor s.pools := by
  unfold commonDivisor
  rw [adjustQuotaGcd_quotas]

theorem commonDivisor_dvd (pools : List Pool) (pool : Pool) (member : pool ∈ pools) :
    commonDivisor pools ∣ pool.quota.val := by
  by_cases zero : pool.quota.val = 0
  · rw [zero]
    exact Nat.dvd_zero _
  · have listed : pool.quota.val ∈ nonzeroQuotas pools := by
      unfold nonzeroQuotas
      exact List.mem_filter.mpr ⟨List.mem_map_of_mem member, by simpa using zero⟩
    unfold commonDivisor
    rw [if_neg (List.ne_nil_of_mem listed)]
    exact listGcd_dvd (nonzeroQuotas pools) pool.quota.val listed

theorem adjustPool_quotaGcd (globalQuotaGcd gcd : Nat) (pool : Pool) :
    (adjustPool globalQuotaGcd gcd pool).quotaGcd = (pool.quota.val / gcd : Nat) := by
  have bounded : pool.quota.val / gcd < 2 ^ 31 :=
    Nat.lt_of_le_of_lt (Nat.div_le_self _ gcd) pool.quota.isLt
  unfold adjustPool
  dsimp only
  exact toInt_of_lt (pool.quota.val / gcd) bounded

theorem normalised_of_gcd (s : Quotas) (same : quotaGcd s.pools = commonDivisor s.pools) :
    Normalised (adjustQuotaGcd s) := by
  have product : ∀ pool ∈ (adjustQuotaGcd s).pools,
      pool.quotaGcd * (adjustQuotaGcd s).globalQuotaGcd = pool.quota.val := by
    intro pool member
    obtain ⟨before, listed, rfl⟩ := List.mem_map.mp member
    have divides := commonDivisor_dvd s.pools before listed
    rw [← same] at divides
    rw [adjustPool_quotaGcd, adjustPool_quota]
    exact congrArg Nat.cast (Nat.div_mul_cancel divides)
  refine ⟨?_, product, ?_⟩
  · exact same.trans (adjustQuotaGcd_divisor s).symm
  · intro pool member other listed
    rw [← product pool member, ← product other listed, Int.mul_left_comm]

/-- The quotas are normalised exactly if no descent ends above their divisor. -/
theorem adjustQuotaGcd_normalised_iff (s : Quotas) :
    Normalised (adjustQuotaGcd s) ↔ NoDescentAbove s.pools := by
  rw [← quotaGcd_iff]
  constructor
  · intro normalised
    exact normalised.gcd.trans (adjustQuotaGcd_divisor s)
  · exact normalised_of_gcd s

/-! ## When no descent ends above -/

/-- A lowest quota that divides the others is never lowered. -/
theorem noDescentAbove_of_dvd (pools : List Pool) (lowest : Nat)
    (least : (nonzeroQuotas pools).min? = some lowest)
    (divides : ∀ quota ∈ nonzeroQuotas pools, lowest ∣ quota) : NoDescentAbove pools := by
  intro start same last choice
  rw [Option.mem_def, least] at same
  cases same
  have member := List.min?_mem least
  have positive := (lowest_bounds pools lowest least).1
  have divisor : commonDivisor pools = listGcd (nonzeroQuotas pools) :=
    if_neg (List.ne_nil_of_mem member)
  have reached := Nat.pos_of_dvd_of_pos (listGcd_dvd (nonzeroQuotas pools) lowest member) positive
  rw [divisor]
  exact choice.le.trans (Nat.le_of_dvd reached (dvd_listGcd (nonzeroQuotas pools) lowest divides))

/-- Of two pools: what divides the second quota and is at most a divisor of the
first, itself at most the second, is at most the greatest common divisor. -/
theorem noDescentAbove_pair (first second : Pool) (a : 0 < first.quota.val)
    (b : 0 < second.quota.val) :
    NoDescentAbove [first, second] ↔
      ∀ d, d ∣ first.quota.val → d ≤ second.quota.val → ∀ e, e ∣ second.quota.val → e ≤ d →
        e ≤ Nat.gcd first.quota.val second.quota.val := by
  have quotas : nonzeroQuotas [first, second] = [first.quota.val, second.quota.val] := by
    rw [nonzeroQuotas_cons first _ (by omega), nonzeroQuotas_cons second _ (by omega)]
    rfl
  have least : [first.quota.val, second.quota.val].min? =
    some (min first.quota.val second.quota.val) := rfl
  have divisor : commonDivisor [first, second] = Nat.gcd first.quota.val second.quota.val := by
    unfold commonDivisor
    rw [quotas, if_neg (List.cons_ne_nil _ _), listGcd_pair]
  unfold NoDescentAbove
  rw [quotas, least, divisor]
  simp only [descent_pair_iff]
  constructor
  · intro bounded d divides below e other lower
    have small := Nat.le_min.mpr ⟨Nat.le_of_dvd a divides, below⟩
    exact bounded _ rfl e ⟨other, d, small, divides, lower⟩
  · rintro bounded start same last ⟨other, d, below, divides, lower⟩
    cases same
    exact bounded d divides (below.trans (Nat.min_le_right _ _)) last other lower

/-- Quotas 6, 9 and 10: the candidate goes 6, 3, 2 and no longer divides 9. -/
theorem quotas_not_normalised :
    ¬ Normalised (adjustQuotaGcd ⟨[⟨6, 6, 0⟩, ⟨9, 9, 0⟩, ⟨10, 10, 0⟩], 1⟩) := by
  intro normalised
  have product := normalised.product ⟨9, 4, 0⟩ (by decide)
  exact absurd product (by decide)

end CgminerT4.Guarantees.QuotaGcd
