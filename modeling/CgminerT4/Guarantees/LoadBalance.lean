import CgminerT4.Guarantees.PoolSelection
import Mathlib.Algebra.BigOperators.Fin
import Mathlib.Algebra.Order.BigOperators.Group.Finset

/-!
# Fair shares of the pools

With usable pools, load balance goes through the pools once in each cycle: it
returns a pool until its quota is used, and passes it once. So a cycle is as
long as the sum of the quotas and returns each pool as often as its quota says.
The pass is one use more, and it is too much for the largest quota of all.
-/
namespace CgminerT4.Guarantees.LoadBalance
open Library.CyclicIndex
open Source.Jansson (toInt)
open Source.PoolSelect PoolSelection

def select (s : Selector) : Nat × Selector := selectPool .loadbalance s

def after (calls : Nat) (s : Selector) : Selector := (fun s => (select s).2)^[calls] s

/-- The results of the first calls. -/
def returned (calls : Nat) (s : Selector) : List Nat :=
  (List.range calls).map fun i => (select (after i s)).1

def quotaOf (pools : List Pool) (i : Nat) : Nat :=
  ((pools[i]?).map fun pool => pool.quotaGcd.val).getD 0

def usedOf (pools : List Pool) (i : Nat) : Int := ((pools[i]?).map Pool.quotaUsed).getD 0

def totalQuota (pools : List Pool) : Nat := (pools.map fun pool => pool.quotaGcd.val).sum

/-- Nothing is used yet, and there is something to use. -/
structure Started (s : Selector) : Prop where
  usable : ∀ pool ∈ s.pools, pool.usable = true
  unused : ∀ pool ∈ s.pools, pool.quotaUsed = 0
  inside : s.rotatingPool < s.pools.length
  positive : 0 < totalQuota s.pools

/-- Among the first `k` times the sum of the quotas results, each pool is there
`k` times its quota. -/
def Fair (s : Selector) : Prop :=
  ∀ k, ∀ i < s.pools.length, (returned (k * totalQuota s.pools) s).count i = k * quotaOf s.pools i

/-- A pool with the largest quota that an int can hold comes last of the pools
that have a quota. -/
def LargestLast (s : Selector) : Prop :=
  ∀ i < s.pools.length, quotaOf s.pools i = 2 ^ 31 - 1 →
    ∀ other < s.pools.length, 0 < quotaOf s.pools other →
    distance s.pools.length s.rotatingPool other ≤ distance s.pools.length s.rotatingPool i

/-! ## Runs of calls -/

theorem after_succ (calls : Nat) (s : Selector) :
    after (calls + 1) s = (select (after calls s)).2 :=
  Function.iterate_succ_apply' _ calls s

theorem after_add (first more : Nat) (s : Selector) :
    after (first + more) s = after more (after first s) := by
  unfold after
  rw [Nat.add_comm, Function.iterate_add_apply]

theorem returned_succ (calls : Nat) (s : Selector) :
    returned (calls + 1) s = returned calls s ++ [(select (after calls s)).1] := by
  rw [returned, List.range_succ, List.map_append, List.map_singleton]
  rfl

theorem returned_add (first more : Nat) (s : Selector) :
    returned (first + more) s = returned first s ++ returned more (after first s) := by
  induction more with
  | zero => rw [Nat.add_zero, returned, returned, List.range_zero, List.map_nil, List.append_nil]
  | succ more ih =>
    rw [← Nat.add_assoc, returned_succ, ih, returned_succ, after_add, List.append_assoc]

theorem length_returned (calls : Nat) (s : Selector) : (returned calls s).length = calls := by
  rw [returned, List.length_map, List.length_range]

/-- The results only depend on what the first call does. -/
theorem returned_congr (calls : Nat) (s other : Selector) (same : select s = select other) :
    returned calls s = returned calls other := by
  cases calls with
  | zero => rfl
  | succ calls =>
    have tail : after 1 s = after 1 other := congrArg Prod.snd same
    have head : returned 1 s = returned 1 other :=
      congrArg (fun result : Nat × Selector => [result.1]) same
    rw [Nat.add_comm, returned_add, returned_add, head, tail]

/-! ## Counting -/

theorem sum_count (l : List Nat) (n : Nat)
    (inside : ∀ i ∈ l, i < n) : ∑ i ∈ Finset.range n, l.count i = l.length := by
  have counted := Multiset.sum_count_eq_card (s := Finset.range n) (m := (l : Multiset Nat))
    (fun i member => Finset.mem_range.mpr (inside i member))
  simpa using counted

theorem sum_quotaOf (pools : List Pool) :
    ∑ i ∈ Finset.range pools.length, quotaOf pools i = totalQuota pools := by
  rw [Finset.sum_range, totalQuota]
  have summed := Fin.sum_univ_fun_getElem pools fun pool => pool.quotaGcd.val
  rw [← summed]
  refine Finset.sum_congr rfl fun i _ => ?_
  rw [quotaOf, List.getElem?_eq_getElem i.isLt]
  rfl

theorem quotaOf_lt (pools : List Pool) (i : Nat) : quotaOf pools i < 2 ^ 31 := by
  unfold quotaOf
  cases pools[i]? with
  | none => decide
  | some pool => exact pool.quotaGcd.isLt

theorem toInt_of_nat (n : Nat) (bound : n + 1 < 2 ^ 31) :
    toInt ((n : Int) + 1) = ((n + 1 : Nat) : Int) := by
  have cast : (n : Int) + 1 = ((n + 1 : Nat) : Int) := by omega
  rw [cast, Source.Jansson.toInt_of_lt _ bound]

/-! ## One call -/

theorem readyAt_iff (pools : List Pool) (usable : ∀ pool ∈ pools, pool.usable = true) (i : Nat)
    (below : i < pools.length) :
    readyAt pools i = true ↔ usedOf pools i < quotaOf pools i := by
  have found := List.getElem?_eq_getElem below
  rw [readyAt, usedOf, quotaOf, found, Option.any_some, Option.map_some, Option.map_some,
    Option.getD_some, Option.getD_some, ready, usable _ (List.getElem_mem below),
    Bool.and_true, Pool.hasQuota, decide_eq_true_eq]

theorem usedOf_usedUpTo (pools : List Pool) (start steps i : Nat) (below : i < pools.length) :
    usedOf (usedUpTo pools start steps) i =
      if distance pools.length start i < steps then toInt (usedOf pools i + 1) else
        usedOf pools i := by
  have found := List.getElem?_eq_getElem below
  rw [usedOf, getElem?_usedUpTo, usedOf, found]
  simp only [Option.map_some, Option.getD_some]
  split <;> rfl

theorem quotaOf_usedUpTo (pools : List Pool) (start steps i : Nat) :
    quotaOf (usedUpTo pools start steps) i = quotaOf pools i := by
  rw [quotaOf, getElem?_usedUpTo, quotaOf, Option.map_map]
  congr 2
  funext pool
  dsimp only [Function.comp_apply]
  split <;> rfl

theorem usable_usedUpTo (pools : List Pool) (usable : ∀ pool ∈ pools, pool.usable = true)
    (start steps : Nat) :
    ∀ pool ∈ usedUpTo pools start steps, pool.usable = true := by
  intro pool member
  obtain ⟨i, below, rfl⟩ := List.mem_mapIdx.mp member
  have live := usable _ (List.getElem_mem below)
  split
  · exact live
  · exact live

/-- A call stops at the first pool that is ready. -/
theorem select_first (s : Selector) (steps : Nat) (inside : s.rotatingPool < s.pools.length)
    (short : steps < s.pools.length)
    (skipped : ∀ j < steps, readyAt s.pools ((s.rotatingPool + j) % s.pools.length) = false)
    (hit : readyAt s.pools ((s.rotatingPool + steps) % s.pools.length) = true) :
    select s = ((s.rotatingPool + steps) % s.pools.length,
      { s with
        pools := usedUpTo s.pools s.rotatingPool (steps + 1)
        rotatingPool := (s.rotatingPool + steps) % s.pools.length }) := by
  have left : s.pools.any Pool.hasQuota = true := by
    obtain ⟨pool, found, prepared⟩ := (Option.any_eq_true _ _).mp hit
    rw [ready, Bool.and_eq_true] at prepared
    exact List.any_eq_true.mpr ⟨pool, List.mem_of_getElem? found, prepared.1⟩
  have kept : resetQuota s = s := if_pos left
  unfold select selectPool
  dsimp only
  rw [kept, rotate_found s.pools s.rotatingPool steps inside short skipped hit]
  rfl

/-! ## One cycle -/

/-- After some calls of a cycle that began at `start`, the rotation is `d` places
further on. The pools it has passed are used once more than their quota says,
and the results are so many as are used. -/
structure Progress (pools : List Pool) (start d : Nat) (results : List Nat) (s : Selector) :
    Prop where
  length : s.pools.length = pools.length
  quotas : ∀ i, quotaOf s.pools i = quotaOf pools i
  usable : ∀ pool ∈ s.pools, pool.usable = true
  place : s.rotatingPool = (start + d) % pools.length
  short : d < pools.length
  inside : ∀ i ∈ results, i < pools.length
  passed : ∀ j < d, usedOf s.pools ((start + j) % pools.length) =
    toInt (quotaOf pools ((start + j) % pools.length) + 1) ∧
    results.count ((start + j) % pools.length) = quotaOf pools ((start + j) % pools.length)
  left : ∀ j, d ≤ j → j < pools.length →
    usedOf s.pools ((start + j) % pools.length) = results.count ((start + j) % pools.length) ∧
    results.count ((start + j) % pools.length) ≤ quotaOf pools ((start + j) % pools.length)
  ahead : ∀ j, d < j → j < pools.length → results.count ((start + j) % pools.length) = 0
  current : results ≠ [] → 0 < results.count ((start + d) % pools.length)

theorem start_progress (s : Selector) (started : Started s) :
    Progress s.pools s.rotatingPool 0 [] s := by
  have unused : ∀ i, usedOf s.pools i = 0 := by
    intro i
    rw [usedOf]
    cases found : s.pools[i]? with
    | none => rfl
    | some pool => exact started.unused pool (List.mem_of_getElem? found)
  refine ⟨rfl, fun _ => rfl, started.usable, ?_, ?_, ?_, ?_, ?_, ?_, ?_⟩
  · rw [Nat.add_zero, Nat.mod_eq_of_lt started.inside]
  · exact Nat.lt_of_le_of_lt (Nat.zero_le _) started.inside
  · exact fun _ never => absurd never List.not_mem_nil
  · exact fun j never => absurd never (Nat.not_lt_zero j)
  · intro j _ _
    rw [unused, List.count_nil]
    exact ⟨rfl, Nat.zero_le _⟩
  · exact fun _ _ _ => List.count_nil
  · exact fun nonempty => absurd rfl nonempty

/-- The pool that is ready next, seen from the start of the cycle. -/
theorem Progress.select {pools : List Pool} {start d : Nat} {results : List Nat} {s : Selector}
    (now : Progress pools start d results s) (place : Nat) (onward : d ≤ place)
    (short : place < pools.length)
    (skipped : ∀ j, d ≤ j → j < place → readyAt s.pools ((start + j) % pools.length) = false)
    (hit : readyAt s.pools ((start + place) % pools.length) = true) :
    LoadBalance.select s = ((start + place) % pools.length,
      { s with
        pools := usedUpTo s.pools s.rotatingPool (place - d + 1)
        rotatingPool := (start + place) % pools.length }) := by
  have further : ∀ j, (s.rotatingPool + j) % s.pools.length = (start + (d + j)) % pools.length := by
    intro j
    rw [now.place, now.length, Nat.mod_add_mod, Nat.add_assoc]
  have same : d + (place - d) = place := by omega
  have called :=
    select_first s (place - d) (by rw [now.place, now.length]; exact Nat.mod_lt _ (by omega))
    (by rw [now.length]; omega)
    (fun j before => by rw [further]; exact skipped (d + j) (by omega) (by omega))
    (by rw [further, same]; exact hit)
  rw [further, same] at called
  exact called

theorem Progress.below {pools : List Pool} {start d : Nat} {results : List Nat} {s : Selector}
    (now : Progress pools start d results s) (j : Nat) :
    (start + j) % pools.length < s.pools.length := by
  have short := now.short
  rw [now.length]
  exact Nat.mod_lt _ (by omega)

/-- A pool of the cycle is ready while its quota is not used up. -/
theorem Progress.ready_iff {pools : List Pool} {start d : Nat} {results : List Nat} {s : Selector}
    (now : Progress pools start d results s) (j : Nat) :
      readyAt s.pools ((start + j) % pools.length) = true ↔
      usedOf s.pools ((start + j) % pools.length) < quotaOf pools ((start + j) % pools.length) := by
  rw [readyAt_iff s.pools now.usable _ (now.below j), now.quotas]

/-- A pool that is passed over has been selected as often as its quota says. -/
theorem Progress.full {pools : List Pool} {start d : Nat} {results : List Nat} {s : Selector}
    (now : Progress pools start d results s) (j : Nat) (low : d ≤ j) (within : j < pools.length)
    (unready : readyAt s.pools ((start + j) % pools.length) = false) :
    results.count ((start + j) % pools.length) = quotaOf pools ((start + j) % pools.length) := by
  have exhausted := mt (now.ready_iff j).mpr (Bool.eq_false_iff.mp unready)
  obtain ⟨same, atMost⟩ := now.left j low within
  omega

/-- One more result counts for its own place only. -/
theorem count_place {n start place : Nat} (inside : start < n) (short : place < n)
    (results : List Nat) (j : Nat) (within : j < n) :
    (results ++ [(start + place) % n]).count ((start + j) % n) =
      results.count ((start + j) % n) + if j = place then 1 else 0 := by
  rw [List.count_append, List.count_singleton]
  congr 1
  by_cases same : j = place
  · rw [if_pos same, same, beq_self_eq_true, if_pos rfl]
  · rw [if_neg same, if_neg]
    rw [beq_iff_eq]
    exact fun meet => same (place_inj inside place j short within meet).symm

/-- The next call of a cycle. -/
theorem Progress.next {pools : List Pool} {start d : Nat} {results : List Nat} {s : Selector}
    (inside : start < pools.length) (now : Progress pools start d results s) (place : Nat)
    (onward : d ≤ place) (short : place < pools.length)
    (skipped : ∀ j, d ≤ j → j < place → readyAt s.pools ((start + j) % pools.length) = false)
    (hit : readyAt s.pools ((start + place) % pools.length) = true) :
    Progress pools start place (results ++ [(LoadBalance.select s).1])
      (LoadBalance.select s).2 := by
  rw [now.select place onward short skipped hit]
  have used : ∀ j < pools.length,
      usedOf (usedUpTo s.pools s.rotatingPool (place - d + 1)) ((start + j) % pools.length) =
        if (if d ≤ j then j - d else pools.length - d + j) < place - d + 1 then
          toInt (usedOf s.pools ((start + j) % pools.length) + 1)
        else usedOf s.pools ((start + j) % pools.length) := by
    intro j within
    rw [usedOf_usedUpTo _ _ _ _ (now.below j), now.place, now.length,
      distance_shift inside d j now.short within]
  have counted := count_place inside short results
  have room := (now.ready_iff place).mp hit
  have bound := quotaOf_lt pools ((start + place) % pools.length)
  refine ⟨?_, ?_, usable_usedUpTo _ now.usable _ _, rfl, short, ?_, ?_, ?_, ?_, ?_⟩
  · exact (length_usedUpTo _ _ _).trans now.length
  · exact fun i => (quotaOf_usedUpTo _ _ _ _).trans (now.quotas i)
  · intro i member
    rcases List.mem_append.mp member with old | new
    · exact now.inside i old
    · have last := now.below place
      rw [now.length] at last
      rw [List.mem_singleton.mp new]
      exact last
  · intro j before
    rw [used j (by omega), counted j (by omega), if_neg (by omega : j ≠ place), Nat.add_zero]
    by_cases earlier : j < d
    · have kept := now.passed j earlier
      rw [if_neg (by rw [if_neg (by omega)]; have := now.short; omega)]
      exact kept
    · have all := now.full j (by omega) (by omega) (skipped j (by omega) before)
      rw [if_pos (by rw [if_pos (by omega)]; omega), (now.left j (by omega) (by omega)).1, all]
      exact ⟨rfl, rfl⟩
  · intro j low within
    obtain ⟨same, atMost⟩ := now.left j (by omega) within
    rw [used j within, counted j within]
    by_cases here : j = place
    · rw [here] at same atMost ⊢
      rw [if_pos (by rw [if_pos onward]; omega), if_pos rfl, same, toInt_of_nat _ (by omega)]
      exact ⟨rfl, by omega⟩
    · rw [if_neg (by rw [if_pos (by omega)]; omega), if_neg here, Nat.add_zero]
      exact ⟨same, atMost⟩
  · intro j high within
    rw [counted j within, if_neg (by omega), Nat.add_zero]
    exact now.ahead j (by omega) within
  · intro _
    rw [counted place short, if_pos rfl]
    exact Nat.succ_pos _

theorem Progress.count_le {pools : List Pool} {start d : Nat} {results : List Nat} {s : Selector}
    (inside : start < pools.length) (now : Progress pools start d results s) (i : Nat)
    (below : i < pools.length) :
    results.count i ≤ quotaOf pools i := by
  have short := distance_lt (Nat.zero_lt_of_lt below) start i
  rw [← place_distance inside i below]
  by_cases earlier : distance pools.length start i < d
  · exact Nat.le_of_eq (now.passed _ earlier).2
  · exact (now.left _ (Nat.le_of_not_lt earlier) short).2

/-- Before the end of a cycle some pool from the current one on is ready. -/
theorem Progress.ready {pools : List Pool} {start d : Nat} {results : List Nat} {s : Selector}
    (inside : start < pools.length) (now : Progress pools start d results s)
    (unfinished : results.length < totalQuota pools) :
    ∃ place, d ≤ place ∧ place < pools.length ∧
      readyAt s.pools ((start + place) % pools.length) = true := by
  rw [← sum_count results pools.length now.inside, ← sum_quotaOf] at unfinished
  obtain ⟨i, member, room⟩ := Finset.exists_lt_of_sum_lt unfinished
  have below := Finset.mem_range.mp member
  have short := distance_lt (Nat.zero_lt_of_lt below) start i
  have here := place_distance inside i below
  have onward : d ≤ distance pools.length start i := by
    by_contra earlier
    have full := (now.passed _ (Nat.lt_of_not_le earlier)).2
    rw [here] at full
    omega
  refine ⟨_, onward, short, ?_⟩
  have left := (now.left _ onward short).1
  rw [here] at left ⊢
  rw [readyAt_iff s.pools now.usable i (by rw [now.length]; exact below), now.quotas]
  omega

/-- The calls of a cycle, one after the other. -/
theorem cycle_progress (s : Selector) (started : Started s) (calls : Nat)
    (few : calls ≤ totalQuota s.pools) :
    ∃ d, Progress s.pools s.rotatingPool d (returned calls s) (after calls s) := by
  induction calls with
  | zero => exact ⟨0, start_progress s started⟩
  | succ calls ih =>
    obtain ⟨d, now⟩ := ih (by omega)
    have any := now.ready started.inside (by rw [length_returned]; omega)
    obtain ⟨onward, short, hit⟩ := Nat.find_spec any
    refine ⟨Nat.find any, ?_⟩
    rw [returned_succ, after_succ]
    refine now.next started.inside (Nat.find any) onward short (fun j low high => ?_) hit
    by_contra prepared
    exact Nat.find_min any high ⟨low, by omega, by simpa using prepared⟩

/-- A whole cycle returns each pool as often as its quota says. -/
theorem cycle_counts (s : Selector) (started : Started s) (i : Nat) (below : i < s.pools.length) :
    (returned (totalQuota s.pools) s).count i = quotaOf s.pools i := by
  obtain ⟨d, now⟩ := cycle_progress s started (totalQuota s.pools) (Nat.le_refl _)
  have atMost : ∀ i ∈ Finset.range s.pools.length,
      (returned (totalQuota s.pools) s).count i ≤ quotaOf s.pools i :=
    fun i member => now.count_le started.inside i (Finset.mem_range.mp member)
  have sums : ∑ i ∈ Finset.range s.pools.length, (returned (totalQuota s.pools) s).count i =
      ∑ i ∈ Finset.range s.pools.length, quotaOf s.pools i := by
    rw [sum_count _ _ now.inside, length_returned, sum_quotaOf]
  exact (Finset.sum_eq_sum_iff_of_le atMost).mp sums i (Finset.mem_range.mpr below)

/-! ## The end of a cycle -/

/-- A cycle is through: what is left of the quotas is used, and the rotation is
at a pool with a quota, behind which no pool has one. -/
structure Finished (pools : List Pool) (start d : Nat) (s : Selector) : Prop where
  length : s.pools.length = pools.length
  quotas : ∀ i, quotaOf s.pools i = quotaOf pools i
  usable : ∀ pool ∈ s.pools, pool.usable = true
  place : s.rotatingPool = (start + d) % pools.length
  short : d < pools.length
  passed : ∀ j < d, usedOf s.pools ((start + j) % pools.length) =
    toInt (quotaOf pools ((start + j) % pools.length) + 1)
  left : ∀ j, d ≤ j → j < pools.length →
    usedOf s.pools ((start + j) % pools.length) = quotaOf pools ((start + j) % pools.length)
  ahead : ∀ j, d < j → j < pools.length → quotaOf pools ((start + j) % pools.length) = 0
  current : 0 < quotaOf pools ((start + d) % pools.length)

theorem cycle_finished (s : Selector) (started : Started s) :
    ∃ d, Finished s.pools s.rotatingPool d (after (totalQuota s.pools) s) := by
  obtain ⟨d, now⟩ := cycle_progress s started (totalQuota s.pools) (Nat.le_refl _)
  have counts :
      ∀ j, (returned (totalQuota s.pools) s).count ((s.rotatingPool + j) % s.pools.length) =
      quotaOf s.pools ((s.rotatingPool + j) % s.pools.length) := fun j =>
    cycle_counts s started _ (Nat.mod_lt _ (Nat.zero_lt_of_lt started.inside))
  refine ⟨d, now.length, now.quotas, now.usable, now.place, now.short,
    fun j before => (now.passed j before).1,
    fun j low short => ?_, fun j high short => ?_, ?_⟩
  · rw [(now.left j low short).1, counts]
  · rw [← counts, now.ahead j high short]
  · rw [← counts]
    apply now.current
    rw [← List.length_pos_iff, length_returned]
    exact started.positive

theorem Finished.readyAt_iff {pools : List Pool} {start d : Nat} {s : Selector}
    (done : Finished pools start d s) (j : Nat) (short : j < pools.length) :
      readyAt s.pools ((start + j) % pools.length) = true ↔
      j < d ∧ quotaOf pools ((start + j) % pools.length) = 2 ^ 31 - 1 := by
  have bound := quotaOf_lt pools ((start + j) % pools.length)
  rw [LoadBalance.readyAt_iff s.pools done.usable _
    (by rw [done.length]; exact Nat.mod_lt _ (by omega)), done.quotas]
  by_cases before : j < d
  · rw [done.passed j before]
    by_cases largest : quotaOf pools ((start + j) % pools.length) = 2 ^ 31 - 1
    · rw [largest]
      exact iff_of_true (by decide) ⟨before, rfl⟩
    · rw [toInt_of_nat _ (by omega)]
      exact iff_of_false (by omega) fun both => largest both.2
  · rw [done.left j (by omega) short]
    exact iff_of_false (Int.lt_irrefl _) fun both => before both.1

theorem exists_quota (pools : List Pool) (positive : 0 < totalQuota pools) :
    ∃ pool ∈ pools, 0 < pool.quotaGcd.val := by
  by_contra none
  push Not at none
  have zero : totalQuota pools = 0 := by
    apply List.sum_eq_zero
    intro quota member
    obtain ⟨pool, inside, rfl⟩ := List.mem_map.mp member
    exact Nat.le_zero.mp (none pool inside)
  omega

theorem Started.kept {s : Selector} (started : Started s) : resetQuota s = s := by
  obtain ⟨pool, member, quota⟩ := exists_quota s.pools started.positive
  refine if_pos (List.any_eq_true.mpr ⟨pool, member, ?_⟩)
  rw [Pool.hasQuota, started.unused pool member]
  exact decide_eq_true (Int.natCast_pos.mpr quota)

/-- The call behind a cycle begins a new one, one place further on. -/
structure Restart (pools : List Pool) (place : Nat) (s next : Selector) : Prop where
  started : Started next
  same : select s = select next
  length : next.pools.length = pools.length
  quotas : ∀ i, quotaOf next.pools i = quotaOf pools i
  place : next.rotatingPool = place

theorem totalQuota_congr (pools other : List Pool) (length : other.length = pools.length)
    (quotas : ∀ i, quotaOf other i = quotaOf pools i) : totalQuota other = totalQuota pools := by
  rw [← sum_quotaOf, ← sum_quotaOf, length]
  exact Finset.sum_congr rfl fun i _ => quotas i

theorem Finished.restart {pools : List Pool} {start d : Nat} {s : Selector}
    (done : Finished pools start d s) (inside : start < pools.length)
    (small : ∀ j < d, quotaOf pools ((start + j) % pools.length) ≠ 2 ^ 31 - 1) :
    Restart pools ((start + (d + 1)) % pools.length) s (resetQuota s) := by
  have exhausted : ¬ s.pools.any Pool.hasQuota = true := by
    intro any
    obtain ⟨pool, member, quota⟩ := List.any_eq_true.mp any
    obtain ⟨i, below, found⟩ := List.mem_iff_getElem.mp member
    rw [done.length] at below
    have short := distance_lt (Nat.zero_lt_of_lt below) start i
    have unready := mt (done.readyAt_iff _ short).mp fun both => small _ both.1 both.2
    rw [place_distance inside i below, readyAt, List.getElem?_eq_getElem (done.length ▸ below),
      found, Option.any_some, ready, quota, done.usable pool member] at unready
    exact unready rfl
  have reset : resetQuota s = { s with
      pools := s.pools.map fun pool => { pool with quotaUsed := 0 }
      rotatingPool := advance s.pools.length s.rotatingPool } := if_neg exhausted
  have length : (resetQuota s).pools.length = pools.length := by
    rw [reset]
    exact (List.length_map _).trans done.length
  have quotas : ∀ i, quotaOf (resetQuota s).pools i = quotaOf pools i := by
    intro i
    rw [← done.quotas i, reset, quotaOf, List.getElem?_map, Option.map_map]
    rfl
  have place : (resetQuota s).rotatingPool = (start + (d + 1)) % pools.length := by
    rw [reset, ← advance_place pools.length start d (by omega), ← done.place, ← done.length]
  have started : Started (resetQuota s) := by
    refine ⟨?_, ?_, ?_, ?_⟩
    · rw [reset]
      intro pool member
      obtain ⟨before, old, rfl⟩ := List.mem_map.mp member
      exact done.usable before old
    · rw [reset]
      intro pool member
      obtain ⟨before, _, rfl⟩ := List.mem_map.mp member
      rfl
    · rw [place, length]
      exact Nat.mod_lt _ (by omega)
    · rw [totalQuota_congr pools _ length quotas, ← sum_quotaOf]
      exact Finset.sum_pos' (fun _ _ => Nat.zero_le _)
        ⟨_, Finset.mem_range.mpr (Nat.mod_lt (start + d) (by omega)), done.current⟩
  refine ⟨started, ?_, length, quotas, place⟩
  unfold select selectPool
  dsimp only
  rw [started.kept]

/-- The order of the next cycle ends with the same pool. -/
theorem Finished.largestLast {pools : List Pool} {start d : Nat} {s next : Selector}
    (done : Finished pools start d s) (inside : start < pools.length)
    (last : ∀ i < pools.length, quotaOf pools i = 2 ^ 31 - 1 →
      ∀ other < pools.length, 0 < quotaOf pools other →
      distance pools.length start other ≤ distance pools.length start i)
    (restart : Restart pools ((start + (d + 1)) % pools.length) s next) : LargestLast next := by
  intro i below largest other within positive
  rw [restart.quotas] at largest positive
  rw [restart.length] at below within ⊢
  have behind := last i below largest _ (Nat.mod_lt (start + d) (by omega)) done.current
  rw [distance_place inside d done.short] at behind
  have atMost : distance pools.length start i ≤ d := by
    by_contra further
    have nothing := done.ahead _ (Nat.lt_of_not_le further) (distance_lt (by omega) start i)
    rw [place_distance inside i below] at nothing
    omega
  have here : i = (start + d) % pools.length := by
    rw [← place_distance inside i below, Nat.le_antisymm atMost behind]
  have final : distance pools.length next.rotatingPool i = pools.length - 1 := by
    have around : i = (next.rotatingPool + (pools.length - 1)) % pools.length := by
      rw [restart.place, Nat.mod_add_mod, here, show start + (d + 1) + (pools.length - 1) =
        start + d + pools.length by omega,
        Nat.add_mod_right]
    rw [around, distance_place (by rw [restart.place]; exact Nat.mod_lt _ (by omega)) _ (by omega)]
  have short := distance_lt (by omega : 0 < pools.length) next.rotatingPool other
  omega

theorem fair_of_largestLast (s : Selector) (started : Started s) (last : LargestLast s) :
    Fair s := by
  intro k
  induction k generalizing s with
  | zero =>
    intro i _
    rw [Nat.zero_mul, Nat.zero_mul]
    rfl
  | succ k ih =>
    intro i below
    obtain ⟨d, done⟩ := cycle_finished s started
    have small : ∀ j < d, quotaOf s.pools ((s.rotatingPool + j) % s.pools.length) ≠ 2 ^ 31 - 1 := by
      intro j before largest
      have short := done.short
      have behind :=
        last _ (Nat.mod_lt _ (by omega)) largest _ (Nat.mod_lt _ (by omega)) done.current
      rw [distance_place started.inside d short,
        distance_place started.inside j (by omega)] at behind
      omega
    have restart := done.restart started.inside small
    have more :=
      ih _ restart.started (done.largestLast started.inside last restart) i
        (by rw [restart.length]; exact below)
    rw [totalQuota_congr s.pools _ restart.length restart.quotas, restart.quotas] at more
    rw [Nat.succ_mul, Nat.succ_mul, Nat.add_comm, returned_add, List.count_append,
      cycle_counts s started i below, returned_congr _ _ _ restart.same, more, Nat.add_comm]

/-! ## A quota too large to pass -/

theorem toInt_of_bounds (n : Int) (low : -2 ^ 31 ≤ n) (high : n < 2 ^ 31) : toInt n = n :=
  Int.bmod_eq_of_le (by omega) (by omega)

/-- A call that finds the current pool ready uses it and stays. -/
theorem select_here (s : Selector) (pool : Pool) (found : s.pools[s.rotatingPool]? = some pool)
    (hit : ready pool = true) :
    (select s).1 = s.rotatingPool ∧ (select s).2.rotatingPool = s.rotatingPool ∧
      (select s).2.pools[s.rotatingPool]? = some pool.use := by
  obtain ⟨inside, _⟩ := List.getElem?_eq_some_iff.mp found
  have here : (s.rotatingPool + 0) % s.pools.length = s.rotatingPool := Nat.mod_eq_of_lt inside
  have called :=
    select_first s 0 inside (Nat.zero_lt_of_lt inside)
      (fun j never => absurd never (Nat.not_lt_zero j))
    (by rw [here, readyAt, found, Option.any_some, hit])
  rw [called]
  refine ⟨here, here, ?_⟩
  have near := distance_place inside 0 (Nat.zero_lt_of_lt inside)
  rw [here] at near
  rw [getElem?_usedUpTo, found, Option.map_some, near, if_pos Nat.one_pos]

/-- As long as its quota is not used, a pool is returned again. -/
theorem returned_here (calls : Nat) (s : Selector) (pool : Pool)
    (found : s.pools[s.rotatingPool]? = some pool) (live : pool.usable = true)
    (low : -2 ^ 31 ≤ pool.quotaUsed) (room : pool.quotaUsed + calls ≤ pool.quotaGcd.val) :
    returned calls s = List.replicate calls s.rotatingPool := by
  induction calls generalizing s pool with
  | zero => rfl
  | succ calls ih =>
    have bound := pool.quotaGcd.isLt
    have hit : ready pool = true := by
      rw [ready, live, Bool.and_true, Pool.hasQuota, decide_eq_true_eq]
      omega
    obtain ⟨result, place, after⟩ := select_here s pool found hit
    have used : pool.use.quotaUsed = pool.quotaUsed + 1 := toInt_of_bounds _ (by omega) (by omega)
    have rest :=
      ih (select s).2 pool.use (place ▸ after) live (by omega)
        (by rw [used]; exact (by omega : pool.quotaUsed + 1 + calls ≤ pool.quotaGcd.val))
    have first : returned 1 s = [s.rotatingPool] := congrArg (fun i => [i]) result
    rw [Nat.add_comm, returned_add, first, Nat.add_comm, List.replicate_succ, List.singleton_append]
    exact congrArg _ (rest.trans (by rw [place]))

/-- Two different pools with a quota. -/
theorem add_quotaOf_le (pools : List Pool) (i j : Nat) (first : i < pools.length)
    (second : j < pools.length) (apart : i ≠ j) :
    quotaOf pools i + quotaOf pools j ≤ totalQuota pools := by
  rw [← sum_quotaOf, ← Finset.sum_pair apart]
  refine Finset.sum_le_sum_of_subset fun k member => ?_
  rcases Finset.mem_insert.mp member with rfl | last
  · exact Finset.mem_range.mpr first
  · rw [Finset.mem_singleton.mp last]
    exact Finset.mem_range.mpr second

/-- Behind a cycle that has passed a pool with the largest quota, such a pool is
returned again and again. -/
theorem Finished.overdrawn {pools : List Pool} {start d : Nat} {s : Selector}
    (done : Finished pools start d s) (inside : start < pools.length) (place : Nat)
    (before : place < d) (largest : quotaOf pools ((start + place) % pools.length) = 2 ^ 31 - 1) :
    ∃ i < pools.length, quotaOf pools i = 2 ^ 31 - 1 ∧ i ≠ (start + d) % pools.length ∧
      ∀ calls ≤ 2 ^ 31, returned calls s = List.replicate calls i := by
  have short := done.short
  have within : s.rotatingPool < s.pools.length := by
    rw [done.place, done.length]
    exact Nat.mod_lt _ (by omega)
  obtain ⟨steps, few, skipped, hit⟩ : ∃ steps < s.pools.length,
      (∀ j < steps, readyAt s.pools ((s.rotatingPool + j) % s.pools.length) = false) ∧
        readyAt s.pools ((s.rotatingPool + steps) % s.pools.length) = true := by
    refine (first_ready s.pools s.rotatingPool).resolve_right fun none => ?_
    have hit := (done.readyAt_iff place (by omega)).mpr ⟨before, largest⟩
    have below : (start + place) % pools.length < s.pools.length := by
      rw [done.length]
      exact Nat.mod_lt _ (by omega)
    have unready := none _ (distance_lt (by omega) s.rotatingPool ((start + place) % pools.length))
    rw [place_distance within _ below, hit] at unready
    cases unready
  have called := select_first s steps within few skipped hit
  generalize stop : (s.rotatingPool + steps) % s.pools.length = i at hit called
  have below : i < pools.length := by
    rw [← stop, done.length]
    exact Nat.mod_lt _ (by omega)
  have near := distance_lt (by omega : 0 < pools.length) start i
  have here := place_distance inside i below
  rw [← here, done.readyAt_iff _ near, here] at hit
  have used := done.passed _ hit.1
  rw [here, hit.2] at used
  obtain ⟨pool, found⟩ : ∃ pool, s.pools[i]? = some pool :=
    ⟨_, List.getElem?_eq_getElem (by rw [done.length]; exact below)⟩
  have quota := done.quotas i
  rw [quotaOf, found, hit.2] at quota
  rw [usedOf, found] at used
  have lowest : pool.quotaUsed = -2 ^ 31 := used.trans (by decide)
  have full : pool.quotaGcd.val = 2 ^ 31 - 1 := quota
  refine ⟨i, below, hit.2, ?_, fun calls many => ?_⟩
  · rintro rfl
    rw [distance_place inside d short] at hit
    omega
  · cases calls with
    | zero => rfl
    | succ calls =>
      have passed : (select s).2.pools[(select s).2.rotatingPool]? = some pool.use := by
        have reached := distance_place within steps few
        rw [stop] at reached
        rw [called, getElem?_usedUpTo, found, Option.map_some, reached, if_pos (Nat.lt_succ_self _)]
      have next : pool.use.quotaUsed = pool.quotaUsed + 1 := toInt_of_bounds _ (by omega) (by omega)
      have live : pool.use.usable = true := done.usable pool (List.mem_of_getElem? found)
      have quotaKept : pool.use.quotaGcd.val = 2 ^ 31 - 1 := full
      have again := returned_here calls (select s).2 pool.use passed live (by omega) (by omega)
      have first : returned 1 s = [i] := congrArg (fun result : Nat × Selector => [result.1]) called
      have rotating : (select s).2.rotatingPool = i := by rw [called]
      rw [Nat.add_comm, returned_add, first, Nat.add_comm, List.replicate_succ,
        List.singleton_append]
      exact congrArg _ (again.trans (by rw [rotating]))

theorem not_fair (s : Selector) (started : Started s) (early : ¬ LargestLast s) : ¬ Fair s := by
  intro fair
  unfold LargestLast at early
  push Not at early
  obtain ⟨i, below, largest, other, within, positive, later⟩ := early
  obtain ⟨d, done⟩ := cycle_finished s started
  have nearOther := distance_lt (by omega : 0 < s.pools.length) s.rotatingPool other
  have passed : distance s.pools.length s.rotatingPool i < d := by
    by_contra ahead
    have nothing := done.ahead _ (by omega) nearOther
    rw [place_distance started.inside other within] at nothing
    omega
  obtain ⟨again, inside, quota, apart, repeated⟩ := done.overdrawn started.inside _ passed
    (by rw [place_distance started.inside i below]; exact largest)
  have total :=
    add_quotaOf_le s.pools again _ inside (Nat.mod_lt (s.rotatingPool + d) (by omega)) apart
  have current := done.current
  have twice := fair 2 again inside
  obtain ⟨rest, size⟩ : ∃ rest, 2 * totalQuota s.pools = totalQuota s.pools + (2 ^ 31 + rest) :=
    ⟨totalQuota s.pools - 2 ^ 31, by omega⟩
  rw [size, returned_add, returned_add, repeated _ (Nat.le_refl _),
    List.count_append, List.count_append, cycle_counts s started again inside,
    List.count_replicate_self, quota] at twice
  omega

/-- Load balance is fair exactly if no pool with the largest quota is passed. -/
theorem load_balance_fair_iff (s : Selector) (started : Started s) : Fair s ↔ LargestLast s := by
  refine ⟨fun fair => ?_, fair_of_largestLast s started⟩
  by_contra early
  exact not_fair s started early fair

/-- Two usable pools; the second one has the quota 1. -/
def twoQuotas (first : Quota) : Selector where
  pools := [⟨⟨⟨false, .enabled, false, false, false⟩, [], 0, false, false⟩, 0, first, 0⟩,
    ⟨⟨⟨false, .enabled, false, false, false⟩, [], 1, false, false⟩, 0, ⟨1, by decide⟩, 0⟩]
  currentpool := 0
  rotatingPool := 0

theorem twoQuotas_started (first : Quota) : Started (twoQuotas first) := by
  refine ⟨?_, ?_, Nat.two_pos, ?_⟩
  · intro pool member
    rcases List.mem_pair.mp member with rfl | rfl <;> rfl
  · intro pool member
    rcases List.mem_pair.mp member with rfl | rfl <;> rfl
  · show 0 < first.val + (1 + 0)
    omega

theorem load_balance_fair_three : Fair (twoQuotas 3) ↔ LargestLast (twoQuotas 3) :=
  load_balance_fair_iff (twoQuotas 3) (twoQuotas_started 3)

/-- The first pool has the largest quota, and a cycle passes it. -/
theorem largest_quota_unfair : ¬ Fair (twoQuotas 2147483647) := by
  refine not_fair _ (twoQuotas_started _) fun last => ?_
  have behind := last 0 (by decide) (by decide) 1 (by decide) (by decide)
  exact absurd behind (by decide)

end CgminerT4.Guarantees.LoadBalance
