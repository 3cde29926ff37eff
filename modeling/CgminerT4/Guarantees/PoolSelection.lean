import CgminerT4.Library.CyclicIndex
import CgminerT4.Source.PoolSelect

/-!
# The pool that select_pool returns

The rotation stops at the first usable pool with quota left. In balanced mode
the current pool stays in front of all usable pools that have as many shares,
usable or not.
-/
namespace CgminerT4.Guarantees.PoolSelection
open Library.CyclicIndex
open Source.Jansson (toInt)
open Source.PoolSwitch (PoolStrategy)
open Source.PoolSelect

/-! ## The rotation -/

/-- A usable pool with quota left. -/
def ready (pool : Pool) : Bool := pool.hasQuota && pool.usable

def readyAt (pools : List Pool) (i : Nat) : Bool := (pools[i]?).any ready

/-- The first `steps` pools from `start` on are used. -/
def usedUpTo (pools : List Pool) (start steps : Nat) : List Pool :=
  pools.mapIdx fun i pool => if distance pools.length start i < steps then pool.use else pool

@[simp] theorem length_usedUpTo (pools : List Pool) (start steps : Nat) :
    (usedUpTo pools start steps).length = pools.length := List.length_mapIdx

theorem usedUpTo_zero (pools : List Pool) (start : Nat) : usedUpTo pools start 0 = pools := by
  apply List.ext_getElem?
  intro i
  simp [usedUpTo]

theorem getElem?_usedUpTo (pools : List Pool) (start steps i : Nat) :
    (usedUpTo pools start steps)[i]? =
      (pools[i]?).map fun pool =>
        if distance pools.length start i < steps then pool.use else pool :=
  List.getElem?_mapIdx

/-- The pool behind the used ones is as before. -/
theorem getElem?_behind (pools : List Pool) (start steps : Nat) (inside : start < pools.length)
    (short : steps < pools.length) :
    (usedUpTo pools start steps)[(start + steps) % pools.length]? =
      pools[(start + steps) % pools.length]? := by
  rw [getElem?_usedUpTo, distance_place inside steps short]
  simp

theorem usedUpTo_succ (pools : List Pool) (start steps : Nat) (inside : start < pools.length)
    (short : steps < pools.length) (pool : Pool)
    (found : pools[(start + steps) % pools.length]? = some pool) :
    (usedUpTo pools start steps).set ((start + steps) % pools.length) pool.use =
      usedUpTo pools start (steps + 1) := by
  apply List.ext_getElem?
  intro i
  by_cases below : i < pools.length
  · by_cases here : i = (start + steps) % pools.length
    · rw [here, List.getElem?_set_self (by rw [length_usedUpTo]; exact here ▸ below),
        getElem?_usedUpTo, found, distance_place inside steps short, Option.map_some,
        if_pos (Nat.lt_succ_self _)]
    · have apart : distance pools.length start i ≠ steps := by
        intro same
        rw [← same, place_distance inside i below] at here
        exact here rfl
      have later : distance pools.length start i < steps + 1 ↔
        distance pools.length start i < steps := by omega
      rw [List.getElem?_set_ne (Ne.symm here), getElem?_usedUpTo, getElem?_usedUpTo]
      simp only [later]
  · rw [List.getElem?_eq_none (by rw [List.length_set, length_usedUpTo]; omega),
      List.getElem?_eq_none (by rw [length_usedUpTo]; omega)]

theorem advance_place (n start steps : Nat) (positive : 0 < n) :
    advance n ((start + steps) % n) = (start + (steps + 1)) % n := by
  have below := Nat.mod_lt (start + steps) positive
  have next : (start + (steps + 1)) % n = ((start + steps) % n + 1) % n := by
    rw [Nat.mod_add_mod, Nat.add_assoc]
  unfold advance
  rw [next]
  split
  · next last => rw [show (start + steps) % n + 1 = n by omega, Nat.mod_self]
  · next before => exact (Nat.mod_eq_of_lt (by omega)).symm

/-- One round of the loop. -/
theorem rotate_succ (rounds : Nat) (pools : List Pool) (place : Nat) (pool : Pool)
    (found : pools[place]? = some pool) :
    rotate (rounds + 1) pools place =
      if ready pool = true then (some place, pools.set place pool.use, place)
      else rotate rounds (pools.set place pool.use) (advance pools.length place) := by
  rw [rotate, found]
  rfl

/-- The loop passes the pools that are not ready. -/
theorem rotate_skip (pools : List Pool) (start rounds steps : Nat) (inside : start < pools.length)
    (short : steps ≤ pools.length)
    (skipped : ∀ j < steps, readyAt pools ((start + j) % pools.length) = false) :
    rotate (steps + rounds) pools start =
      rotate rounds (usedUpTo pools start steps) ((start + steps) % pools.length) := by
  induction steps generalizing rounds with
  | zero => rw [usedUpTo_zero, Nat.zero_add, Nat.add_zero, Nat.mod_eq_of_lt inside]
  | succ steps ih =>
    have found :=
      List.getElem?_eq_getElem (Nat.mod_lt (start + steps) (by omega : 0 < pools.length))
    have unready := skipped steps (Nat.lt_succ_self _)
    rw [readyAt, found, Option.any_some] at unready
    rw [Nat.add_right_comm, Nat.add_assoc, ih (rounds + 1) (by omega) fun j before =>
      skipped j (by omega),
      rotate_succ rounds _ _ _ ((getElem?_behind pools start steps inside (by omega)).trans found),
      if_neg (by rw [unready]; decide), length_usedUpTo,
      usedUpTo_succ pools start steps inside (by omega) _ found, advance_place _ _ _ (by omega)]

/-- The loop stops at the first pool that is ready. -/
theorem rotate_found (pools : List Pool) (start steps : Nat) (inside : start < pools.length)
    (short : steps < pools.length)
    (skipped : ∀ j < steps, readyAt pools ((start + j) % pools.length) = false)
    (hit : readyAt pools ((start + steps) % pools.length) = true) :
    rotate pools.length pools start =
      (some ((start + steps) % pools.length), usedUpTo pools start (steps + 1),
        (start + steps) % pools.length) := by
  obtain ⟨rest, split⟩ : ∃ rest, pools.length = steps + (rest + 1) :=
    ⟨pools.length - steps - 1, by omega⟩
  have found := List.getElem?_eq_getElem (Nat.mod_lt (start + steps) (by omega : 0 < pools.length))
  rw [readyAt, found, Option.any_some] at hit
  have passed := rotate_skip pools start (rest + 1) steps inside (by omega) skipped
  rw [← split] at passed
  rw [passed, rotate_succ rest _ _ _ ((getElem?_behind pools start steps inside short).trans found),
    if_pos hit, usedUpTo_succ pools start steps inside short _ found]

/-- Without a ready pool the loop finds none. -/
theorem rotate_none (pools : List Pool) (start : Nat) (inside : start < pools.length)
    (skipped : ∀ j < pools.length, readyAt pools ((start + j) % pools.length) = false) :
    rotate pools.length pools start = (none, usedUpTo pools start pools.length, start) := by
  have passed := rotate_skip pools start 0 pools.length inside (Nat.le_refl _) skipped
  rw [Nat.add_zero, Nat.add_mod_right, Nat.mod_eq_of_lt inside] at passed
  rw [passed]
  rfl

/-- Either some pool is the first one that is ready, or none is. -/
theorem first_ready (pools : List Pool) (start : Nat) :
    (∃ steps < pools.length, (∀ j < steps, readyAt pools ((start + j) % pools.length) = false) ∧
      readyAt pools ((start + steps) % pools.length) = true) ∨
    ∀ j < pools.length, readyAt pools ((start + j) % pools.length) = false := by
  by_cases any : ∃ steps, steps < pools.length ∧
    readyAt pools ((start + steps) % pools.length) = true
  · obtain ⟨short, hit⟩ := Nat.find_spec any
    refine .inl ⟨Nat.find any, short, fun j before => ?_, hit⟩
    by_contra ready
    exact Nat.find_min any before ⟨by omega, by simpa using ready⟩
  · refine .inr fun j short => ?_
    by_contra ready
    exact any ⟨j, short, by simpa using ready⟩

/-! ## Usable results -/

def SomeUsable (s : Selector) : Prop := ∃ pool ∈ s.pools, pool.usable = true

def ReturnsUsable (strategy : PoolStrategy) (s : Selector) : Prop :=
  usableAt s.pools (selectPool strategy s).1 = true

/-- Some usable pool has quota left, now or after the reset. -/
def QuotaLeft (s : Selector) : Prop :=
  (∃ pool ∈ s.pools, ready pool = true) ∨
    (∀ pool ∈ s.pools, pool.hasQuota = false) ∧ ∃ pool ∈ s.pools, pool.usable = true ∧
      0 < pool.quotaGcd

/-- priority_pool gives a usable pool for one of the numbers it is asked for. -/
def Prioritised (s : Selector) : Prop :=
  ∃ choice < s.pools.length, usableAt s.pools (priorityPool s.pools choice) = true

/-- The current pool is usable, or the strategy gets to a pool that is. -/
def Covered (strategy : PoolStrategy) (s : Selector) : Prop :=
  usableAt s.pools s.currentpool = true ∨
    match strategy with
    | .balance =>
      ∃ cp, s.pools[s.currentpool]? = some cp ∧ ∃ pool ∈ s.pools, pool.usable = true ∧
        pool.shares < cp.shares
    | .loadbalance => QuotaLeft s ∨ Prioritised s
    | .failover | .roundrobin | .rotate => False

/-- select_balanced stays with the pool it has, or takes a usable one with fewer shares. -/
theorem leastShares_cases (rest : List Pool) (i : Nat) (lowest : Int) (ret : Nat) :
    (leastShares rest i (lowest, ret) = ret ∧ ∀ pool ∈ rest, pool.usable = true →
      lowest ≤ pool.shares) ∨
    ∃ j pool, rest[j]? = some pool ∧ pool.usable = true ∧ pool.shares < lowest ∧
      leastShares rest i (lowest, ret) = i + j := by
  induction rest generalizing i lowest ret with
  | nil => exact .inl ⟨rfl, fun _ never => absurd never List.not_mem_nil⟩
  | cons first rest ih =>
    rw [leastShares]
    split
    · next taken =>
      rw [Bool.and_eq_true, decide_eq_true_eq] at taken
      obtain ⟨live, fewer⟩ := taken
      right
      rcases ih (i + 1) first.shares i with ⟨kept, _⟩ | ⟨j, pool, found, alive, less, result⟩
      · exact ⟨0, first, rfl, live, fewer, kept⟩
      · exact ⟨j + 1, pool, found, alive, by omega, by rw [result]; omega⟩
    · next passed =>
      rw [Bool.and_eq_true, decide_eq_true_eq, not_and, not_lt] at passed
      rcases ih (i + 1) lowest ret with ⟨kept, least⟩ | ⟨j, pool, found, alive, less, result⟩
      · exact .inl ⟨kept, List.forall_mem_cons.mpr ⟨passed, least⟩⟩
      · exact .inr ⟨j + 1, pool, found, alive, less, by rw [result]; omega⟩

theorem balance_iff (s : Selector) (inside : s.currentpool < s.pools.length) :
    ReturnsUsable .balance s ↔ Covered .balance s := by
  have found := List.getElem?_eq_getElem inside
  have result : (selectPool .balance s).1 =
      leastShares s.pools 0 (s.pools[s.currentpool].shares, s.currentpool) := by
    show selectBalanced s.pools s.currentpool = _
    rw [selectBalanced, found]
    rfl
  unfold ReturnsUsable Covered
  rw [result]
  rcases leastShares_cases s.pools 0 s.pools[s.currentpool].shares s.currentpool with
    ⟨kept, least⟩ | ⟨j, pool, lookup, live, fewer, taken⟩
  · rw [kept]
    refine (or_iff_left ?_).symm
    rintro ⟨cp, current, pool, member, live, fewer⟩
    rw [found] at current
    cases current
    have atLeast := least pool member live
    omega
  · rw [taken, Nat.zero_add, usableAt, lookup, Option.any_some]
    exact iff_of_true live (.inr ⟨_, found, pool, List.mem_of_getElem? lookup, live, fewer⟩)

/-! ## Load balance -/

theorem toPool_usedUpTo (pools : List Pool) (start steps : Nat) :
    (usedUpTo pools start steps).map Pool.toPool = pools.map Pool.toPool := by
  apply List.ext_getElem?
  intro i
  rw [List.getElem?_map, List.getElem?_map, getElem?_usedUpTo, Option.map_map]
  congr 1
  funext pool
  dsimp only [Function.comp_apply]
  split <;> rfl

theorem usableAt_toPool (pools : List Pool) (i : Nat) :
    usableAt pools i = Source.PoolSwitch.usable (pools.map Pool.toPool) i := by
  unfold usableAt Source.PoolSwitch.usable
  rw [List.getElem?_map, Option.any_map]
  rfl

theorem usableAt_congr (pools other : List Pool)
    (same : other.map Pool.toPool = pools.map Pool.toPool) :
    usableAt other = usableAt pools := by
  funext i
  rw [usableAt_toPool, usableAt_toPool, same]

/-- Only the fields that counters do not touch matter for the choice by priority. -/
theorem byPriority_congr (pools other : List Pool) (cp : Nat)
    (same : other.map Pool.toPool = pools.map Pool.toPool) :
    byPriority other cp = byPriority pools cp := by
  have length : other.length = pools.length := by
    rw [← List.length_map Pool.toPool, same, List.length_map]
  have priority : priorityPool other = priorityPool pools := by
    funext choice
    rw [priorityPool, priorityPool, same]
  rw [byPriority, byPriority, usableAt_congr pools other same, length, priority]

theorem byPriority_usable (s : Selector) :
    usableAt s.pools (byPriority s.pools s.currentpool) = true ↔
      usableAt s.pools s.currentpool = true ∨ Prioritised s := by
  unfold byPriority Prioritised
  cases found :
    ((List.range s.pools.length).map (priorityPool s.pools)).find? (usableAt s.pools) with
  | some i =>
    have live := List.find?_some found
    obtain ⟨choice, below, rfl⟩ := List.mem_map.mp (List.mem_of_find?_eq_some found)
    exact iff_of_true live (.inr ⟨choice, List.mem_range.mp below, live⟩)
  | none =>
    refine (or_iff_left ?_).symm
    rintro ⟨choice, below, live⟩
    exact List.find?_eq_none.mp found _ (List.mem_map_of_mem (List.mem_range.mpr below)) live

/-- What the rotation and the choice by priority come to. -/
theorem rotation_iff (s : Selector) (inside : s.rotatingPool < s.pools.length) :
    usableAt s.pools ((rotate s.pools.length s.pools s.rotatingPool).1.getD
        (byPriority (rotate s.pools.length s.pools s.rotatingPool).2.1 s.currentpool)) = true ↔
      usableAt s.pools s.currentpool = true ∨ (∃ pool ∈ s.pools, ready pool = true) ∨
        Prioritised s := by
  rcases first_ready s.pools s.rotatingPool with ⟨steps, short, skipped, hit⟩ | skipped
  · rw [rotate_found s.pools s.rotatingPool steps inside short skipped hit]
    obtain ⟨pool, found, prepared⟩ := (Option.any_eq_true _ _).mp hit
    have live : pool.usable = true := (Bool.and_eq_true _ _ ▸ prepared : _ ∧ _).2
    refine iff_of_true ?_ (.inr (.inl ⟨pool, List.mem_of_getElem? found, prepared⟩))
    rw [Option.getD_some, usableAt, found, Option.any_some, live]
  · rw [rotate_none s.pools s.rotatingPool inside skipped]
    have nobody : ¬ ∃ pool ∈ s.pools, ready pool = true := by
      rintro ⟨pool, member, prepared⟩
      obtain ⟨i, below, found⟩ := List.mem_iff_getElem.mp member
      have unready :=
        skipped (distance s.pools.length s.rotatingPool i) (distance_lt (by omega) s.rotatingPool i)
      rw [place_distance inside i below, readyAt, List.getElem?_eq_getElem below, found,
        Option.any_some, prepared] at unready
      cases unready
    rw [Option.getD_none,
      byPriority_congr s.pools _ _ (toPool_usedUpTo s.pools s.rotatingPool s.pools.length),
      byPriority_usable, or_iff_right nobody]

/-- The reset leaves all but the counters, and the rotation in the table. -/
structure Restarted (s next : Selector) : Prop where
  toPool : next.pools.map Pool.toPool = s.pools.map Pool.toPool
  current : next.currentpool = s.currentpool
  inside : next.rotatingPool < next.pools.length
  ready : (∃ pool ∈ next.pools, PoolSelection.ready pool = true) ↔ QuotaLeft s

theorem resetQuota_restarted (s : Selector) (inside : s.rotatingPool < s.pools.length) :
    Restarted s (resetQuota s) := by
  unfold resetQuota
  split
  · next any =>
    obtain ⟨pool, member, quota⟩ := List.any_eq_true.mp any
    refine ⟨rfl, rfl, inside, (or_iff_left ?_).symm⟩
    rintro ⟨none, _⟩
    rw [none pool member] at quota
    cases quota
  · next none =>
    rw [Bool.not_eq_true, List.any_eq_false] at none
    simp only [Bool.not_eq_true] at none
    refine ⟨?_, rfl, ?_, ?_⟩
    · rw [List.map_map]
      rfl
    · dsimp only
      rw [List.length_map]
      unfold advance
      split <;> omega
    · have nobody : ¬ ∃ pool ∈ s.pools, ready pool = true := by
        rintro ⟨pool, member, prepared⟩
        rw [ready, none pool member] at prepared
        cases prepared
      unfold QuotaLeft
      rw [or_iff_right nobody, and_iff_right none]
      simp only [List.mem_map, exists_exists_and_eq_and]
      refine exists_congr fun pool => and_congr_right fun _ => ?_
      unfold ready Pool.hasQuota
      rw [Bool.and_eq_true, decide_eq_true_eq, and_comm]
      refine and_congr Iff.rfl ?_
      rw [Fin.lt_def]
      exact Int.natCast_pos

theorem prioritised_congr (s next : Selector)
    (same : next.pools.map Pool.toPool = s.pools.map Pool.toPool) :
    Prioritised next ↔ Prioritised s := by
  have length : next.pools.length = s.pools.length := by
    rw [← List.length_map Pool.toPool, same, List.length_map]
  unfold Prioritised priorityPool
  rw [usableAt_congr s.pools next.pools same, length, same]

theorem loadbalance_iff (s : Selector) (inside : s.rotatingPool < s.pools.length) :
    ReturnsUsable .loadbalance s ↔ Covered .loadbalance s := by
  have restarted := resetQuota_restarted s inside
  have rotation := rotation_iff (resetQuota s) restarted.inside
  rw [usableAt_congr s.pools _ restarted.toPool, restarted.current, restarted.ready,
    prioritised_congr s _ restarted.toPool] at rotation
  unfold ReturnsUsable Covered
  rw [← rotation, ← restarted.current]
  rfl

/-- With priorities that rank the pools, some usable pool is always found. -/
theorem prioritised_of_perm (s : Selector)
    (ranked : (s.pools.map fun pool => pool.prio).Perm (List.range s.pools.length))
    (any : SomeUsable s) : Prioritised s := by
  obtain ⟨pool, member, live⟩ := any
  obtain ⟨i, below, found⟩ := List.mem_iff_getElem.mp member
  have choice : pool.prio < s.pools.length :=
    List.mem_range.mp (ranked.mem_iff.mp (List.mem_map_of_mem member))
  have distinct : (s.pools.map fun pool => pool.prio).Nodup := ranked.nodup_iff.mpr List.nodup_range
  refine ⟨pool.prio, choice, ?_⟩
  have first : (s.pools.map Pool.toPool).findIdx? (fun other => other.prio = pool.prio) =
      some i := by
    rw [List.findIdx?_eq_some_iff_getElem]
    refine ⟨by rw [List.length_map]; exact below, by simp [found], fun j before => ?_⟩
    have apart := List.pairwise_iff_getElem.mp distinct j i (by rw [List.length_map]; omega)
      (by rw [List.length_map]; exact below) before
    rw [List.getElem_map, List.getElem_map, found] at apart
    rw [List.getElem_map]
    simpa using apart
  rw [priorityPool, Source.PoolSwitch.priorityPool, first, Option.getD_some, usableAt,
    List.getElem?_eq_getElem below, found, Option.any_some, live]

/-- Load balance returns a usable pool whenever there is one. -/
theorem loadbalance_usable (s : Selector) (inside : s.rotatingPool < s.pools.length)
    (ranked : (s.pools.map fun pool => pool.prio).Perm (List.range s.pools.length))
    (any : SomeUsable s) :
    ReturnsUsable .loadbalance s :=
  (loadbalance_iff s inside).mpr (.inr (.inr (prioritised_of_perm s ranked any)))

/-- A usable pool is returned whenever there is one, exactly if the strategy
gets to one. -/
theorem usable_returned_iff (strategy : PoolStrategy) (s : Selector)
    (current : s.currentpool < s.pools.length) (inside : s.rotatingPool < s.pools.length) :
    (SomeUsable s → ReturnsUsable strategy s) ↔ (SomeUsable s → Covered strategy s) := by
  have same : ReturnsUsable strategy s ↔ Covered strategy s := by
    cases strategy with
    | balance => exact balance_iff s current
    | loadbalance => exact loadbalance_iff s inside
    | _ => exact (or_iff_left not_false).symm
  exact forall_congr' fun _ => same

/-- Two pools without shares; the current one is idle. -/
def idleCurrent : Selector where
  pools := [⟨⟨⟨true, .enabled, false, false, false⟩, [], 0, false, false⟩, 0, 1, 0⟩,
    ⟨⟨⟨false, .enabled, false, false, false⟩, [], 1, false, false⟩, 0, 1, 0⟩]
  currentpool := 0
  rotatingPool := 0

theorem usable_returned_loadbalance :
    (SomeUsable idleCurrent → ReturnsUsable .loadbalance idleCurrent) ↔
      (SomeUsable idleCurrent → Covered .loadbalance idleCurrent) :=
  usable_returned_iff .loadbalance idleCurrent (by decide) (by decide)

/-- The idle pool is returned although the other one is usable. -/
theorem idle_pool_returned : SomeUsable idleCurrent ∧ ¬ ReturnsUsable .balance idleCurrent := by
  constructor
  · exact ⟨_, List.mem_cons_of_mem _ (List.mem_singleton_self _), by decide⟩
  · unfold ReturnsUsable
    decide

end CgminerT4.Guarantees.PoolSelection
