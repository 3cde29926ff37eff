import CgminerT4.Guarantees.PoolPriorities
import CgminerT4.Library.CyclicIndex

/-!
# The pool that switch_pools chooses

By priority the choice is the usable pool of least priority, in a cycle it is
the next usable pool. A selected pool is taken in a cycle as soon as it is not
idle, which is less than usable.
-/
namespace CgminerT4.Guarantees.PoolSwitching
open Library.CyclicIndex
open Source.SessionTable (PoolId PoolTable)
open Source.PoolSwitch (PoolStrategy PoolStatus PoolEnable)
open Source.PoolControl PoolPriorities

/-- Failover, balance and loadbalance. -/
def ByPriority (strategy : PoolStrategy) : Prop := strategy ≠ .roundrobin ∧ strategy ≠ .rotate

def SomeUsable (s : Pools) : Prop := ∃ pool ∈ s.table.pools, usable s pool = true

/-- The usable pool of least priority. -/
structure Master (s : Pools) (pool : PoolId) : Prop where
  member : pool ∈ s.table.pools
  usable : usable s pool = true
  least : ∀ other ∈ s.table.pools, Source.PoolControl.usable s other = true →
    prioOf s.table pool ≤ prioOf s.table other

/-- The pool `distance` places behind `place`, in a cycle. -/
def behindPlace (s : Pools) (place distance : Nat) : Option PoolId :=
  s.table.pools[(place + distance) % totalPools s]?

/-- The first usable pool behind a place, short of the place itself. -/
def FirstBehind (s : Pools) (place : Nat) (pool : PoolId) : Prop :=
  ∃ distance, 0 < distance ∧ distance < totalPools s ∧ behindPlace s place distance = some pool ∧
    usable s pool = true ∧
    ∀ nearer, 0 < nearer → nearer < distance →
      ∀ other ∈ behindPlace s place nearer, usable s other = false

/-- The next usable pool in the cycle, or the current one when no other is usable. -/
def Cyclic (s : Pools) (place : Nat) (current pool : PoolId) : Prop :=
  FirstBehind s place pool ∨
    (∀ other ∈ s.table.pools, other ≠ current → usable s other = false) ∧ pool = current

/-- switch_pools goes from `current` to the live pool `pool`. -/
structure LivePool (strategy : PoolStrategy) (s next : Pools) (selected : Option PoolId)
    (current pool : PoolId) :
    Prop where
  byPriority : ByPriority strategy → Master next pool ∨ ¬ SomeUsable next ∧ pool = current
  cyclic : ¬ ByPriority strategy → selected = none →
    Cyclic s (s.table.pool current).poolNo current pool
  live : SomeUsable s → usable next pool = true

/-- In a cycle, a pool was selected that is not idle and not usable, and another
one is usable. -/
def DeadSelection (strategy : PoolStrategy) (s : Pools) (selected : Option PoolId) : Prop :=
  ¬ ByPriority strategy ∧ SomeUsable s ∧
    ∃ chosen, selected = some chosen ∧ (s.status chosen).idle = false ∧ usable s chosen = false

/-! ## By priority -/

theorem priorityPool_eq_some {t : PoolTable} (inv : Inv t) (choice : Nat)
    (below : choice < t.pools.length) (pool : PoolId) :
    priorityPool t choice = some pool ↔ pool ∈ t.pools ∧ prioOf t pool = choice := by
  obtain ⟨hit, found, chosen⟩ := inv.wellNumbered.found choice below
  have member := List.mem_of_find?_eq_some found
  have prio : prioOf t hit = choice := of_decide_eq_true (List.find?_some found :)
  rw [chosen, Option.some.injEq]
  constructor
  · rintro rfl
    exact ⟨member, prio⟩
  · rintro ⟨inside, same⟩
    exact inv.ranked.inj hit member pool inside (prio.trans same.symm)

theorem masterPool_some (s : Pools) (inv : Inv s.table) (pool : PoolId)
    (found : masterPool s = some pool) :
    Master s pool := by
  unfold masterPool at found
  rw [List.find?_filterMap, Option.bind_eq_some_iff] at found
  obtain ⟨choice, first, chosen⟩ := found
  obtain ⟨test, inside, earlier⟩ := List.find?_range_eq_some.mp first
  obtain ⟨member, prio⟩ :=
    (priorityPool_eq_some inv choice (List.mem_range.mp inside) pool).mp chosen
  refine ⟨member, ?_, fun other otherMember otherUsable => ?_⟩
  · rw [chosen] at test
    exact test
  · by_contra less
    have before : prioOf s.table other < choice := by omega
    have named :=
      (priorityPool_eq_some inv _ (inv.ranked.bound other otherMember) other).mpr ⟨otherMember, rfl⟩
    have skipped := earlier _ before
    rw [named, Option.any_some, otherUsable] at skipped
    cases skipped

theorem masterPool_none (s : Pools) (inv : Inv s.table) (missing : masterPool s = none) :
    ¬ SomeUsable s := by
  rintro ⟨pool, member, live⟩
  have below := inv.ranked.bound pool member
  have named := (priorityPool_eq_some inv _ below pool).mpr ⟨member, rfl⟩
  refine List.find?_eq_none.mp missing pool
    (List.mem_filterMap.mpr ⟨_, List.mem_range.mpr below, named⟩) live

/-! ## In a cycle -/

theorem cycle_eq (total count place : Nat) (inside : place < total) :
    cycle total count place = (List.range count).map fun i => (place + (i + 1)) % total := by
  induction count generalizing place with
  | zero => rfl
  | succ count ih =>
    have next : (if place + 1 ≥ total then 0 else place + 1) = (place + 1) % total := by
      split
      · next last => rw [show place + 1 = total by omega, Nat.mod_self]
      · next before => rw [Nat.mod_eq_of_lt (by omega)]
    rw [cycle, next, ih _ (Nat.mod_lt _ (by omega)), List.range_succ_eq_map, List.map_cons,
      List.map_map]
    refine congrArg _ (List.map_congr_left fun i _ => ?_)
    rw [Nat.mod_add_mod, Function.comp_apply]
    congr 1
    omega

/-- The number that the search in the cycle finds. -/
def nextNumber (s : Pools) (place : Nat) : Option Nat :=
  (cycle (totalPools s) (totalPools s - 1) place).find? fun next =>
    (s.table.pools[next]?).any (usable s)

theorem nextNumber_some (s : Pools) (place next : Nat) (inside : place < totalPools s)
    (found : nextNumber s place = some next) :
    ∃ pool, s.table.pools[next]? = some pool ∧ FirstBehind s place pool := by
  unfold nextNumber at found
  rw [cycle_eq _ _ _ inside, List.find?_map, Option.map_eq_some_iff] at found
  obtain ⟨i, first, rfl⟩ := found
  obtain ⟨test, below, earlier⟩ := List.find?_range_eq_some.mp first
  rw [List.mem_range] at below
  rw [Function.comp_apply, Option.any_eq_true] at test
  obtain ⟨pool, lookup, live⟩ := test
  refine ⟨pool, lookup, i + 1, by omega, by omega, lookup, live,
    fun nearer positive before other present => ?_⟩
  have skipped := earlier (nearer - 1) (by omega)
  rw [Function.comp_apply, show nearer - 1 + 1 = nearer by omega] at skipped
  unfold behindPlace at present
  rw [Option.mem_def.mp present, Option.any_some, Bool.not_eq_true'] at skipped
  exact skipped

theorem nextNumber_none (s : Pools) (place : Nat) (current : PoolId)
    (here : s.table.pools[place]? = some current) (missing : nextNumber s place = none)
    (other : PoolId) (member : other ∈ s.table.pools) (apart : other ≠ current) :
    usable s other = false := by
  obtain ⟨i, found, below⟩ := lookup_of_mem other member
  have inside : place < totalPools s := inside_of_lookup _ _ _ here
  have different : i ≠ place := by
    rintro rfl
    rw [found] at here
    exact apart (Option.some.inj here)
  have short := distance_lt (by omega : 0 < totalPools s) place i
  have reached := place_distance inside i below
  generalize distance (totalPools s) place i = steps at short reached
  have positive : 0 < steps := by
    by_contra none
    obtain rfl : steps = 0 := by omega
    rw [Nat.add_zero, Nat.mod_eq_of_lt inside] at reached
    exact different reached.symm
  unfold nextNumber at missing
  rw [cycle_eq _ _ _ inside] at missing
  have skipped := List.find?_eq_none.mp missing i
    (List.mem_map.mpr ⟨steps - 1, List.mem_range.mpr (by omega), by
      rw [show steps - 1 + 1 = steps by omega, reached]⟩)
  rw [found, Option.any_some, Bool.not_eq_true] at skipped
  exact skipped

/-! ## switch_pools -/

/-- The table that switch_pools chooses from. -/
def promoted (s : Pools) (selected : Option PoolId) : Pools :=
  { s with table := selected.elim s.table (promote s.table) }

theorem promoted_pools (s : Pools) (selected : Option PoolId) :
    (promoted s selected).table.pools = s.table.pools := by
  cases selected with
  | none => rfl
  | some pool => exact promote_pools s.table pool

theorem promoted_inv (s : Pools) (selected : Option PoolId) (inv : Inv s.table)
    (members : ∀ pool ∈ selected, pool ∈ s.table.pools) : Inv (promoted s selected).table := by
  cases selected with
  | none => exact inv
  | some pool => exact promote_inv s.table inv pool (members pool rfl)

theorem someUsable_promoted (s : Pools) (selected : Option PoolId) :
    SomeUsable (promoted s selected) ↔ SomeUsable s := by
  unfold SomeUsable
  rw [promoted_pools]
  exact Iff.rfl

/-- The search in the cycle ends with a usable pool if there is one. -/
theorem Cyclic.live {s : Pools} {place : Nat} {current pool : PoolId}
    (found : Cyclic s place current pool) (any : SomeUsable s) : usable s pool = true := by
  rcases found with ⟨_, _, _, _, live, _⟩ | ⟨others, rfl⟩
  · exact live
  · obtain ⟨other, member, live⟩ := any
    by_cases same : other = pool
    · rw [← same]
      exact live
    · rw [others other member same] at live
      cases live

theorem cyclic_search (s : Pools) (place : Nat) (current : PoolId)
    (here : s.table.pools[place]? = some current) :
    ∃ pool, s.table.pools[(nextNumber s place).getD place]? = some pool ∧
      Cyclic s place current pool := by
  cases found : nextNumber s place with
  | some next =>
    obtain ⟨pool, lookup, first⟩ := nextNumber_some s place next (inside_of_lookup _ _ _ here) found
    exact ⟨pool, lookup, .inl first⟩
  | none => exact ⟨current, here, .inr ⟨nextNumber_none s place current here found, rfl⟩⟩

theorem priority_search (s : Pools) (inv : Inv s.table) (place : Nat) (current : PoolId)
    (here : s.table.pools[place]? = some current) :
    ∃ pool, s.table.pools[((masterPool s).map fun pool => (s.table.pool pool).poolNo).getD place]? =
      some pool ∧
      (Master s pool ∨ ¬ SomeUsable s ∧ pool = current) := by
  cases found : masterPool s with
  | some pool =>
    have master := masterPool_some s inv pool found
    obtain ⟨i, lookup, _⟩ := lookup_of_mem pool master.member
    refine ⟨pool, ?_, .inl master⟩
    rw [Option.map_some, Option.getD_some, inv.numbered i pool lookup]
    exact lookup
  | none => exact ⟨current, here, .inr ⟨masterPool_none s inv found, rfl⟩⟩

/-- What switch_pools chooses from a table in which the selected pool has come
to the front. -/
structure Chosen (strategy : PoolStrategy) (s : Pools) (selected : Option PoolId) (place : Nat)
    (current pool : PoolId) :
    Prop where
  byPriority : ByPriority strategy → Master s pool ∨ ¬ SomeUsable s ∧ pool = current
  cyclic : ¬ ByPriority strategy →
    (∀ chosen, selected = some chosen → (s.status chosen).idle = true) →
    Cyclic s place current pool
  shortcut : ¬ ByPriority strategy → ∀ chosen, selected = some chosen →
    (s.status chosen).idle = false → pool = chosen

theorem choosePool_byPriority (strategy : PoolStrategy) (s : Pools) (place : Nat)
    (selected : Option PoolId) (priority : ByPriority strategy) :
      choosePool strategy s place selected =
      ((masterPool s).map fun pool => (s.table.pool pool).poolNo).getD place := by
  obtain ⟨noRobin, noRotate⟩ := priority
  cases strategy with
  | roundrobin => exact absurd rfl noRobin
  | rotate => exact absurd rfl noRotate
  | _ => cases found : masterPool s <;> simp [choosePool, found]

theorem choosePool_cyclic (strategy : PoolStrategy) (s : Pools) (place : Nat)
    (selected : Option PoolId) (cyclic : ¬ ByPriority strategy) :
      choosePool strategy s place selected =
      ((selected.filter fun pool => !(s.status pool).idle).map fun pool =>
        (s.table.pool pool).poolNo).getD
        ((nextNumber s place).getD place) := by
  cases strategy with
  | roundrobin =>
    cases found :
      selected.filter fun pool => !(s.status pool).idle <;> simp [choosePool, found, nextNumber]
  | rotate =>
    cases found :
      selected.filter fun pool => !(s.status pool).idle <;> simp [choosePool, found, nextNumber]
  | _ => exact absurd ⟨by decide, by decide⟩ cyclic

theorem choosePool_spec (strategy : PoolStrategy) (s : Pools) (inv : Inv s.table)
    (selected : Option PoolId) (members : ∀ pool ∈ selected, pool ∈ s.table.pools) (place : Nat)
    (current : PoolId) (here : s.table.pools[place]? = some current) :
    ∃ pool, s.table.pools[choosePool strategy s place selected]? = some pool ∧
      Chosen strategy s selected place current pool := by
  by_cases priority : ByPriority strategy
  · obtain ⟨pool, lookup, master⟩ := priority_search s inv place current here
    rw [choosePool_byPriority strategy s place selected priority]
    exact ⟨pool, lookup, fun _ => master, fun cyclic => absurd priority cyclic,
      fun cyclic => absurd priority cyclic⟩
  · rw [choosePool_cyclic strategy s place selected priority]
    cases taken : selected.filter fun pool => !(s.status pool).idle with
    | some chosen =>
      obtain ⟨same, busy⟩ := Option.filter_eq_some_iff.mp taken
      rw [Bool.not_eq_true'] at busy
      obtain ⟨i, lookup, _⟩ := lookup_of_mem chosen (members chosen same)
      refine ⟨chosen, ?_, fun byPriority => absurd byPriority priority, fun _ idle => ?_,
        fun _ other again _ => ?_⟩
      · rw [Option.map_some, Option.getD_some, inv.numbered i chosen lookup]
        exact lookup
      · rw [idle chosen same] at busy
        cases busy
      · rw [same] at again
        exact Option.some.inj again
    | none =>
      obtain ⟨pool, lookup, found⟩ := cyclic_search s place current here
      refine ⟨pool, lookup, fun byPriority => absurd byPriority priority, fun _ _ => found,
        fun _ chosen same busy => ?_⟩
      have skipped := Option.filter_eq_none_iff.mp taken chosen same
      rw [busy] at skipped
      exact absurd rfl skipped

/-! ## switch_pools -/

variable (strategy : PoolStrategy) (behind : Nat → Option PoolId)

theorem switchPools_chosen (s : Pools) (inv : Inv s.table) (selected : Option PoolId)
    (members : ∀ pool ∈ selected, pool ∈ s.table.pools) (current : PoolId)
    (active : s.currentpool = some current) (member : current ∈ s.table.pools) :
    ∃ pool, switchPools strategy behind s selected =
      some { promoted s selected with currentpool := some pool } ∧
      pool ∈ s.table.pools ∧ Chosen strategy (promoted s selected) selected
        (s.table.pool current).poolNo current pool := by
  obtain ⟨place, lookup, _⟩ := lookup_of_mem current member
  have here : (promoted s selected).table.pools[(s.table.pool current).poolNo]? = some current := by
    rw [promoted_pools, inv.numbered place current lookup]
    exact lookup
  have listed : ∀ pool ∈ selected, pool ∈ (promoted s selected).table.pools := by
    rw [promoted_pools]
    exact members
  obtain ⟨pool, found, chosen⟩ :=
    choosePool_spec strategy (promoted s selected) (promoted_inv s selected inv members)
      selected listed _ current here
  refine ⟨pool, Option.bind_eq_some_iff.mpr ⟨current, active, ?_⟩, ?_, chosen⟩
  · refine Option.map_eq_some_iff.mpr ⟨pool, ?_, rfl⟩
    exact Option.or_eq_some_iff.mpr (.inl found)
  · rw [← promoted_pools s selected]
    exact List.mem_of_getElem? found

/-- A live pool is chosen exactly if no dead one was selected in a cycle. -/
theorem live_pool_iff (s : Pools) (inv : Inv s.table) (selected : Option PoolId)
    (enabled : ∀ pool ∈ selected, pool ∈ s.table.pools ∧ (s.status pool).enabled = .enabled)
    (current : PoolId) (active : s.currentpool = some current) (member : current ∈ s.table.pools) :
    ∃ next pool, switchPools strategy behind s selected = some next ∧ next.currentpool = some pool ∧
      (LivePool strategy s next selected current pool ↔ ¬ DeadSelection strategy s selected) := by
  obtain ⟨pool, switched, _, chosen⟩ := switchPools_chosen strategy behind s inv selected
    (fun pool same => (enabled pool same).1) current active member
  refine ⟨_, pool, switched, rfl, ?_⟩
  constructor
  · rintro ⟨_, _, live⟩ ⟨cyclic, any, taken, same, busy, dead⟩
    have here := chosen.shortcut cyclic taken same busy
    have alive : usable s pool = true := live any
    rw [here, dead] at alive
    cases alive
  · intro alive
    refine ⟨fun priority => ?_, fun cyclic unselected => ?_, fun any => ?_⟩
    · rcases chosen.byPriority priority with master | unchanged
      · exact .inl ⟨master.member, master.usable, master.least⟩
      · exact .inr unchanged
    · cases unselected
      exact chosen.cyclic cyclic fun _ never => nomatch never
    · have after := (someUsable_promoted s selected).mpr any
      by_cases priority : ByPriority strategy
      · rcases chosen.byPriority priority with master | ⟨nobody, _⟩
        · exact master.usable
        · exact absurd after nobody
      · by_cases idle : ∀ taken, selected = some taken → (s.status taken).idle = true
        · exact (chosen.cyclic priority idle).live after
        · push Not at idle
          obtain ⟨taken, same, busy⟩ := idle
          rw [ne_eq, Bool.not_eq_true] at busy
          rw [chosen.shortcut priority taken same busy]
          by_contra dead
          exact alive ⟨priority, any, taken, same, busy, Bool.eq_false_iff.mpr dead⟩

/-- Two enabled pools. The second one speaks stratum and is not connected. -/
def twoPools : Pools where
  table := ⟨2, fun pool => ⟨pool, pool, false⟩, [0, 1]⟩
  status := fun pool => ⟨false, .enabled, pool = 1, false, false⟩
  seqRejects := fun _ => 0
  currentpool := some 0
  enabledPools := 2

theorem twoPools_inv : Inv twoPools.table := by
  refine ⟨?_, by decide, by decide, by decide⟩
  intro i pool found
  match i, found with
  | 0, found => exact (Option.some.inj found).symm
  | 1, found => exact (Option.some.inj found).symm

theorem twoPools_enabled (pool : PoolId) (selected : pool ∈ some 1) :
    pool ∈ twoPools.table.pools ∧ (twoPools.status pool).enabled = .enabled := by
  obtain rfl := Option.some.inj selected
  exact ⟨by decide, rfl⟩

theorem live_pool_failover :
    ∃ next pool, switchPools .failover (fun _ => none) twoPools (some 1) = some next ∧
      next.currentpool = some pool ∧
      (LivePool .failover twoPools next (some 1) 0 pool ↔
        ¬ DeadSelection .failover twoPools (some 1)) :=
  live_pool_iff .failover (fun _ => none) twoPools twoPools_inv (some 1) twoPools_enabled 0 rfl
    (by decide)

/-- With rotate, the second pool becomes the current one although only the first
one is usable. -/
theorem dead_pool_chosen :
    ∃ next pool, switchPools .rotate (fun _ => none) twoPools (some 1) = some next ∧
      next.currentpool = some pool ∧
      ¬ LivePool .rotate twoPools next (some 1) 0 pool := by
  obtain ⟨pool, switched, _, chosen⟩ :=
    switchPools_chosen .rotate (fun _ => none) twoPools twoPools_inv (some 1)
    (fun pool same => (twoPools_enabled pool same).1) 0 rfl (by decide)
  refine ⟨_, pool, switched, rfl, fun live => ?_⟩
  have dead : usable twoPools pool = true := live.live ⟨0, by decide, by decide⟩
  rw [chosen.shortcut (fun priority => priority.2 rfl) 1 rfl rfl] at dead
  exact absurd dead (by decide)

end CgminerT4.Guarantees.PoolSwitching
