import CgminerT4.Library.Ranking
import CgminerT4.Library.Runs
import CgminerT4.Source.PoolControl

/-!
# Numbers and priorities of the pools

Every pool in the table has its index as its number, and the priorities rank the
table. A removal closes the gap in both, a switch moves one pool to the front,
and the API command hands the priorities out anew: first to the pools it
mentions, then to the others in their old order. The numbers it has handed out
so far are the places in a list of pools.
-/
namespace CgminerT4.Guarantees.PoolPriorities
open Library.Ranking Library.Runs Library.ByteString
open Source.SessionTable (PoolId PoolTable boostPriorities)
open Source.PoolSwitch (PoolStrategy PoolStatus)
open Source.PoolControl

def prioOf (t : PoolTable) (pool : PoolId) : Nat := (t.pool pool).prio

structure Inv (t : PoolTable) : Prop where
  numbered : ∀ i pool, t.pools[i]? = some pool → (t.pool pool).poolNo = i
  fresh : ∀ pool ∈ t.pools, pool < t.allocated
  ranked : Ranked t.pools (prioOf t)

/-- A pool has one place in the table. -/
theorem Inv.place {t : PoolTable} (inv : Inv t) (i j : Nat) (pool : PoolId)
    (first : t.pools[i]? = some pool) (second : t.pools[j]? = some pool) : i = j :=
  (inv.numbered i pool first).symm.trans (inv.numbered j pool second)

theorem Inv.nodup {t : PoolTable} (inv : Inv t) : t.pools.Nodup := by
  rw [List.nodup_iff_getElem?_ne_getElem?]
  intro i j before inside same
  have found := List.getElem?_eq_getElem inside
  have place := inv.place i j _ (same.trans found) found
  omega

theorem lookup_of_mem {t : PoolTable} (pool : PoolId) (member : pool ∈ t.pools) :
    ∃ i, t.pools[i]? = some pool ∧ i < t.pools.length := by
  obtain ⟨i, inside, found⟩ := List.mem_iff_getElem.mp member
  exact ⟨i, by rw [List.getElem?_eq_getElem inside, found], inside⟩

theorem inside_of_lookup {α : Type*} (l : List α) (i : Nat) (a : α) (found : l[i]? = some a) :
    i < l.length :=
  (List.getElem?_eq_some_iff.mp found).1

/-- Looking up in a list with one more entry. -/
theorem lookup_append {α : Type*} (l : List α) (a b : α) (i : Nat)
    (found : (l ++ [a])[i]? = some b) :
    l[i]? = some b ∨ i = l.length ∧ b = a := by
  by_cases inside : i < l.length
  · rw [List.getElem?_append_left inside] at found
    exact Or.inl found
  · rw [List.getElem?_append_right (by omega)] at found
    obtain ⟨last, same⟩ := List.getElem?_eq_some_iff.mp found
    rw [List.length_singleton] at last
    rw [List.getElem_singleton] at same
    exact Or.inr ⟨by omega, same.symm⟩

/-! ## add_pool and remove_pool -/

theorem addPool_inv (t : PoolTable) (inv : Inv t) : Inv (Source.SessionTable.addPool t) := by
  have kept : ∀ pool ∈ t.pools, (Source.SessionTable.addPool t).pool pool = t.pool pool := by
    intro pool member
    exact Function.update_of_ne (Nat.ne_of_lt (inv.fresh pool member)) _ _
  have added : (Source.SessionTable.addPool t).pool t.allocated =
      ⟨t.pools.length, t.pools.length, false⟩ :=
    Function.update_self _ _ _
  refine ⟨?_, ?_, ?_⟩
  · intro i pool found
    rcases lookup_append t.pools t.allocated pool i found with old | ⟨last, rfl⟩
    · rw [kept pool (List.mem_of_getElem? old)]
      exact inv.numbered i pool old
    · rw [added, last]
  · intro pool member
    show pool < t.allocated + 1
    rcases List.mem_append.mp member with old | new
    · exact Nat.lt_succ_of_lt (inv.fresh pool old)
    · rw [List.mem_singleton.mp new]
      exact Nat.lt_succ_self _
  · have ranked : Ranked t.pools (prioOf (Source.SessionTable.addPool t)) := by
      apply inv.ranked.congr
      intro pool member
      rw [prioOf, prioOf, kept pool member]
    apply ranked.append
    rw [prioOf, added]

theorem boostPriorities_poolNo (t : PoolTable) (removed other : PoolId) :
    (boostPriorities t removed other).poolNo = (t.pool other).poolNo := by
  unfold boostPriorities
  split <;> rfl

theorem boostPriorities_prio (t : PoolTable) (removed other : PoolId) (member : other ∈ t.pools) :
    (boostPriorities t removed other).prio =
      if prioOf t other > prioOf t removed then prioOf t other - 1 else prioOf t other := by
  unfold boostPriorities prioOf
  split
  · next behind => rw [if_pos behind.2]
  · next front => rw [if_neg fun behind => front ⟨member, behind⟩]

/-- What removing a pool does to the table. -/
structure Removed (t next : PoolTable) (removed : PoolId) : Prop where
  allocated : next.allocated = t.allocated
  length : next.pools.length + 1 = t.pools.length
  places : ∀ i pool, next.pools[i]? = some pool →
    pool ∈ t.pools ∧ pool ≠ removed ∧ (next.pool pool).poolNo = i
  prios : ∀ pool, pool ≠ removed → (next.pool pool).prio = (boostPriorities t removed pool).prio

theorem Inv.different {t : PoolTable} (inv : Inv t) (i k : Nat) (pool other : PoolId)
    (first : t.pools[i]? = some pool) (second : t.pools[k]? = some other) (apart : i ≠ k) :
    pool ≠ other := by
  rintro rfl
  exact apart (inv.place i k pool first second)

/-- The last pool moves into the hole at place `k`. -/
theorem removePool_moved (t : PoolTable) (inv : Inv t) (removed last : PoolId) (k : Nat)
    (found : t.pools[k]? = some removed) (atEnd : t.pools[t.pools.length - 1]? = some last)
    (inside : k < t.pools.length - 1) :
    Removed t (Source.SessionTable.removePool t removed) removed := by
  have number : (boostPriorities t removed removed).poolNo = k := by
    rw [boostPriorities_poolNo, inv.numbered k removed found]
  have lastDiffers := inv.different _ k last removed atEnd found (by omega)
  unfold Source.SessionTable.removePool
  dsimp only
  rw [atEnd, number]
  dsimp only
  rw [if_pos inside]
  refine ⟨rfl, ?_, ?_, ?_⟩
  · rw [List.length_take, List.length_set]
    omega
  · intro i pool lookup
    dsimp only at lookup ⊢
    have within := inside_of_lookup _ i pool lookup
    rw [List.length_take, List.length_set] at within
    rw [List.getElem?_take_of_lt (by omega)] at lookup
    by_cases hole : i = k
    · rw [hole, List.getElem?_set_self (by omega)] at lookup
      cases lookup
      refine ⟨List.mem_of_getElem? atEnd, lastDiffers, ?_⟩
      rw [Function.update_of_ne lastDiffers, Function.update_self, hole]
    · rw [List.getElem?_set_ne (fun same => hole same.symm)] at lookup
      have other := inv.different i k pool removed lookup found hole
      have notLast := inv.different i _ pool last lookup atEnd (by omega)
      refine ⟨List.mem_of_getElem? lookup, other, ?_⟩
      rw [Function.update_of_ne other, Function.update_of_ne notLast, boostPriorities_poolNo]
      exact inv.numbered i pool lookup
  · intro pool other
    dsimp only
    rw [Function.update_of_ne other]
    by_cases same : pool = last
    · rw [same, Function.update_self]
    · rw [Function.update_of_ne same]

/-- Nothing moves when the last pool is the removed one. -/
theorem removePool_last (t : PoolTable) (inv : Inv t) (removed : PoolId)
    (found : t.pools[t.pools.length - 1]? = some removed) :
    Removed t (Source.SessionTable.removePool t removed) removed := by
  have inside := inside_of_lookup _ _ removed found
  have number : (boostPriorities t removed removed).poolNo = t.pools.length - 1 := by
    rw [boostPriorities_poolNo, inv.numbered _ removed found]
  unfold Source.SessionTable.removePool
  dsimp only
  rw [found, number]
  dsimp only
  rw [if_neg (Nat.lt_irrefl _)]
  refine ⟨rfl, ?_, ?_, ?_⟩
  · dsimp only
    rw [List.length_take]
    omega
  · intro i pool lookup
    dsimp only at lookup ⊢
    have within := inside_of_lookup _ i pool lookup
    rw [List.length_take] at within
    rw [List.getElem?_take_of_lt (by omega)] at lookup
    have other := inv.different i _ pool removed lookup found (by omega)
    refine ⟨List.mem_of_getElem? lookup, other, ?_⟩
    rw [Function.update_of_ne other, boostPriorities_poolNo]
    exact inv.numbered i pool lookup
  · intro pool other
    exact congrArg _ (Function.update_of_ne other _ _)

theorem removePool_spec (t : PoolTable) (inv : Inv t) (removed : PoolId)
    (member : removed ∈ t.pools) :
    Removed t (Source.SessionTable.removePool t removed) removed := by
  obtain ⟨k, found, inside⟩ := lookup_of_mem removed member
  by_cases last : k = t.pools.length - 1
  · rw [last] at found
    exact removePool_last t inv removed found
  · have atEnd := List.getElem?_eq_getElem (by omega : t.pools.length - 1 < t.pools.length)
    exact removePool_moved t inv removed _ k found atEnd (by omega)

theorem removePool_others (t : PoolTable) (inv : Inv t) (removed : PoolId)
    (member : removed ∈ t.pools) (pool : PoolId)
    (inside : pool ∈ (Source.SessionTable.removePool t removed).pools) :
    pool ∈ t.pools ∧ pool ≠ removed := by
  obtain ⟨i, lookup, _⟩ := lookup_of_mem pool inside
  obtain ⟨before, other, _⟩ := (removePool_spec t inv removed member).places i pool lookup
  exact ⟨before, other⟩

theorem removePool_inv (t : PoolTable) (inv : Inv t) (removed : PoolId)
    (member : removed ∈ t.pools) :
    Inv (Source.SessionTable.removePool t removed) := by
  obtain ⟨allocated, size, places, prios⟩ := removePool_spec t inv removed member
  have others := removePool_others t inv removed member
  refine ⟨?_, ?_, ?_⟩
  · intro i pool lookup
    exact (places i pool lookup).2.2
  · intro pool inside
    rw [allocated]
    exact inv.fresh pool (others pool inside).1
  · have moved := inv.ranked.remove removed member others size
    apply moved.congr
    intro pool inside
    obtain ⟨before, other⟩ := others pool inside
    rw [prioOf, prios pool other]
    exact boostPriorities_prio t removed pool before

/-- The other pools stay in the table. -/
theorem removePool_perm (t : PoolTable) (inv : Inv t) (removed : PoolId)
    (member : removed ∈ t.pools) :
    t.pools.Perm (removed :: (Source.SessionTable.removePool t removed).pools) := by
  have size := (removePool_spec t inv removed member).length
  have others := removePool_others t inv removed member
  have different : (removed :: (Source.SessionTable.removePool t removed).pools).Nodup :=
    List.nodup_cons.mpr ⟨fun inside => (others removed inside).2 rfl,
      (removePool_inv t inv removed member).nodup⟩
  have subset : removed :: (Source.SessionTable.removePool t removed).pools ⊆ t.pools := by
    intro pool inside
    rcases List.mem_cons.mp inside with rfl | rest
    · exact member
    · exact (others pool rest).1
  apply ((List.subperm_of_subset different subset).perm_of_length_le _).symm
  rw [List.length_cons, size]

/-! ## switch_pools -/

theorem moveDown_poolNo (t : PoolTable) (selected other : PoolId) :
    (moveDown t selected other).poolNo = (t.pool other).poolNo := by
  unfold moveDown
  split <;> rfl

theorem moveDown_prio (t : PoolTable) (selected other : PoolId) (member : other ∈ t.pools) :
    (moveDown t selected other).prio =
      if prioOf t other < prioOf t selected then prioOf t other + 1 else prioOf t other := by
  unfold moveDown prioOf
  split
  · next front => rw [if_pos front.2]
  · next behind => rw [if_neg fun front => behind ⟨member, front⟩]

theorem promote_inv (t : PoolTable) (inv : Inv t) (selected : PoolId)
    (member : selected ∈ t.pools) :
    Inv (promote t selected) := by
  unfold promote
  split
  · refine ⟨?_, inv.fresh, ?_⟩
    · intro i pool found
      dsimp only at found ⊢
      by_cases same : pool = selected
      · rw [same] at found ⊢
        rw [Function.update_self, moveDown_poolNo, inv.numbered i selected found]
      · rw [Function.update_of_ne same, moveDown_poolNo, inv.numbered i pool found]
    · apply inv.ranked.promote selected member
      · exact congrArg _ (Function.update_self _ _ _)
      · intro pool inside other
        have moved := moveDown_prio t selected pool inside
        unfold prioOf at moved ⊢
        dsimp only
        rw [Function.update_of_ne other, moved]
  · exact inv

theorem promote_pools (t : PoolTable) (selected : PoolId) :
    (promote t selected).pools = t.pools := by
  unfold promote
  split <;> rfl

/-- What switch_pools leaves in the table. -/
theorem switchPools_table (strategy : PoolStrategy) (behind : Nat → Option PoolId) (s next : Pools)
    (selected : Option PoolId) (switched : switchPools strategy behind s selected = some next) :
    next.table = selected.elim s.table (promote s.table) := by
  obtain ⟨current, _, switched⟩ := Option.bind_eq_some_iff.mp switched
  obtain ⟨pool, _, rfl⟩ := Option.map_eq_some_iff.mp switched
  rfl

/-! ## poolpriority -/

/-- `order` are the pools whose places are marked as changed, in the order they were marked. -/
structure Marked (t : PoolTable) (changed : Nat → Bool) (order : List PoolId) : Prop where
  different : order.Nodup
  inside : ∀ pool ∈ order, pool ∈ t.pools
  members : ∀ i pool, t.pools[i]? = some pool → (changed i = true ↔ pool ∈ order)

theorem Marked.absent {t : PoolTable} {changed : Nat → Bool} {order : List PoolId}
    (marked : Marked t changed order) (i : Nat) (pool : PoolId) (found : t.pools[i]? = some pool)
    (fresh : ¬changed i = true) : pool ∉ order :=
  fun member => fresh ((marked.members i pool found).mpr member)

theorem Marked.next {t : PoolTable} {changed : Nat → Bool} {order : List PoolId} (inv : Inv t)
    (marked : Marked t changed order) (i : Nat) (pool : PoolId) (found : t.pools[i]? = some pool)
    (fresh : ¬changed i = true) : Marked t (Function.update changed i true) (order ++ [pool]) := by
  have absent := marked.absent i pool found fresh
  refine ⟨?_, ?_, ?_⟩
  · rw [List.nodup_append]
    refine ⟨marked.different, List.nodup_singleton _, ?_⟩
    rintro a inside b last rfl
    rw [List.mem_singleton.mp last] at inside
    exact absent inside
  · intro other member
    rcases List.mem_append.mp member with old | new
    · exact marked.inside other old
    · rw [List.mem_singleton.mp new]
      exact List.mem_of_getElem? found
  · intro j other lookup
    by_cases same : j = i
    · rw [same] at lookup ⊢
      rw [found] at lookup
      cases lookup
      rw [Function.update_self]
      exact iff_of_true rfl (List.mem_append_right _ (List.mem_singleton_self _))
    · have differs : other ≠ pool := by
        rintro rfl
        exact same (inv.place j i other lookup found)
      rw [Function.update_of_ne same, marked.members j other lookup, List.mem_append,
        List.mem_singleton]
      exact (or_iff_left differs).symm

/-- The marked pools have got a new priority, the place in `order`; the other
pools still have the one they had in `before`. -/
structure Renumbered (before t : PoolTable) (changed : Nat → Bool) (order : List PoolId) :
    Prop where
  marked : Marked before changed order
  pools : t.pools = before.pools
  allocated : t.allocated = before.allocated
  numbers : ∀ pool, (t.pool pool).poolNo = (before.pool pool).poolNo
  numbered : ∀ i pool, order[i]? = some pool → prioOf t pool = i
  kept : ∀ pool ∈ before.pools, pool ∉ order → prioOf t pool = prioOf before pool

theorem setPrio_spec (t : PoolTable) (i prio : Nat) (pool : PoolId)
    (found : t.pools[i]? = some pool) :
    (setPrio t i prio).pools = t.pools ∧ (setPrio t i prio).allocated = t.allocated ∧
      (∀ other, ((setPrio t i prio).pool other).poolNo = (t.pool other).poolNo) ∧
      prioOf (setPrio t i prio) pool = prio ∧
      ∀ other, other ≠ pool → prioOf (setPrio t i prio) other = prioOf t other := by
  unfold setPrio
  rw [found]
  refine ⟨rfl, rfl, ?_, ?_, ?_⟩
  · intro other
    dsimp only
    by_cases same : other = pool
    · rw [same, Function.update_self]
    · rw [Function.update_of_ne same]
  · exact congrArg _ (Function.update_self _ _ _)
  · intro other differs
    exact congrArg _ (Function.update_of_ne differs _ _)

/-- One more pool gets the next number. -/
theorem Renumbered.next {before t : PoolTable} {changed : Nat → Bool} {order : List PoolId}
    (inv : Inv before) (now : Renumbered before t changed order) (i : Nat) (pool : PoolId)
    (found : before.pools[i]? = some pool) (fresh : ¬changed i = true) :
    Renumbered before (setPrio t i order.length) (Function.update changed i true)
      (order ++ [pool]) := by
  have absent := now.marked.absent i pool found fresh
  obtain ⟨pools, allocated, numbers, stored, others⟩ :=
    setPrio_spec t i order.length pool (now.pools ▸ found)
  refine ⟨now.marked.next inv i pool found fresh, pools.trans now.pools,
    allocated.trans now.allocated, ?_, ?_, ?_⟩
  · intro other
    rw [numbers, now.numbers]
  · intro j other lookup
    rcases lookup_append order pool other j lookup with old | ⟨last, rfl⟩
    · have differs : other ≠ pool := by
        rintro rfl
        exact absent (List.mem_of_getElem? old)
      rw [others other differs, now.numbered j other old]
    · rw [stored, last]
  · intro other member outside
    rw [List.mem_append, List.mem_singleton, not_or] at outside
    rw [others other outside.2, now.kept other member outside.1]

/-- What is read from the parameter: the pools are marked as they are mentioned. -/
structure Mentioned (t : PoolTable) (m : Mentions) (order : List PoolId) : Prop where
  marked : Marked t m.changed order
  count : m.prio = order.length
  numbers : ∀ i pool, t.pools[i]? = some pool → m.changed i = true → order[m.newPrio i]? = some pool

/-- The pools of a list of places. -/
def listedPools (t : PoolTable) (ids : List Int) : List PoolId :=
  ids.map fun id => (t.pools[id.toNat]?).getD 0

theorem mention_spec (t : PoolTable) (inv : Inv t) (ids : List Int) (m result : Mentions)
    (order : List PoolId) (start : Mentioned t m order)
    (read : mention t.pools.length m ids = .ok result) :
    Mentioned t result (order ++ listedPools t ids) := by
  induction ids generalizing m order with
  | nil =>
    cases read
    rw [listedPools, List.map_nil, List.append_nil]
    exact start
  | cons id rest ih =>
    rw [mention] at read
    split at read
    · cases read
    · next valid =>
      split at read
      · cases read
      · next fresh =>
        obtain ⟨pool, found⟩ : ∃ pool, t.pools[id.toNat]? = some pool :=
          ⟨_, List.getElem?_eq_getElem (by omega)⟩
        have listed : listedPools t (id :: rest) = pool :: listedPools t rest := by
          rw [listedPools, List.map_cons, found]
          rfl
        rw [listed, ← List.singleton_append, ← List.append_assoc]
        refine ih _ (order ++ [pool]) ⟨start.marked.next inv _ pool found fresh, ?_, ?_⟩ read
        · rw [List.length_append, start.count]
          rfl
        · intro j other lookup changed
          dsimp only at changed ⊢
          by_cases same : j = id.toNat
          · rw [same] at lookup ⊢
            rw [found] at lookup
            cases lookup
            rw [Function.update_self, start.count]
            exact List.getElem?_concat_length
          · rw [Function.update_of_ne same] at changed ⊢
            have old := start.numbers j other lookup changed
            rw [List.getElem?_append_left (inside_of_lookup _ _ _ old)]
            exact old

/-- The loop that stores the new priorities, round by round. -/
theorem storePriorities_spec (t : PoolTable) (inv : Inv t) (m : Mentions) (rounds : Nat)
    (few : rounds ≤ t.pools.length) :
    (storePriorities t m rounds).pools = t.pools ∧
      (storePriorities t m rounds).allocated = t.allocated ∧
      (∀ pool, ((storePriorities t m rounds).pool pool).poolNo = (t.pool pool).poolNo) ∧
      ∀ i pool, t.pools[i]? = some pool → prioOf (storePriorities t m rounds) pool =
        if i < rounds ∧ m.changed i = true then m.newPrio i else prioOf t pool := by
  induction rounds with
  | zero =>
    refine ⟨rfl, rfl, fun _ => rfl, fun i pool _ => ?_⟩
    rw [if_neg fun both => absurd both.1 (by omega)]
    rfl
  | succ i ih =>
    obtain ⟨pools, allocated, numbers, prios⟩ := ih (by omega)
    obtain ⟨pool, found⟩ : ∃ pool, t.pools[i]? = some pool :=
      ⟨_, List.getElem?_eq_getElem (by omega)⟩
    have differs : ∀ j other, t.pools[j]? = some other → j ≠ i → other ≠ pool := by
      rintro j other lookup apart rfl
      exact apart (inv.place j i other lookup found)
    rw [storePriorities]
    by_cases changed : m.changed i = true
    · obtain ⟨samePools, sameAllocated, sameNumbers, stored, others⟩ :=
        setPrio_spec (storePriorities t m i) i (m.newPrio i) pool (pools ▸ found)
      rw [if_pos changed]
      refine ⟨samePools.trans pools, sameAllocated.trans allocated, fun other => ?_,
        fun j other lookup => ?_⟩
      · rw [sameNumbers, numbers]
      · by_cases same : j = i
        · rw [same] at lookup ⊢
          rw [found] at lookup
          cases lookup
          rw [stored, if_pos ⟨by omega, changed⟩]
        · rw [others other (differs j other lookup same), prios j other lookup]
          by_cases earlier : j < i ∧ m.changed j = true
          · rw [if_pos earlier, if_pos ⟨by omega, earlier.2⟩]
          · rw [if_neg earlier, if_neg fun both => earlier ⟨by omega, both.2⟩]
    · rw [if_neg changed]
      refine ⟨pools, allocated, numbers, fun j other lookup => ?_⟩
      rw [prios j other lookup]
      by_cases earlier : j < i ∧ m.changed j = true
      · rw [if_pos earlier, if_pos ⟨by omega, earlier.2⟩]
      · rw [if_neg earlier, if_neg]
        rintro ⟨before, marked⟩
        by_cases same : j = i
        · rw [same] at marked
          exact changed marked
        · exact earlier ⟨by omega, marked⟩

theorem storePriorities_renumbered (t : PoolTable) (inv : Inv t) (m : Mentions)
    (order : List PoolId) (read : Mentioned t m order) :
    Renumbered t (storePriorities t m t.pools.length) m.changed order := by
  obtain ⟨pools, allocated, numbers, prios⟩ :=
    storePriorities_spec t inv m t.pools.length (Nat.le_refl _)
  refine ⟨read.marked, pools, allocated, numbers, ?_, ?_⟩
  · intro k pool place
    have member := List.mem_of_getElem? place
    obtain ⟨i, found, inside⟩ := lookup_of_mem pool (read.marked.inside pool member)
    have changed := (read.marked.members i pool found).mpr member
    have stored := read.numbers i pool found changed
    rw [prios i pool found, if_pos ⟨inside, changed⟩]
    exact (List.getElem?_inj (inside_of_lookup _ _ _ stored) read.marked.different).mp
      (stored.trans place.symm)
  · intro pool member outside
    obtain ⟨i, found, _⟩ := lookup_of_mem pool member
    rw [prios i pool found, if_neg]
    rintro ⟨_, changed⟩
    exact outside ((read.marked.members i pool found).mp changed)

theorem findUnchanged_some (t : PoolTable) (m : Mentions) (pr i : Nat)
    (hit : findUnchanged t m pr = some i) :
    ¬m.changed i = true ∧ ∃ pool, t.pools[i]? = some pool ∧ prioOf t pool = pr := by
  have test := List.find?_some hit
  rw [Bool.and_eq_true, Bool.not_eq_true', Option.any_eq_true] at test
  obtain ⟨fresh, pool, found, prio⟩ := test
  exact ⟨by rw [fresh]; decide, pool, found, of_decide_eq_true prio⟩

theorem findUnchanged_none (t : PoolTable) (m : Mentions) (pr i : Nat) (pool : PoolId)
    (miss : findUnchanged t m pr = none) (found : t.pools[i]? = some pool)
    (fresh : ¬m.changed i = true) :
    prioOf t pool ≠ pr := by
  intro prio
  have test := List.find?_eq_none.mp miss i (List.mem_range.mpr (inside_of_lookup _ i pool found))
  apply test
  rw [found, Option.any_some, Bool.and_eq_true, Bool.not_eq_true']
  exact ⟨by simpa using fresh, decide_eq_true prio⟩

/-- The pools that the loop has appended, in the order of their old priorities. -/
structure Appended (before t : PoolTable) (m : Mentions) (order rest : List PoolId) (rounds : Nat) :
    Prop where
  renumbered : Renumbered before t m.changed (order ++ rest)
  count : m.prio = (order ++ rest).length
  left : ∀ pool ∈ before.pools, pool ∉ order ++ rest → rounds ≤ prioOf before pool
  done : ∀ pool ∈ rest, prioOf before pool < rounds
  sorted : rest.Pairwise fun a b => prioOf before a < prioOf before b

/-- The loop that appends the unchanged pools: after `rounds` rounds those that
are left have a priority from `rounds` on. -/
theorem appendPriorities_spec (before t : PoolTable) (inv : Inv before) (m : Mentions)
    (order : List PoolId) (start : Renumbered before t m.changed order)
    (count : m.prio = order.length) (rounds : Nat) :
    ∃ rest, Appended before (appendPriorities t m rounds).1
      (appendPriorities t m rounds).2 order rest rounds := by
  induction rounds with
  | zero =>
    refine ⟨[], ?_, ?_, fun _ _ _ => Nat.zero_le _, fun _ never => absurd never List.not_mem_nil,
      List.Pairwise.nil⟩
    · rw [List.append_nil]
      exact start
    · rw [List.append_nil]
      exact count
  | succ pr ih =>
    obtain ⟨rest, now, counted, left, done, sorted⟩ := ih
    rw [appendPriorities]
    generalize appendPriorities t m pr = result at now counted
    obtain ⟨table, marks⟩ := result
    dsimp only at now counted ⊢
    cases hit : findUnchanged table marks pr with
    | some i =>
      obtain ⟨fresh, pool, found, prio⟩ := findUnchanged_some table marks pr i hit
      rw [now.pools] at found
      have absent := now.marked.absent i pool found fresh
      have member := List.mem_of_getElem? found
      have first : prioOf before pool = pr := (now.kept pool member absent).symm.trans prio
      refine ⟨rest ++ [pool], ?_, ?_, ?_, ?_, ?_⟩
      · rw [← List.append_assoc]
        dsimp only
        rw [counted]
        exact now.next inv i pool found fresh
      · rw [← List.append_assoc, List.length_append]
        dsimp only
        rw [counted]
        rfl
      · intro other inside outside
        rw [← List.append_assoc, List.mem_append, List.mem_singleton, not_or] at outside
        have atLeast := left other inside outside.1
        have differs : prioOf before other ≠ pr := fun same =>
          outside.2 (inv.ranked.inj other inside pool member (same.trans first.symm))
        omega
      · intro other inside
        rcases List.mem_append.mp inside with old | new
        · exact Nat.lt_succ_of_lt (done other old)
        · rw [List.mem_singleton.mp new, first]
          exact Nat.lt_succ_self pr
      · rw [List.pairwise_append]
        refine ⟨sorted, List.pairwise_singleton _ _, ?_⟩
        intro a old b last
        rw [List.mem_singleton.mp last, first]
        exact done a old
    | none =>
      refine ⟨rest, now, counted, fun other inside outside => ?_, fun other member => ?_, sorted⟩
      · obtain ⟨i, found, _⟩ := lookup_of_mem other inside
        have fresh : ¬marks.changed i = true := fun changed =>
          outside ((now.marked.members i other found).mp changed)
        have differs := findUnchanged_none table marks pr i other hit (now.pools ▸ found) fresh
        rw [now.kept other inside outside] at differs
        have atLeast := left other inside outside
        omega
      · exact Nat.lt_succ_of_lt (done other member)

/-- The table that poolpriority leaves when it has read `m`. -/
def renumbered (t : PoolTable) (m : Mentions) : PoolTable :=
  (appendPriorities (storePriorities t m t.pools.length) m t.pools.length).1

/-- When the loops are through, every pool has got its place: first the listed
ones, then the others in their old order. -/
theorem renumbered_spec (t : PoolTable) (inv : Inv t) (m : Mentions) (ids : List Int)
    (read : mention t.pools.length { changed := fun _ => false, newPrio := fun _ => 0, prio := 0 }
      ids = .ok m) :
    ∃ rest changed, Renumbered t (renumbered t m) changed (listedPools t ids ++ rest) ∧
      (∀ pool, pool ∈ listedPools t ids ++ rest ↔ pool ∈ t.pools) ∧
      rest.Pairwise fun a b => prioOf t a < prioOf t b := by
  have nothing : Mentioned t { changed := fun _ => false, newPrio := fun _ => 0, prio := 0 } [] :=
    ⟨⟨List.nodup_nil, by simp, by simp⟩, rfl, fun _ _ _ never => by cases never⟩
  have reading := mention_spec t inv ids _ m [] nothing read
  rw [List.nil_append] at reading
  have stored := storePriorities_renumbered t inv m _ reading
  obtain ⟨rest, now, _, left, _, sorted⟩ :=
    appendPriorities_spec t _ inv m _ stored reading.count t.pools.length
  refine ⟨rest, _, now, fun pool => ⟨now.marked.inside pool, fun member => ?_⟩, sorted⟩
  by_contra outside
  have atLeast := left pool member outside
  have below := inv.ranked.bound pool member
  omega

theorem renumbered_inv (t : PoolTable) (inv : Inv t) (m : Mentions) (ids : List Int)
    (read : mention t.pools.length { changed := fun _ => false, newPrio := fun _ => 0, prio := 0 }
      ids = .ok m) :
    Inv (renumbered t m) := by
  obtain ⟨rest, changed, now, all, _⟩ := renumbered_spec t inv m ids read
  refine ⟨?_, ?_, ?_⟩
  · intro i pool found
    rw [now.pools] at found
    rw [now.numbers, inv.numbered i pool found]
  · intro pool member
    rw [now.pools] at member
    rw [now.allocated]
    exact inv.fresh pool member
  · rw [now.pools]
    exact ranked_of_order inv.nodup now.marked.different all now.numbered

theorem poolpriority_inv (strategy : PoolStrategy) (behind : Nat → Option PoolId) (s next : Pools)
    (param : Option Bytes) (reply : Reply) (inv : Inv s.table)
    (called : poolpriority strategy behind s param = some (reply, next)) : Inv next.table := by
  unfold poolpriority at called
  dsimp only at called
  split at called
  · cases called
    exact inv
  · next m read =>
    have table : Inv (renumbered s.table m) := by
      unfold checkParam at read
      split at read
      · cases read
      · split at read
        · cases read
        · cases read
        · exact renumbered_inv s.table inv m _ read
    obtain ⟨current, _, called⟩ := Option.bind_eq_some_iff.mp called
    split at called
    · obtain ⟨switched, done, same⟩ := Option.map_eq_some_iff.mp called
      cases same
      rw [switchPools_table strategy behind _ next none done]
      exact table
    · cases called
      exact table

/-! ## Runs -/

inductive Event where
  | addPool
  | removePool (pool : PoolId)
  | switchPools (selected : Option PoolId)
  | poolpriority (param : Option Bytes)
  /-- Other threads change the flags of a pool or make a first one current. -/
  | status (pool : PoolId) (status : PoolStatus)
  | activate (pool : PoolId)

/-- An event with the strategy and what the array holds behind the pools at that time. -/
structure Moment (ε : Type) where
  event : ε
  strategy : PoolStrategy
  behind : Nat → Option PoolId

def perform (strategy : PoolStrategy) (behind : Nat → Option PoolId) (s : Pools) :
    Event → Option Pools
  | .addPool => some (addPool s)
  | .removePool pool => if pool ∈ s.table.pools then some (removePool s pool) else none
  | .switchPools selected =>
    if ∀ pool ∈ selected, pool ∈ s.table.pools then switchPools strategy behind s selected else none
  | .poolpriority param => (poolpriority strategy behind s param).map Prod.snd
  | .status pool status => some (setStatus s pool status)
  | .activate pool =>
    if pool ∈ s.table.pools then some { s with currentpool := some pool } else none

def step (s : Pools) (m : Moment Event) : Option Pools := perform m.strategy m.behind s m.event

/-- No pools. -/
def start : Pools where
  table := ⟨0, fun _ => ⟨0, 0, false⟩, []⟩
  status := fun _ => zeroedStatus
  seqRejects := fun _ => 0
  currentpool := none
  enabledPools := 0

theorem step_inv (s : Pools) (m : Moment Event) (next : Pools) (inv : Inv s.table)
    (taken : step s m = some next) :
    Inv next.table := by
  obtain ⟨e, strategy, behind⟩ := m
  rw [step] at taken
  dsimp only at taken
  cases e with
  | addPool =>
    cases taken
    exact addPool_inv s.table inv
  | removePool pool =>
    rw [perform] at taken
    split at taken
    · next member =>
      cases taken
      exact removePool_inv s.table inv pool member
    · cases taken
  | switchPools selected =>
    rw [perform] at taken
    split at taken
    · next members =>
      rw [switchPools_table strategy behind s next selected taken]
      cases selected with
      | none => exact inv
      | some pool => exact promote_inv s.table inv pool (members pool rfl)
    · cases taken
  | poolpriority param =>
    obtain ⟨⟨reply, result⟩, called, rfl⟩ := Option.map_eq_some_iff.mp taken
    exact poolpriority_inv strategy behind s result param reply inv called
  | status pool status =>
    cases taken
    exact inv
  | activate pool =>
    rw [perform] at taken
    split at taken
    · cases taken
      exact inv
    · cases taken

/-- Pool `i` has the number `i`, the priorities are the numbers below the number
of pools, and priority_pool finds the pool of each. -/
structure WellNumbered (t : PoolTable) : Prop where
  numbers : ∀ i pool, t.pools[i]? = some pool → (t.pool pool).poolNo = i
  prios : (t.pools.map (prioOf t)).Perm (List.range t.pools.length)
  found : ∀ choice < t.pools.length, ∃ pool,
    t.pools.find? (fun pool => (t.pool pool).prio = choice) = some pool ∧
    priorityPool t choice = some pool

theorem Inv.wellNumbered {t : PoolTable} (inv : Inv t) : WellNumbered t := by
  have perm := inv.ranked.perm inv.nodup
  refine ⟨inv.numbered, perm, fun choice below => ?_⟩
  obtain ⟨pool, member, prio⟩ := List.mem_map.mp (perm.mem_iff.mpr (List.mem_range.mpr below))
  obtain ⟨hit, found⟩ : ∃ hit, t.pools.find? (fun pool => (t.pool pool).prio = choice) = some hit :=
    Option.isSome_iff_exists.mp (List.find?_isSome.mpr ⟨pool, member, decide_eq_true prio⟩)
  refine ⟨hit, found, ?_⟩
  rw [priorityPool, found]
  rfl

theorem pools_well_numbered (es : List (Moment Event)) :
    Always step (fun s => WellNumbered s.table) start es := by
  have inv : Always step (fun s => Inv s.table) start es := by
    apply always_of_invariant step_inv
    exact ⟨by simp [start], by simp [start], by simp [start], by simp [start]⟩
  exact always_mono (fun s inv => inv.wellNumbered) inv

end CgminerT4.Guarantees.PoolPriorities
