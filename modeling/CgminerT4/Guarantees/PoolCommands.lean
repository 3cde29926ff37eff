import CgminerT4.Guarantees.EnabledPools
import CgminerT4.Guarantees.PoolSwitching

/-!
# The API commands on pools

While the current pool is one of the table, every command has a result and the
current pool stays in the table: switch_pools finds a pool of the table, and the
current pool is never the one that is removed.
-/
namespace CgminerT4.Guarantees.PoolCommands
open Library.ByteString
open Source.SessionTable (PoolId PoolTable boostPriorities)
open Source.PoolSwitch (PoolStrategy PoolStatus PoolEnable)
open Source.PoolControl PoolPriorities PoolSwitching
open EnabledPools (namedPool_mem)

/-- The current pool is in the table, and no pool of the table is marked as removed. -/
structure Sound (s : Pools) : Prop where
  table : PoolPriorities.Inv s.table
  current : ∃ pool ∈ s.table.pools, s.currentpool = some pool
  intact : ∀ pool ∈ s.table.pools, (s.table.pool pool).removed = false

/-! ## The marks of removed pools -/

/-- switch_pools moves priorities only. -/
theorem promote_removed (t : PoolTable) (selected other : PoolId) :
    ((promote t selected).pool other).removed = (t.pool other).removed := by
  have moved : ∀ pool, (moveDown t selected pool).removed = (t.pool pool).removed := by
    intro pool
    unfold moveDown
    split <;> rfl
  unfold promote
  split
  · dsimp only
    by_cases same : other = selected
    · rw [same, Function.update_self, moved]
    · rw [Function.update_of_ne same, moved]
  · rfl

/-- poolpriority writes priorities only, in both of its loops. -/
theorem setPrio_removed (t : PoolTable) (i prio : Nat) (other : PoolId) :
    ((setPrio t i prio).pool other).removed = (t.pool other).removed := by
  unfold setPrio
  split
  · rename_i pool _
    dsimp only
    by_cases same : other = pool
    · rw [same, Function.update_self]
    · rw [Function.update_of_ne same]
  · rfl

theorem storePriorities_removed (t : PoolTable) (m : Mentions) (rounds : Nat) (other : PoolId) :
    ((storePriorities t m rounds).pool other).removed = (t.pool other).removed := by
  induction rounds with
  | zero => rfl
  | succ i ih =>
    rw [storePriorities]
    split
    · rw [setPrio_removed, ih]
    · exact ih

theorem appendPriorities_removed (t : PoolTable) (m : Mentions) (rounds : Nat) (other : PoolId) :
    ((appendPriorities t m rounds).1.pool other).removed = (t.pool other).removed := by
  induction rounds with
  | zero => rfl
  | succ pr ih =>
    rw [appendPriorities]
    generalize appendPriorities t m pr = result at ih
    obtain ⟨table, marks⟩ := result
    dsimp only at ih ⊢
    cases findUnchanged table marks pr with
    | some i => exact (setPrio_removed table i marks.prio other).trans ih
    | none => exact ih

/-- remove_pool marks no other pool than the one it removes. -/
theorem removePool_removed (t : PoolTable) (removed other : PoolId) (apart : other ≠ removed) :
    ((Source.SessionTable.removePool t removed).pool other).removed = (t.pool other).removed := by
  have boosted : (boostPriorities t removed other).removed = (t.pool other).removed := by
    unfold boostPriorities
    split <;> rfl
  unfold Source.SessionTable.removePool
  dsimp only
  rw [Function.update_of_ne apart]
  split
  · rename_i last _
    split
    · dsimp only
      by_cases same : other = last
      · rw [same, Function.update_self, ← same]
        exact boosted
      · rw [Function.update_of_ne same]
        exact boosted
    · exact boosted
  · exact boosted

/-! ## Operations on the table -/

variable (strategy : PoolStrategy) (behind : Nat → Option PoolId)

/-- The flag of a pool is no part of what is kept. -/
theorem setEnabled_sound (s : Pools) (sound : Sound s) (pool : PoolId) (flag : PoolEnable) :
    Sound (setEnabled s pool flag) :=
  ⟨sound.table, sound.current, sound.intact⟩

/-- The current pool has a number of the table, so the choice finds a pool there. -/
theorem switchPools_sound (s : Pools) (sound : Sound s) (selected : Option PoolId)
    (members : ∀ pool ∈ selected, pool ∈ s.table.pools) :
    ∃ next, switchPools strategy behind s selected = some next ∧ Sound next := by
  obtain ⟨current, member, active⟩ := sound.current
  obtain ⟨pool, switched, inside, _⟩ :=
    switchPools_chosen strategy behind s sound.table selected members current active member
  refine ⟨_, switched, promoted_inv s selected sound.table members, ⟨pool, ?_, rfl⟩,
    fun other listed => ?_⟩
  · exact (promoted_pools s selected).symm ▸ inside
  · cases selected with
    | none => exact sound.intact other listed
    | some chosen =>
      exact (promote_removed s.table chosen other).trans
        (sound.intact other (promote_pools s.table chosen ▸ listed))

/-- Removing a pool that is not the current one. -/
theorem removePool_sound (s : Pools) (sound : Sound s) (pool : PoolId)
    (member : pool ∈ s.table.pools) (idle : s.currentpool ≠ some pool) :
    Sound (removePool s pool) := by
  obtain ⟨current, inside, active⟩ := sound.current
  have perm := removePool_perm s.table sound.table pool member
  refine ⟨removePool_inv s.table sound.table pool member, ⟨current, ?_, active⟩,
    fun other listed => ?_⟩
  · refine (List.mem_cons.mp (perm.mem_iff.mp inside)).resolve_left ?_
    rintro rfl
    exact idle active
  · obtain ⟨before, apart⟩ := removePool_others s.table sound.table pool member other listed
    exact (removePool_removed s.table pool other apart).trans (sound.intact other before)

/-! ## The commands -/

theorem switchpool_sound (s : Pools) (sound : Sound s) (param : Option Bytes) :
    ∃ reply next, switchpool strategy behind s param = some (reply, next) ∧ Sound next := by
  unfold switchpool
  split
  · exact ⟨_, s, rfl, sound⟩
  · rename_i pool named
    have member := namedPool_mem s param pool named
    obtain ⟨next, switched, after⟩ :=
      switchPools_sound strategy behind _ (setEnabled_sound s sound pool .enabled)
      (some pool) fun other same => by cases same; exact member
    rw [switched]
    exact ⟨_, next, rfl, after⟩

theorem enablepool_sound (s : Pools) (sound : Sound s) (param : Option Bytes) :
    ∃ reply next, enablepool strategy behind s param = some (reply, next) ∧ Sound next := by
  unfold enablepool
  split
  · exact ⟨_, s, rfl, sound⟩
  · rename_i pool named
    split
    · exact ⟨_, s, rfl, sound⟩
    have member := namedPool_mem s param pool named
    have enabled := setEnabled_sound s sound pool .enabled
    obtain ⟨current, _, active⟩ := enabled.current
    dsimp only
    rw [active, Option.bind_some]
    split
    · obtain ⟨next, switched, after⟩ := switchPools_sound strategy behind _ enabled (some pool)
        fun other same => by cases same; exact member
      rw [switched]
      exact ⟨_, next, rfl, after⟩
    · exact ⟨_, _, rfl, enabled⟩

theorem disablepool_sound (s : Pools) (sound : Sound s) (param : Option Bytes) :
    ∃ reply next, disablepool strategy behind s param = some (reply, next) ∧ Sound next := by
  unfold disablepool
  split
  · exact ⟨_, s, rfl, sound⟩
  · rename_i pool named
    split
    · exact ⟨_, s, rfl, sound⟩
    split
    · exact ⟨_, s, rfl, sound⟩
    have disabled := setEnabled_sound s sound pool .disabled
    dsimp only
    split
    · obtain ⟨next, switched, after⟩ :=
        switchPools_sound strategy behind _ disabled none fun other same => nomatch same
      rw [switched]
      exact ⟨_, next, rfl, after⟩
    · exact ⟨_, _, rfl, disabled⟩

/-- The miner is switched away from the pool before it is disabled and removed; while
it stays the current one nothing happens to it. -/
theorem removepool_sound (s : Pools) (sound : Sound s) (param : Option Bytes) :
    ∃ reply next, removepool strategy behind s param = some (reply, next) ∧ Sound next := by
  unfold removepool
  split
  · exact ⟨_, s, rfl, sound⟩
  · rename_i pool named
    split
    · exact ⟨_, s, rfl, sound⟩
    have member := namedPool_mem s param pool named
    have away :
        ∃ next, (if s.currentpool = some pool then switchPools strategy behind s none else some s) =
        some next ∧
        Sound next ∧ pool ∈ next.table.pools := by
      split
      · obtain ⟨next, switched, after⟩ :=
          switchPools_sound strategy behind s sound none fun other same => nomatch same
        rw [switched]
        refine ⟨next, rfl, after, ?_⟩
        rw [switchPools_table strategy behind s next none switched]
        exact member
      · exact ⟨s, rfl, sound, member⟩
    obtain ⟨next, switched, after, inside⟩ := away
    rw [switched, Option.map_some]
    split
    · exact ⟨_, next, rfl, after⟩
    · rename_i idle
      exact ⟨_, _, rfl, removePool_sound _ (setEnabled_sound next after pool .disabled)
        pool inside idle⟩

/-- The priorities change, the table and its current pool stay. -/
theorem renumbered_sound (s : Pools) (sound : Sound s) (m : Mentions) (ids : List Int)
    (read : mention s.table.pools.length
      { changed := fun _ => false, newPrio := fun _ => 0, prio := 0 } ids = .ok m) :
    Sound { s with table := renumbered s.table m } := by
  obtain ⟨rest, changed, now, _, _⟩ := renumbered_spec s.table sound.table m ids read
  obtain ⟨current, member, active⟩ := sound.current
  refine ⟨renumbered_inv s.table sound.table m ids read, ⟨current, ?_, active⟩,
    fun pool listed => ?_⟩
  · rw [now.pools]
    exact member
  · dsimp only at listed ⊢
    rw [now.pools] at listed
    unfold renumbered
    rw [appendPriorities_removed, storePriorities_removed]
    exact sound.intact pool listed

theorem poolpriority_sound (s : Pools) (sound : Sound s) (param : Option Bytes) :
    ∃ reply next, poolpriority strategy behind s param = some (reply, next) ∧ Sound next := by
  unfold poolpriority
  dsimp only
  split
  · exact ⟨_, s, rfl, sound⟩
  · rename_i m read
    have after : Sound { s with table := renumbered s.table m } := by
      unfold checkParam at read
      split at read
      · cases read
      · split at read
        · cases read
        · cases read
        · exact renumbered_sound s sound m _ read
    obtain ⟨current, _, active⟩ := sound.current
    rw [active] at after
    rw [active, Option.bind_some]
    split
    · obtain ⟨next, switched, last⟩ :=
        switchPools_sound strategy behind _ after none fun other same => nomatch same
      refine ⟨.priorities, next, ?_, last⟩
      exact Option.map_eq_some_iff.mpr ⟨next, switched, rfl⟩
    · exact ⟨_, _, rfl, after⟩

/-- Neither add_pool_details nor enable_pool touches the table behind add_pool. -/
theorem addpool_table (s : Pools) (hasStratum : Bool) :
    (addpool s hasStratum).table = Source.SessionTable.addPool s.table ∧
      (addpool s hasStratum).currentpool = s.currentpool := by
  unfold addpool addPoolDetails enablePool
  dsimp only
  split <;> exact ⟨rfl, rfl⟩

theorem addpool_sound (s : Pools) (sound : Sound s) (hasStratum : Bool) :
    Sound (addpool s hasStratum) := by
  obtain ⟨table, active⟩ := addpool_table s hasStratum
  obtain ⟨current, member, here⟩ := sound.current
  refine ⟨?_, ⟨current, ?_, active.trans here⟩, fun pool listed => ?_⟩
  · rw [table]
    exact addPool_inv s.table sound.table
  · rw [table]
    exact List.mem_append_left _ member
  · rw [table] at listed ⊢
    show (Function.update s.table.pool s.table.allocated _ pool).removed = false
    rcases List.mem_append.mp listed with old | new
    · rw [Function.update_of_ne (Nat.ne_of_lt (sound.table.fresh pool old))]
      exact sound.intact pool old
    · rw [List.mem_singleton.mp new, Function.update_self]

end CgminerT4.Guarantees.PoolCommands
