import CgminerT4.Guarantees.PoolPriorities

/-!
# The counter of enabled pools

The functions of cgminer.c change a pool's flag and the counter together; the
API commands change only the flag. The two agree in exactly the runs in which no
command changes the flag of an enabled pool or enables one, and no removed pool
is enabled again by a share.
-/
namespace CgminerT4.Guarantees.EnabledPools
open Library.Runs Library.ByteString
open Source.SessionTable (PoolId)
open Source.PoolSwitch (PoolStrategy PoolEnable PoolStatus)
open Source.PoolControl PoolPriorities

def isEnabled (s : Pools) (pool : PoolId) : Prop := (s.status pool).enabled = .enabled

instance (s : Pools) (pool : PoolId) : Decidable (isEnabled s pool) :=
  inferInstanceAs (Decidable ((s.status pool).enabled = .enabled))

/-- The enabled pools of the table. -/
def enabledCount (s : Pools) : Nat := s.table.pools.countP fun pool => isEnabled s pool

structure Counted (s : Pools) : Prop where
  counter : s.enabledPools = enabledCount s
  active : 1 ≤ enabledCount s

/-- Pools outside the table are not enabled. -/
structure Inv (s : Pools) : Prop where
  table : PoolPriorities.Inv s.table
  listed : ∀ pool, isEnabled s pool → pool ∈ s.table.pools

/-! ## Flags -/

theorem isEnabled_setEnabled (s : Pools) (pool other : PoolId) (flag : PoolEnable) :
    isEnabled (setEnabled s pool flag) other ↔
      if other = pool then flag = .enabled else isEnabled s other := by
  unfold isEnabled setEnabled setStatus
  dsimp only
  by_cases same : other = pool
  · rw [if_pos same, same, Function.update_self]
  · rw [if_neg same, Function.update_of_ne same]

theorem countP_other (s : Pools) (pool : PoolId) (flag : PoolEnable) (l : List PoolId)
    (absent : pool ∉ l) :
    (l.countP fun other => isEnabled (setEnabled s pool flag) other) = l.countP fun other =>
      isEnabled s other := by
  apply List.countP_congr
  intro other member
  have differs : other ≠ pool := by
    rintro rfl
    exact absent member
  rw [decide_eq_true_iff, decide_eq_true_iff, isEnabled_setEnabled, if_neg differs]

/-- One flag of the table. -/
theorem enabledCount_set (s : Pools) (pool : PoolId) (flag : PoolEnable)
    (nodup : s.table.pools.Nodup) (member : pool ∈ s.table.pools) :
    enabledCount (setEnabled s pool flag) + (if isEnabled s pool then 1 else 0) =
      enabledCount s + if flag = .enabled then 1 else 0 := by
  obtain ⟨front, back, parts⟩ := List.append_of_mem member
  have absent : pool ∉ front ++ back := by
    rw [parts] at nodup
    have moved := List.nodup_middle.mp nodup
    exact (List.nodup_cons.mp moved).1
  rw [List.mem_append, not_or] at absent
  have table : (setEnabled s pool flag).table = s.table := rfl
  unfold enabledCount
  rw [table, parts, List.countP_append, List.countP_append, List.countP_cons, List.countP_cons,
    countP_other s pool flag front absent.1, countP_other s pool flag back absent.2]
  simp only [decide_eq_true_iff, isEnabled_setEnabled, if_pos]
  omega

/-! ## Operations that leave the flags alone -/

structure SameFlags (s next : Pools) : Prop where
  flags : ∀ pool, isEnabled next pool ↔ isEnabled s pool
  enabledPools : next.enabledPools = s.enabledPools
  pools : next.table.pools = s.table.pools

theorem SameFlags.count {s next : Pools} (same : SameFlags s next) :
    enabledCount next = enabledCount s := by
  unfold enabledCount
  rw [same.pools]
  apply List.countP_congr
  intro pool _
  rw [decide_eq_true_iff, decide_eq_true_iff, same.flags]

theorem SameFlags.counted {s next : Pools} (same : SameFlags s next) :
    Counted next ↔ Counted s := by
  constructor
  · rintro ⟨counter, active⟩
    rw [same.enabledPools, same.count] at counter
    rw [same.count] at active
    exact ⟨counter, active⟩
  · rintro ⟨counter, active⟩
    refine ⟨?_, ?_⟩
    · rw [same.enabledPools, same.count, counter]
    · rw [same.count]
      exact active

theorem SameFlags.inv {s next : Pools} (same : SameFlags s next)
    (table : PoolPriorities.Inv next.table) (inv : Inv s) : Inv next := by
  refine ⟨table, fun pool enabled => ?_⟩
  rw [same.pools]
  exact inv.listed pool ((same.flags pool).mp enabled)

variable (strategy : PoolStrategy) (behind : Nat → Option PoolId)

theorem switchPools_flags (s next : Pools) (selected : Option PoolId)
    (switched : switchPools strategy behind s selected = some next) : SameFlags s next := by
  obtain ⟨current, _, switched⟩ := Option.bind_eq_some_iff.mp switched
  obtain ⟨pool, _, rfl⟩ := Option.map_eq_some_iff.mp switched
  refine ⟨fun _ => Iff.rfl, rfl, ?_⟩
  cases selected with
  | none => rfl
  | some pool => exact promote_pools s.table pool

theorem switchPools_inv (s next : Pools) (selected : Option PoolId)
    (inv : PoolPriorities.Inv s.table) (members : ∀ pool ∈ selected, pool ∈ s.table.pools)
    (switched : switchPools strategy behind s selected = some next) :
    PoolPriorities.Inv next.table := by
  rw [switchPools_table strategy behind s next selected switched]
  cases selected with
  | none => exact inv
  | some pool => exact promote_inv s.table inv pool (members pool rfl)

theorem sameFlags_refl (s : Pools) : SameFlags s s := ⟨fun _ => Iff.rfl, rfl, rfl⟩

theorem switchPools_away (s next : Pools) (inv : PoolPriorities.Inv s.table)
    (switched : switchPools strategy behind s none = some next) :
    SameFlags s next ∧ PoolPriorities.Inv next.table := by
  constructor
  · exact switchPools_flags strategy behind s next none switched
  · exact switchPools_inv strategy behind s next none inv (fun _ never => by cases never) switched

theorem switchPools_to (s next : Pools) (pool : PoolId) (inv : PoolPriorities.Inv s.table)
    (member : pool ∈ s.table.pools)
    (switched : switchPools strategy behind s (some pool) = some next) :
    SameFlags s next ∧ PoolPriorities.Inv next.table := by
  constructor
  · exact switchPools_flags strategy behind s next (some pool) switched
  · exact switchPools_inv strategy behind s next (some pool) inv
      (fun _ same => by cases same; exact member) switched

/-- The callers switch only when the pool was the current one. -/
theorem switchPools_if (s next : Pools) (current : Prop) [Decidable current]
    (inv : PoolPriorities.Inv s.table)
    (done : (if current then switchPools strategy behind s none else some s) = some next) :
    SameFlags s next ∧ PoolPriorities.Inv next.table := by
  split at done
  · exact switchPools_away strategy behind s next inv done
  · cases done
    exact ⟨sameFlags_refl s, inv⟩

/-- The commands act on a pool of the table. -/
theorem namedPool_mem (s : Pools) (param : Option Bytes) (pool : PoolId)
    (named : namedPool s param = .ok pool) : pool ∈ s.table.pools := by
  unfold namedPool at named
  cases checked : checkParam s param with
  | error reply =>
    rw [checked] at named
    cases named
  | ok text =>
    rw [checked] at named
    dsimp only [Except.bind] at named
    split at named
    · cases named
    · split at named
      · next found =>
        cases named
        exact List.mem_of_getElem? found
      · cases named

/-! ## Runs -/

inductive Event where
  | addpool (hasStratum : Bool)
  | switchpool (param : Option Bytes)
  | enablepool (param : Option Bytes)
  | disablepool (param : Option Bytes)
  | removepool (param : Option Bytes)
  | shareResult (optDisablePool : Bool) (r : ShareResult)
  /-- Other threads change the other flags of a pool, or switch. -/
  | status (pool : PoolId) (idle hasStratum stratumActive stratumNotify : Bool)
  | switchPools

def perform (s : Pools) : Event → Option Pools
  | .addpool hasStratum => some (addpool s hasStratum)
  | .switchpool param => (switchpool strategy behind s param).map Prod.snd
  | .enablepool param => (enablepool strategy behind s param).map Prod.snd
  | .disablepool param => (disablepool strategy behind s param).map Prod.snd
  | .removepool param => (removepool strategy behind s param).map Prod.snd
  | .shareResult optDisablePool r =>
    if r.pool < s.table.allocated then shareResult strategy behind optDisablePool s r else none
  | .status pool idle hasStratum stratumActive stratumNotify =>
    some (setStatus s pool { s.status pool with idle, hasStratum, stratumActive, stratumNotify })
  | .switchPools => switchPools strategy behind s none

/-- One enabled pool, which is the current one. -/
def start : Pools where
  table := ⟨1, fun _ => ⟨0, 0, false⟩, [0]⟩
  status := Function.update (fun _ => zeroedStatus) 0 { zeroedStatus with enabled := .enabled }
  seqRejects := fun _ => 0
  currentpool := some 0
  enabledPools := 1

/-- switch_pools would stay on this pool. -/
def Keeps (s : Pools) (pool : PoolId) : Prop :=
  s.currentpool = some pool ∧ ∀ next, switchPools strategy behind s none = some next →
    next.currentpool = some pool

/-- No command changes whether a pool is enabled, and shares enable pools of the
table only. -/
def LeavesFlags (s : Pools) : Event → Prop
  | .switchpool param | .enablepool param => ∀ pool, namedPool s param = .ok pool → isEnabled s pool
  | .disablepool param =>
    ∀ pool, namedPool s param = .ok pool → isEnabled s pool → s.enabledPools ≤ 1
  | .removepool param => ∀ pool, namedPool s param = .ok pool → isEnabled s pool →
      totalPools s ≤ 1 ∨ Keeps strategy behind s pool
  | .shareResult _ r =>
    r.accepted = true → r.finished = false → (s.status r.pool).enabled = .rejecting →
      r.pool ∈ s.table.pools
  | .addpool _ | .status .. | .switchPools => True

def step (s : Pools) (m : Moment Event) : Option Pools := perform m.strategy m.behind s m.event

/-- The guard, under the strategy and the array of the moment. -/
def Leaves (s : Pools) (m : Moment Event) : Prop := LeavesFlags m.strategy m.behind s m.event

/-! ## Steps -/

/-- A step meets its guard exactly if it keeps the count, and then it keeps the
invariant. -/
structure Exact (next : Pools) (guard : Prop) : Prop where
  counted : Counted next ↔ guard
  inv : guard → Inv next

theorem exact_of_same {s next : Pools} {guard : Prop} (same : SameFlags s next)
    (table : PoolPriorities.Inv next.table) (inv : Inv s) (counted : Counted s) (meets : guard) :
    Exact next guard :=
  ⟨iff_of_true (same.counted.mpr counted) meets, fun _ => same.inv table inv⟩

theorem setEnabled_inv (s : Pools) (pool : PoolId) (flag : PoolEnable) (inv : Inv s)
    (member : pool ∈ s.table.pools) :
    Inv (setEnabled s pool flag) := by
  refine ⟨inv.table, fun other enabled => ?_⟩
  rw [isEnabled_setEnabled] at enabled
  split at enabled
  · next same =>
    rw [same]
    exact member
  · exact inv.listed other enabled

/-- Enabling a pool without the counter. -/
theorem enabled_exact (s next : Pools) (pool : PoolId) (inv : Inv s) (counted : Counted s)
    (member : pool ∈ s.table.pools) (same : SameFlags (setEnabled s pool .enabled) next) :
    Counted next ↔ isEnabled s pool := by
  have sum := enabledCount_set s pool .enabled inv.table.nodup member
  have counter := counted.counter
  have active := counted.active
  rw [if_pos rfl] at sum
  rw [same.counted]
  constructor
  · rintro ⟨after, _⟩
    by_contra disabled
    rw [if_neg disabled] at sum
    have kept : (setEnabled s pool .enabled).enabledPools = s.enabledPools := rfl
    omega
  · intro enabled
    rw [if_pos enabled] at sum
    have kept : (setEnabled s pool .enabled).enabledPools = s.enabledPools := rfl
    exact ⟨by omega, by omega⟩

/-- Disabling a pool without the counter. -/
theorem disabled_exact (s next : Pools) (pool : PoolId) (inv : Inv s) (counted : Counted s)
    (member : pool ∈ s.table.pools)
    (same : enabledCount next = enabledCount (setEnabled s pool .disabled))
    (kept : next.enabledPools = s.enabledPools) : Counted next ↔ ¬isEnabled s pool := by
  have sum := enabledCount_set s pool .disabled inv.table.nodup member
  have counter := counted.counter
  have active := counted.active
  rw [if_neg (by decide : PoolEnable.disabled ≠ .enabled)] at sum
  constructor
  · rintro ⟨after, _⟩ enabled
    rw [if_pos enabled] at sum
    omega
  · intro disabled
    rw [if_neg disabled] at sum
    exact ⟨by omega, by omega⟩

/-- The guard of a command is about the one pool it names. -/
theorem forall_named (s : Pools) (param : Option Bytes) (pool : PoolId)
    (named : namedPool s param = .ok pool) (guard : PoolId → Prop) :
    (∀ other, namedPool s param = .ok other → guard other) ↔ guard pool := by
  constructor
  · exact fun all => all pool named
  · intro holds other same
    rw [named] at same
    cases same
    exact holds

/-- A command that names no pool. -/
theorem unnamed_exact (s : Pools) (param : Option Bytes) (reply : Reply) (inv : Inv s)
    (counted : Counted s) (unnamed : namedPool s param = .error reply) (guard : PoolId → Prop) :
    Exact s (∀ pool, namedPool s param = .ok pool → guard pool) := by
  refine exact_of_same (sameFlags_refl s) inv.table inv counted fun pool same => ?_
  rw [unnamed] at same
  cases same

theorem switchpool_exact (s next : Pools) (param : Option Bytes) (reply : Reply) (inv : Inv s)
    (counted : Counted s) (called : switchpool strategy behind s param = some (reply, next)) :
    Exact next (∀ pool, namedPool s param = .ok pool → isEnabled s pool) := by
  unfold switchpool at called
  split at called
  · next unnamed =>
    cases called
    exact unnamed_exact s param reply inv counted unnamed _
  · next pool named =>
    have member := namedPool_mem s param pool named
    obtain ⟨switched, done, same⟩ := Option.map_eq_some_iff.mp called
    cases same
    have after := setEnabled_inv s pool .enabled inv member
    obtain ⟨flags, table⟩ := switchPools_to strategy behind _ next pool after.table member done
    constructor
    · rw [forall_named s param pool named]
      exact enabled_exact s next pool inv counted member flags
    · exact fun _ => flags.inv table after

theorem enablepool_exact (s next : Pools) (param : Option Bytes) (reply : Reply) (inv : Inv s)
    (counted : Counted s) (called : enablepool strategy behind s param = some (reply, next)) :
    Exact next (∀ pool, namedPool s param = .ok pool → isEnabled s pool) := by
  unfold enablepool at called
  split at called
  · next unnamed =>
    cases called
    exact unnamed_exact s param reply inv counted unnamed _
  · next pool named =>
    have member := namedPool_mem s param pool named
    split at called
    · next enabled =>
      cases called
      exact exact_of_same (sameFlags_refl s) inv.table inv counted
        ((forall_named s param pool named _).mpr enabled)
    · obtain ⟨current, _, called⟩ := Option.bind_eq_some_iff.mp called
      have after := setEnabled_inv s pool .enabled inv member
      have result : SameFlags (setEnabled s pool .enabled) next ∧
          PoolPriorities.Inv next.table := by
        split at called
        · obtain ⟨switched, done, same⟩ := Option.map_eq_some_iff.mp called
          cases same
          exact switchPools_to strategy behind _ next pool after.table member done
        · cases called
          exact ⟨sameFlags_refl _, inv.table⟩
      constructor
      · rw [forall_named s param pool named]
        exact enabled_exact s next pool inv counted member result.1
      · exact fun _ => result.1.inv result.2 after

theorem disablepool_exact (s next : Pools) (param : Option Bytes) (reply : Reply) (inv : Inv s)
    (counted : Counted s) (called : disablepool strategy behind s param = some (reply, next)) :
    Exact next (∀ pool, namedPool s param = .ok pool → isEnabled s pool → s.enabledPools ≤ 1) := by
  unfold disablepool at called
  split at called
  · next unnamed =>
    cases called
    exact unnamed_exact s param reply inv counted unnamed _
  · next pool named =>
    have member := namedPool_mem s param pool named
    split at called
    · next disabled =>
      cases called
      refine exact_of_same (sameFlags_refl s) inv.table inv counted
        ((forall_named s param pool named _).mpr ?_)
      intro enabled
      rw [isEnabled, disabled] at enabled
      cases enabled
    · split at called
      · next last =>
        cases called
        exact exact_of_same (sameFlags_refl s) inv.table inv counted
          ((forall_named s param pool named _).mpr fun _ => last)
      · next several =>
        have after := setEnabled_inv s pool .disabled inv member
        have result : SameFlags (setEnabled s pool .disabled) next ∧
            PoolPriorities.Inv next.table := by
          dsimp only at called
          split at called
          · obtain ⟨switched, done, same⟩ := Option.map_eq_some_iff.mp called
            cases same
            exact switchPools_away strategy behind _ next after.table done
          · cases called
            exact ⟨sameFlags_refl _, inv.table⟩
        constructor
        · rw [forall_named s param pool named, imp_iff_not several]
          exact disabled_exact s next pool inv counted member result.1.count result.1.enabledPools
        · exact fun _ => result.1.inv result.2 after

/-- A disabled pool leaves the table. -/
theorem removePool_count (s : Pools) (pool : PoolId) (inv : Inv s) (member : pool ∈ s.table.pools) :
    enabledCount (removePool (setEnabled s pool .disabled) pool) =
      enabledCount (setEnabled s pool .disabled) := by
  have perm := removePool_perm s.table inv.table pool member
  have disabled : ¬isEnabled (setEnabled s pool .disabled) pool := by
    rw [isEnabled_setEnabled, if_pos rfl]
    decide
  have counts := perm.countP_eq fun other => isEnabled (setEnabled s pool .disabled) other
  rw [List.countP_cons_of_neg (by rwa [decide_eq_true_iff])] at counts
  exact counts.symm

theorem removePool_listed (s : Pools) (pool : PoolId) (inv : Inv s)
    (member : pool ∈ s.table.pools) :
    Inv (removePool (setEnabled s pool .disabled) pool) := by
  refine ⟨removePool_inv s.table inv.table pool member, fun other enabled => ?_⟩
  have flags := (isEnabled_setEnabled s pool other .disabled).mp enabled
  split at flags
  · cases flags
  · next differs =>
    have inside :=
      (removePool_perm s.table inv.table pool member).mem_iff.mp (inv.listed other flags)
    exact (List.mem_cons.mp inside).resolve_left differs

theorem removepool_exact (s next : Pools) (param : Option Bytes) (reply : Reply) (inv : Inv s)
    (counted : Counted s) (called : removepool strategy behind s param = some (reply, next)) :
    Exact next (∀ pool, namedPool s param = .ok pool → isEnabled s pool →
      totalPools s ≤ 1 ∨ Keeps strategy behind s pool) := by
  unfold removepool at called
  split at called
  · next unnamed =>
    cases called
    exact unnamed_exact s param reply inv counted unnamed _
  · next pool named =>
    have member := namedPool_mem s param pool named
    split at called
    · next last =>
      cases called
      exact exact_of_same (sameFlags_refl s) inv.table inv counted
        ((forall_named s param pool named _).mpr fun _ => Or.inl last)
    · next several =>
      obtain ⟨switched, done, result⟩ := Option.map_eq_some_iff.mp called
      have flags := switchPools_if strategy behind s switched _ inv.table done
      have after := flags.1.inv flags.2 inv
      -- the pool is still the current one exactly when switch_pools stays on it
      have keeps : switched.currentpool = some pool ↔ Keeps strategy behind s pool := by
        split at done
        · next current =>
          constructor
          · intro stays
            refine ⟨current, fun other same => ?_⟩
            rw [done] at same
            cases same
            exact stays
          · exact fun keeps => keeps.2 switched done
        · next other =>
          cases done
          exact iff_of_false other fun keeps => other keeps.1
      split at result
      · next active =>
        cases result
        exact exact_of_same flags.1 flags.2 inv counted
          ((forall_named s param pool named _).mpr fun _ => Or.inr (keeps.mp active))
      · next inactive =>
        cases result
        have inside : pool ∈ switched.table.pools := flags.1.pools ▸ member
        constructor
        · rw [forall_named s param pool named, ← flags.1.flags pool, or_iff_right several, ← keeps,
            imp_iff_not inactive]
          exact disabled_exact switched _ pool after (flags.1.counted.mpr counted) inside
            (removePool_count switched pool after inside) rfl
        · exact fun _ => removePool_listed switched pool after inside

/-! ## Additions and shares -/

theorem isEnabled_setStatus (s : Pools) (pool other : PoolId) (status : PoolStatus)
    (same : status.enabled = (s.status pool).enabled) :
    isEnabled (setStatus s pool status) other ↔ isEnabled s other := by
  unfold isEnabled setStatus
  dsimp only
  by_cases equal : other = pool
  · rw [equal, Function.update_self, same]
  · rw [Function.update_of_ne equal]

theorem addpool_spec (s : Pools) (hasStratum : Bool) :
    (addpool s hasStratum).table = Source.SessionTable.addPool s.table ∧
    (addpool s hasStratum).enabledPools = s.enabledPools + 1 ∧
    ∀ pool, isEnabled (addpool s hasStratum) pool ↔
      pool = s.table.allocated ∨ isEnabled s pool := by
  have fresh : ((addPool s).status s.table.allocated).enabled = .disabled :=
    congrArg _ (Function.update_self _ _ _)
  unfold addpool addPoolDetails enablePool
  dsimp only
  rw [if_pos (by simp [setStatus, fresh])]
  refine ⟨rfl, rfl, fun pool => ?_⟩
  unfold isEnabled setEnabled setStatus addPool setStatus
  dsimp only
  by_cases same : pool = s.table.allocated
  · simp [same]
  · simp [same]

theorem addpool_exact (s : Pools) (hasStratum : Bool) (inv : Inv s) (counted : Counted s) :
    Exact (addpool s hasStratum) True := by
  obtain ⟨table, counter, flags⟩ := addpool_spec s hasStratum
  have absent : s.table.allocated ∉ s.table.pools :=
    fun member => Nat.lt_irrefl _ (inv.table.fresh _ member)
  have count : enabledCount (addpool s hasStratum) = enabledCount s + 1 := by
    have old : (s.table.pools.countP fun pool => isEnabled (addpool s hasStratum) pool) =
        enabledCount s := by
      apply List.countP_congr
      intro pool member
      have differs : pool ≠ s.table.allocated := by
        rintro rfl
        exact absent member
      rw [decide_eq_true_iff, decide_eq_true_iff, flags, or_iff_right differs]
    have new : isEnabled (addpool s hasStratum) s.table.allocated := (flags _).mpr (Or.inl rfl)
    unfold enabledCount
    rw [table]
    show (s.table.pools ++ [s.table.allocated]).countP _ = _
    rw [List.countP_append, old, List.countP_singleton, if_pos (decide_eq_true new)]
    rfl
  have before := counted.counter
  refine ⟨iff_of_true ⟨by omega, by omega⟩ trivial, fun _ => ⟨?_, fun pool enabled => ?_⟩⟩
  · rw [table]
    exact addPool_inv s.table inv.table
  · rw [table]
    rcases (flags pool).mp enabled with rfl | old
    · exact List.mem_append_right _ (List.mem_singleton_self _)
    · exact List.mem_append_left _ (inv.listed pool old)

/-- A rejecting pool is enabled with the counter, which counts it rightly if it
is in the table. -/
theorem enablePool_exact (s : Pools) (pool : PoolId) (inv : Inv s) (counted : Counted s)
    (rejecting : (s.status pool).enabled = .rejecting) :
    Exact (enablePool s pool) (pool ∈ s.table.pools) := by
  have disabled : ¬isEnabled s pool := by
    rw [isEnabled, rejecting]
    decide
  have before := counted.counter
  have active := counted.active
  have enables : enablePool s pool =
      { setEnabled s pool .enabled with enabledPools := s.enabledPools + 1 } :=
    if_pos disabled
  have counter : (enablePool s pool).enabledPools = s.enabledPools + 1 := by rw [enables]
  have count : enabledCount (enablePool s pool) = enabledCount (setEnabled s pool .enabled) := by
    rw [enables]; rfl
  constructor
  · constructor
    · rintro ⟨after, _⟩
      by_contra absent
      have kept : enabledCount (setEnabled s pool .enabled) = enabledCount s :=
        countP_other s pool .enabled s.table.pools absent
      omega
    · intro member
      have sum := enabledCount_set s pool .enabled inv.table.nodup member
      rw [if_neg disabled, if_pos rfl] at sum
      exact ⟨by omega, by omega⟩
  · intro member
    have after := setEnabled_inv s pool .enabled inv member
    rw [enables]
    exact ⟨after.table, after.listed⟩

/-- Rejecting a pool never disables the last one. -/
theorem rejectPool_exact (s : Pools) (pool : PoolId) (inv : Inv s) (counted : Counted s)
    (several : s.enabledPools > 1) : Exact (rejectPool s pool) True := by
  have before := counted.counter
  have count : enabledCount (rejectPool s pool) = enabledCount (setEnabled s pool .rejecting) := rfl
  have flags : ∀ other, isEnabled (rejectPool s pool) other → isEnabled s other := by
    intro other enabled
    have flag := (isEnabled_setEnabled s pool other .rejecting).mp enabled
    split at flag
    · cases flag
    · exact flag
  refine ⟨iff_of_true ?_ trivial,
    fun _ => ⟨inv.table, fun other enabled => inv.listed other (flags other enabled)⟩⟩
  by_cases enabled : isEnabled s pool
  · have sum := enabledCount_set s pool .rejecting inv.table.nodup (inv.listed pool enabled)
    have counter : (rejectPool s pool).enabledPools = s.enabledPools - 1 := if_pos enabled
    rw [if_pos enabled, if_neg (by decide : PoolEnable.rejecting ≠ .enabled)] at sum
    exact ⟨by omega, by omega⟩
  · have counter : (rejectPool s pool).enabledPools = s.enabledPools := if_neg enabled
    have kept : enabledCount (setEnabled s pool .rejecting) = enabledCount s := by
      unfold enabledCount
      apply List.countP_congr
      intro other _
      rw [decide_eq_true_iff, decide_eq_true_iff, isEnabled_setEnabled]
      split
      · next same =>
        rw [same]
        exact iff_of_false (by decide) enabled
      · exact Iff.rfl
    have active := counted.active
    exact ⟨by omega, by omega⟩

theorem Exact.same {s next : Pools} {guard : Prop} (exact_step : Exact s guard)
    (same : SameFlags s next) (table : PoolPriorities.Inv s.table → PoolPriorities.Inv next.table) :
    Exact next guard := by
  refine ⟨same.counted.trans exact_step.counted, fun meets => ?_⟩
  have inv := exact_step.inv meets
  exact same.inv (table inv.table) inv

theorem shareResult_exact (s next : Pools) (optDisablePool : Bool) (r : ShareResult) (inv : Inv s)
    (counted : Counted s) (done : shareResult strategy behind optDisablePool s r = some next) :
    Exact next (r.accepted = true → r.finished = false → (s.status r.pool).enabled = .rejecting →
      r.pool ∈ s.table.pools) := by
  have noted : ∀ seqRejects, Exact { s with seqRejects } True := fun seqRejects =>
    ⟨iff_of_true ⟨counted.counter, counted.active⟩ trivial, fun _ => ⟨inv.table, inv.listed⟩⟩
  unfold shareResult at done
  dsimp only at done
  split at done
  · next accepted =>
    split at done
    · next finished =>
      cases done
      have kept := noted (Function.update s.seqRejects r.pool 0)
      exact ⟨iff_of_true (kept.counted.mpr trivial)
        (fun _ unfinished => by rw [finished] at unfinished; cases unfinished),
        fun _ => kept.inv trivial⟩
    · next unfinished =>
      split at done
      · next rejecting =>
        have state := noted (Function.update s.seqRejects r.pool 0)
        have enabled :=
          enablePool_exact { s with seqRejects := Function.update s.seqRejects r.pool 0 } r.pool
          (state.inv trivial) (state.counted.mpr trivial) rejecting
        have guard :
            (r.accepted = true → r.finished = false → (s.status r.pool).enabled = .rejecting →
            r.pool ∈ s.table.pools) ↔ r.pool ∈ s.table.pools :=
          ⟨fun all => all accepted (by simpa using unfinished) rejecting,
            fun member _ _ _ => member⟩
        have switched :=
          enabled.same (switchPools_flags strategy behind _ next none done) fun table =>
          (switchPools_away strategy behind _ next table done).2
        exact ⟨switched.counted.trans guard.symm, fun meets => switched.inv (guard.mp meets)⟩
      · next other =>
        cases done
        have kept := noted (Function.update s.seqRejects r.pool 0)
        exact ⟨iff_of_true (kept.counted.mpr trivial) (fun _ _ rejecting => absurd rejecting other),
          fun _ => kept.inv trivial⟩
  · next rejected =>
    have kept := noted (Function.update s.seqRejects r.pool (s.seqRejects r.pool + 1))
    have vacuous : r.accepted = true → r.finished = false → (s.status r.pool).enabled = .rejecting →
        r.pool ∈ s.table.pools := fun accepted => absurd accepted rejected
    have final : Exact next True := by
      split at done
      · next test =>
        simp only [Bool.and_eq_true, decide_eq_true_eq] at test
        obtain ⟨switched, did, rfl⟩ := Option.map_eq_some_iff.mp done
        have dropped :=
          rejectPool_exact _ r.pool (kept.inv trivial) (kept.counted.mpr trivial) test.1.2
        have flags := switchPools_if strategy behind _ switched _ (dropped.inv trivial).table did
        have moved := dropped.same flags.1 fun _ => flags.2
        exact moved.same ⟨fun _ => Iff.rfl, rfl, rfl⟩ fun table => table
      · cases done
        exact kept
    exact ⟨iff_of_true (final.counted.mpr trivial) vacuous, fun _ => final.inv trivial⟩

theorem step_exact (s : Pools) (m : Moment Event) (next : Pools) (inv : Inv s) (counted : Counted s)
    (taken : step s m = some next) : Exact next (Leaves s m) := by
  obtain ⟨e, strategy, behind⟩ := m
  rw [step] at taken
  dsimp only at taken
  cases e with
  | addpool hasStratum =>
    cases taken
    exact addpool_exact s hasStratum inv counted
  | switchpool param =>
    obtain ⟨⟨reply, result⟩, called, rfl⟩ := Option.map_eq_some_iff.mp taken
    exact switchpool_exact strategy behind s result param reply inv counted called
  | enablepool param =>
    obtain ⟨⟨reply, result⟩, called, rfl⟩ := Option.map_eq_some_iff.mp taken
    exact enablepool_exact strategy behind s result param reply inv counted called
  | disablepool param =>
    obtain ⟨⟨reply, result⟩, called, rfl⟩ := Option.map_eq_some_iff.mp taken
    exact disablepool_exact strategy behind s result param reply inv counted called
  | removepool param =>
    obtain ⟨⟨reply, result⟩, called, rfl⟩ := Option.map_eq_some_iff.mp taken
    exact removepool_exact strategy behind s result param reply inv counted called
  | shareResult optDisablePool r =>
    rw [perform] at taken
    split at taken
    · exact shareResult_exact strategy behind s next optDisablePool r inv counted taken
    · cases taken
  | status pool idle hasStratum stratumActive stratumNotify =>
    cases taken
    have flags := fun other => isEnabled_setStatus s pool other
      { s.status pool with idle, hasStratum, stratumActive, stratumNotify } rfl
    exact exact_of_same ⟨flags, rfl, rfl⟩ inv.table inv counted trivial
  | switchPools =>
    obtain ⟨flags, table⟩ := switchPools_away strategy behind s next inv.table taken
    exact exact_of_same flags table inv counted trivial

theorem start_inv : Inv start := by
  refine ⟨⟨?_, ?_, ?_, ?_⟩, ?_⟩
  · intro i pool found
    have inside := inside_of_lookup _ i pool found
    have first : i = 0 := Nat.lt_one_iff.mp inside
    rw [first]
    rfl
  · intro pool member
    rw [List.mem_singleton.mp member]
    exact Nat.one_pos
  · intro pool member
    exact Nat.one_pos
  · intro a first b second _
    rw [List.mem_singleton.mp first, List.mem_singleton.mp second]
  · intro pool enabled
    by_contra absent
    have other : pool ≠ 0 := fun same => absent (List.mem_singleton.mpr same)
    have flag : start.status pool = zeroedStatus := by simp [start, other]
    rw [isEnabled, flag] at enabled
    cases enabled

/-- The counter is right, and a pool is enabled, in exactly the runs whose steps
all leave the flags alone. -/
theorem enabled_pools_counted_iff (es : List (Moment Event)) :
    Always step Counted start es ↔ Guarded step Leaves start es := by
  have kept : ∀ s m next, Inv s → Counted s → Leaves s m → step s m = some next → Inv next :=
    fun s m next inv counted meets taken => (step_exact s m next inv counted taken).inv meets
  apply always_iff_guarded_of_kept kept
  · exact fun s m next inv counted taken => (step_exact s m next inv counted taken).counted
  · exact start_inv
  · exact ⟨by decide, by decide⟩

/-- A second pool is added and disabled: the counter still says two. -/
theorem disabled_pool_counted : ¬∀ es, Always step Counted start es := by
  intro all
  let moment (e : Event) : Moment Event := ⟨e, .failover, fun _ => none⟩
  have ran :
    (run step start [moment (.addpool false), moment (.disablepool (some (ascii "1")))]).map
      (fun s => (s.enabledPools, enabledCount s)) = some (2, 1) := by decide +kernel
  obtain ⟨final, reached, counts⟩ := Option.map_eq_some_iff.mp ran
  have counter := (always_final (all _) reached).counter
  obtain ⟨two, one⟩ := Prod.mk.inj counts
  rw [two, one] at counter
  exact absurd counter (by decide)

end CgminerT4.Guarantees.EnabledPools
