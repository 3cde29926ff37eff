import CgminerT4.Source.ShareTable
import CgminerT4.Library.Runs

/-!
# The counter of outstanding shares

`pool->sshares` should be the number of table entries that belong to the pool.
Submissions and clear_stratum_shares keep this. A reply decrements the counter
of the pool whose connection it arrived on, whichever pool the share it names
belongs to, and prune_stratum_shares removes entries without touching the
counter. Over arbitrary sequences of these operations the runs that keep the
equation are exactly those in which no reply names another pool's share and no
prune finds an expired one.
-/
namespace CgminerT4.Guarantees.ShareCounter
open Library.Removal Library.Runs Source.Jansson Source.WorkItem Source.ShareTable
open Source.ShareTable.State

inductive Event where
  /-- A share is sent and inserted for the pool of its work. -/
  | submit (work : Work) (now : Int)
  /-- A line arrives on the connection of the pool. -/
  | response (protocol : Protocol) (pool : PoolNo) (val : Option Json)
  | clear (pool : PoolNo)
  | prune (pool : PoolNo) (now : Int)

def step (st : State) : Event → Option State
  | .submit work now =>
    (st.newShare work now).map fun (sshare, next) => next.insertShare work.pool sshare
  | .response protocol pool val => some (parseResponse protocol st pool val)
  | .clear pool => some (st.clearStratumShares pool)
  | .prune pool now => some (st.pruneStratumShares pool now)

/-- Every counter is the number of table entries of its pool. -/
def SsharesCount (st : State) : Prop :=
  ∀ pool, (st.pool pool).sshares = st.entries pool

/-- No share is outstanding. -/
def Idle (st : State) : Prop :=
  st.stratumShares = [] ∧ ∀ pool, (st.pool pool).sshares = 0

/-- The step adjusts the counter of every pool whose entries it changes: a
reply names no other pool's share and a prune finds nothing to remove. -/
def AdjustsRightCounter (st : State) : Event → Prop
  | .submit _ _ => True
  | .response protocol pool val =>
    ∀ sshare, trackedShare protocol st val = some sshare → sshare.work.pool = pool
  | .clear _ => True
  | .prune pool now => st.stratumShares.filter (expired pool now) = []

theorem idle_counts (st : State) (idle : Idle st) : SsharesCount st := by
  intro pool
  simp [idle.2 pool, entries, idle.1]

/-- A counter in agreement is never negative, and is zero exactly when the pool
has no tracked share. -/
theorem SsharesCount.zero_iff (st : State) (counts : SsharesCount st) (pool : PoolNo) :
    0 ≤ (st.pool pool).sshares ∧
      ((st.pool pool).sshares = 0 ↔ ∀ sshare ∈ st.stratumShares, sshare.work.pool ≠ pool) := by
  rw [counts pool]
  refine ⟨Int.natCast_nonneg _, ?_⟩
  simp [entries, belongsTo]

theorem insert_counts (st : State) (counts : SsharesCount st) (sshare : StratumShare) :
    SsharesCount (st.insertShare sshare.work.pool sshare) := by
  intro pool
  have before := counts pool
  by_cases same : pool = sshare.work.pool
  · subst same
    simp only [entries] at before
    simp [insertShare, updatePool, entries, belongsTo, before]
  · have other : belongsTo pool sshare = false := by simp [belongsTo, Ne.symm same]
    simpa [insertShare, updatePool, entries, same, other] using before

theorem clear_counts (st : State) (counts : SsharesCount st) (cleared : PoolNo) :
    SsharesCount (st.clearStratumShares cleared) := by
  intro pool
  have before := counts pool
  by_cases same : pool = cleared
  · subst same
    have none_left :
        (st.stratumShares.filter fun s => !belongsTo pool s).countP (belongsTo pool) = 0 := by
      simp [List.countP_eq_zero]
    simp only [entries] at before
    simp [clearStratumShares, updatePool, entries, none_left, before, List.countP_eq_length_filter]
  · have kept : (st.stratumShares.filter fun s => !belongsTo cleared s).countP (belongsTo pool) =
        st.stratumShares.countP (belongsTo pool) := by
      rw [List.countP_filter]
      apply List.countP_congr
      intro sshare _
      simp only [belongsTo, Bool.and_eq_true, Bool.not_eq_true', beq_iff_eq, beq_eq_false_iff_ne]
      exact ⟨fun h => h.1, fun h => ⟨h, fun other => same (h.symm.trans other)⟩⟩
    simp only [entries] at before
    simp [clearStratumShares, updatePool, entries, same, kept, before]

/-- Removing one share keeps the counters right exactly when the share belongs
to the pool whose counter is decremented. -/
theorem remove_counts_iff (st : State) (counts : SsharesCount st) (receiver : PoolNo) (id : Int)
    (sshare : StratumShare) (found : st.findShare id = some sshare) :
    SsharesCount (st.removeShare receiver id) ↔ sshare.work.pool = receiver := by
  have removed := fun pool => countP_eraseP _ (belongsTo pool) _ _ found
  constructor
  · intro after
    by_contra different
    have here := after receiver
    have before := counts receiver
    have frame := removed receiver
    have other : belongsTo receiver sshare = false := by simpa [belongsTo] using different
    simp only [entries] at before
    simp [removeShare, updatePool, entries] at here
    simp only [other, Bool.false_eq_true, if_false] at frame
    omega
  · intro owner pool
    have before := counts pool
    have frame := removed pool
    simp only [entries] at before
    by_cases same : pool = receiver
    · have own : belongsTo pool sshare = true := by simp [belongsTo, owner, same]
      simp only [own, if_true] at frame
      simp [removeShare, updatePool, entries, same] at *
      omega
    · have other : belongsTo pool sshare = false := by simp [belongsTo, owner, Ne.symm same]
      simp only [other, Bool.false_eq_true, if_false] at frame
      simp [removeShare, updatePool, entries, same]
      omega

/-- Pruning keeps the counters right exactly when nothing is pruned. -/
theorem prune_counts_iff (st : State) (counts : SsharesCount st) (pruned : PoolNo) (now : Int) :
    SsharesCount (st.pruneStratumShares pruned now) ↔
      st.stratumShares.filter (expired pruned now) = [] := by
  have split :=
    fun pool => (perm_partition (expired pruned now) st.stratumShares).countP_eq (belongsTo pool)
  constructor
  · intro after
    have here := after pruned
    have before := counts pruned
    have parts := split pruned
    have all : (st.stratumShares.filter (expired pruned now)).countP (belongsTo pruned) =
        (st.stratumShares.filter (expired pruned now)).length := by
      rw [List.countP_eq_length]
      intro sshare member
      have old := (List.mem_filter.mp member).2
      simp only [expired, Bool.and_eq_true] at old
      exact old.1
    rw [List.countP_append, all] at parts
    simp only [entries] at before
    simp [pruneStratumShares, updatePool, entries] at here
    exact List.eq_nil_of_length_eq_zero (by omega)
  · intro nothing pool
    have before := counts pool
    have parts := split pool
    rw [nothing, List.nil_append] at parts
    simp only [entries] at before
    by_cases same : pool = pruned
    · simp [pruneStratumShares, updatePool, entries, same] at *
      omega
    · simp [pruneStratumShares, updatePool, entries, same]
      omega

theorem sshares_congr (st next : State) (table : next.stratumShares = st.stratumShares)
    (counters : ∀ pool, (next.pool pool).sshares = (st.pool pool).sshares) :
    SsharesCount next ↔ SsharesCount st := by
  simp only [SsharesCount, entries, table, counters]

/-- One step keeps the counters right exactly when it adjusts the right one. -/
theorem step_counts_iff (st : State) (event : Event) (next : State) (counts : SsharesCount st)
    (taken : step st event = some next) : SsharesCount next ↔ AdjustsRightCounter st event := by
  cases event with
  | submit work now =>
    simp only [step, Option.map_eq_some_iff] at taken
    obtain ⟨⟨sshare, numbered⟩, fresh, rfl⟩ := taken
    obtain ⟨_, rfl, rfl⟩ := newShare_some _ _ _ _ _ fresh
    exact iff_of_true (insert_counts { st with sworkId := st.sworkId + 1 } counts _) trivial
  | response protocol pool val =>
    cases Option.some.inj taken
    rcases parseResponse_cases protocol st pool val with
      ⟨sshare, verdict, tracked, effect⟩ | ⟨untracked, effect⟩
    · rw [effect, sshares_congr (st.removeShare pool (responseId val)) _ (by simp) (by simp),
        remove_counts_iff st counts pool _ sshare (trackedShare_find _ _ _ _ tracked)]
      simp [AdjustsRightCounter, tracked]
    · have guard : AdjustsRightCounter st (.response protocol pool val) := by
        simp [AdjustsRightCounter, untracked]
      refine iff_of_true ?_ guard
      rcases effect with same | ⟨verdict, effect⟩
      · rw [same]
        exact counts
      · rw [effect, sshares_congr st _ (by simp) (by simp)]
        exact counts
  | clear pool =>
    cases Option.some.inj taken
    exact iff_of_true (clear_counts st counts pool) trivial
  | prune pool now =>
    cases Option.some.inj taken
    exact prune_counts_iff st counts pool now

/-- From a state without outstanding shares, `sshares` counts the entries of
its pool in every state of a run exactly when every step of the run adjusts the
right counter. -/
theorem sshares_counts_iff (st : State) (idle : Idle st) (events : List Event) :
    Always step SsharesCount st events ↔ Guarded step AdjustsRightCounter st events :=
  always_iff_guarded step_counts_iff (idle_counts st idle)

/-- A state without shares, counters at zero. -/
def start : State where
  stratumShares := []
  sworkId := 0
  pool := fun _ => ⟨⟨0, 0, 0, 0⟩, 0, 0, 0, 0, 1⟩
  cgpu := fun _ => ⟨0, 0, 0, 0⟩
  total := ⟨0, 0, 0, 0⟩
  totalStale := 0
  totalDiffStale := 0

theorem sshares_counts_iff_start :
    Always step SsharesCount start [.submit makeWork 0, .clear 0] ↔
      Guarded step AdjustsRightCounter start [.submit makeWork 0, .clear 0] :=
  sshares_counts_iff start ⟨rfl, fun _ => rfl⟩ _

/-- A share of pool 0 that is pruned, and one whose reply arrives on the
connection of pool 1: both times the counter of pool 0 stays at one with an
empty table. -/
theorem sshares_drift :
    ¬ Always step SsharesCount start [.submit makeWork 0, .prune 0 121] ∧
    ¬ Always step SsharesCount start [.submit makeWork 0, .response .getwork 1
      (some (.object [("id", .integer 0), ("result", .bool true)]))] := by
  constructor
  · intro always
    exact absurd (always_final always rfl 0) (by decide)
  · intro always
    exact absurd (always_final always rfl 0) (by decide)

end CgminerT4.Guarantees.ShareCounter
