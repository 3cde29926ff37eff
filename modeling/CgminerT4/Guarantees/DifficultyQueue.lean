import CgminerT4.Source.StratumTemplate
import CgminerT4.Library.Runs

/-!
# Announced difficulties take effect with the notifies

`next_diff` and `diff_after` hold the difficulties announced for the next two
notifies. set_difficulty fills the first free of them and overwrites the second,
a stored notify moves them up. What is pending last is the difficulty announced
last, and two notifies bring it into `sdiff`.
-/
namespace CgminerT4.Guarantees.DifficultyQueue
open Library.Runs Source.Jansson Source.Hex Source.StratumTemplate

/-- The two pending slots and the difficulty in use. -/
structure Queue where
  nextDiff : Double
  diffAfter : Double
  sdiff : Double

def queueOf (pool : Pool) : Queue := ⟨pool.nextDiff, pool.diffAfter, pool.sdiff⟩

namespace Queue

def announce (q : Queue) (diff : Double) : Queue :=
  if q.nextDiff ≠ 0 then { q with diffAfter := diff } else { q with nextDiff := diff }

def shift (q : Queue) : Queue := if 0 < q.nextDiff then ⟨q.diffAfter, 0, q.nextDiff⟩ else q

/-- The difficulty that is in use once nothing is pending. -/
def last (q : Queue) : Double :=
  if q.diffAfter ≠ 0 then q.diffAfter else if q.nextDiff ≠ 0 then q.nextDiff else q.sdiff

/-- The slots hold no negative difficulty and are filled in order. -/
structure Ordered (q : Queue) : Prop where
  next : 0 ≤ q.nextDiff
  after : 0 ≤ q.diffAfter
  filled : q.diffAfter ≠ 0 → q.nextDiff ≠ 0

theorem announce_ordered (q : Queue) (diff : Double) (ordered : q.Ordered) (positive : 0 < diff) :
    (q.announce diff).Ordered := by
  unfold announce
  split
  · next pending => exact ⟨ordered.next, le_of_lt positive, fun _ => pending⟩
  · exact ⟨le_of_lt positive, ordered.after, fun _ => ne_of_gt positive⟩

theorem announce_last (q : Queue) (diff : Double) (ordered : q.Ordered) (positive : 0 < diff) :
    (q.announce diff).last = diff := by
  have nonzero : diff ≠ 0 := ne_of_gt positive
  unfold announce last
  by_cases pending : q.nextDiff ≠ 0
  · rw [if_pos pending]
    exact if_pos nonzero
  · have empty : q.diffAfter = 0 := by
      by_contra after
      exact pending (ordered.filled after)
    rw [if_neg pending]
    dsimp only
    rw [if_neg (not_not.mpr empty), if_pos nonzero]

/-- Nothing to move up. -/
theorem shift_empty (q : Queue) (ordered : q.Ordered) (idle : ¬ 0 < q.nextDiff) :
    q.shift = q ∧ q.nextDiff = 0 ∧ q.diffAfter = 0 := by
  have next : q.nextDiff = 0 := le_antisymm (not_lt.mp idle) ordered.next
  have after : q.diffAfter = 0 := by
    by_contra pending
    exact ordered.filled pending next
  exact ⟨if_neg idle, next, after⟩

theorem shift_ordered (q : Queue) (ordered : q.Ordered) : q.shift.Ordered := by
  by_cases pending : 0 < q.nextDiff
  · unfold shift
    rw [if_pos pending]
    exact ⟨ordered.after, le_refl 0, fun never => absurd rfl never⟩
  · rw [(shift_empty q ordered pending).1]
    exact ordered

theorem shift_last (q : Queue) (ordered : q.Ordered) : q.shift.last = q.last := by
  by_cases pending : 0 < q.nextDiff
  · unfold shift last
    rw [if_pos pending, if_pos (ne_of_gt pending)]
    exact if_neg (not_not.mpr rfl)
  · rw [(shift_empty q ordered pending).1]

theorem shift_after (q : Queue) (ordered : q.Ordered) : q.shift.diffAfter = 0 := by
  by_cases pending : 0 < q.nextDiff
  · unfold shift
    rw [if_pos pending]
  · obtain ⟨same, _, after⟩ := shift_empty q ordered pending
    rw [same]
    exact after

theorem shift_next (q : Queue) (ordered : q.Ordered) (empty : q.diffAfter = 0) :
    q.shift.nextDiff = 0 := by
  by_cases pending : 0 < q.nextDiff
  · unfold shift
    rw [if_pos pending]
    exact empty
  · obtain ⟨same, next, _⟩ := shift_empty q ordered pending
    rw [same]
    exact next

end Queue

/-! ## The messages act on the queue -/

/-- The difficulty a set_difficulty message announces. -/
def announcedDiff (val : Option Json) : Double := (jsonNumberValue (jsonArrayGet val 0) : ℚ)

theorem parseDiff_accepted (pool : Pool) (val : Option Json) (positive : 0 < announcedDiff val) :
    ∃ next, parseDiff pool val = (next, true) ∧
      queueOf next = (queueOf pool).announce (announcedDiff val) := by
  unfold parseDiff
  dsimp only
  split
  · next refused => exact absurd positive (not_lt.mpr refused)
  · split
    · next pending => exact ⟨_, rfl, (if_pos pending).symm⟩
    · next free => exact ⟨_, rfl, (if_neg free).symm⟩

/-- Only a difficulty of 0 and below is refused, and it changes nothing. -/
theorem parseDiff_refused (pool : Pool) (val : Option Json) (refused : ¬ 0 < announcedDiff val) :
    parseDiff pool val = (pool, false) :=
  if_pos (not_lt.mp refused)

theorem parseDiff_accepts (pool : Pool) (val : Option Json) :
    (parseDiff pool val).2 = true ↔ 0 < announcedDiff val := by
  by_cases positive : 0 < announcedDiff val
  · obtain ⟨next, accepted, _⟩ := parseDiff_accepted pool val positive
    rw [accepted]
    exact iff_of_true rfl positive
  · rw [parseDiff_refused pool val positive]
    exact iff_of_false Bool.false_ne_true positive

theorem storeHead_queue (pool : Pool) (n : Notify) :
    queueOf (storeHead pool n) = (queueOf pool).shift := by
  unfold queueOf storeHead Queue.shift
  by_cases pending : 0 < pool.nextDiff
  · simp only [if_pos pending]
  · simp only [if_neg pending]

theorem storeTail_queue (pool : Pool) (n : Notify) :
    queueOf (storeTail pool n).1 = queueOf pool := by
  obtain ⟨headerBin, stored, _⟩ := pool.headerBin.store_of_fits 0 (hex2bin (headerText n) 128).1
    (by rw [Nat.zero_add]; exact length_hex2bin_le _ _)
  simp only [storeTail, stored, Bool.not_eq_true']
  split_ifs <;> rfl

theorem storeNotify_queue (pool next : Pool) (n : Notify) (ret : Bool)
    (done : storeNotify pool n = some (next, ret)) : queueOf next = (queueOf pool).shift := by
  unfold storeNotify at done
  dsimp only at done
  rw [← storeHead_queue pool n]
  split at done
  · cases done
  · split at done
    · cases done
    · cases done
      rfl
    · next merkleBin _ =>
      have tail := storeTail_queue { storeHead pool n with merkleBin } n
      rw [Option.some.inj done] at tail
      exact tail

/-- A stored notify moves the queue up, also when it fails later on. -/
theorem parseNotify_queue (pool next : Pool) (val : Option Json) (ret : Bool)
    (done : parseNotify pool val = some (next, ret)) :
    (ret = false ∧ next = pool) ∨ queueOf next = (queueOf pool).shift := by
  unfold parseNotify at done
  split at done
  · cases done
    exact Or.inl ⟨rfl, rfl⟩
  · next n _ =>
    obtain ⟨⟨stored, _⟩, inside, same⟩ := Option.map_eq_some_iff.mp done
    cases same
    exact Or.inr (storeNotify_queue pool stored n ret inside)

/-! ## Runs after a subscription -/

/-- The pool, the last positive difficulty of a message and the notifies accepted
since then. -/
structure Session where
  pool : Pool
  announced : Option Double
  notifies : Nat

inductive Event where
  | setDifficulty (val : Option Json)
  | notify (val : Option Json)

def handleDiff (s : Session) (val : Option Json) : Session :=
  let pool := (parseDiff s.pool val).1
  if 0 < announcedDiff val then ⟨pool, some (announcedDiff val), 0⟩ else { s with pool }

def handleNotify (s : Session) (val : Option Json) : Option Session :=
  (parseNotify s.pool val).map fun (pool, accepted) =>
    { s with pool, notifies := if accepted then s.notifies + 1 else s.notifies }

def step (s : Session) : Event → Option Session
  | .setDifficulty val => some (handleDiff s val)
  | .notify val => handleNotify s val

def subscribed (pool : Pool) (sub : Subscription) : Session := ⟨storeSubscription pool sub, none, 0⟩

structure Inv (s : Session) : Prop where
  ordered : (queueOf s.pool).Ordered
  last : ∀ diff ∈ s.announced, (queueOf s.pool).last = diff
  once : 1 ≤ s.notifies → s.pool.diffAfter = 0
  twice : 2 ≤ s.notifies → s.pool.nextDiff = 0

theorem subscribed_inv (pool : Pool) (sub : Subscription) : Inv (subscribed pool sub) := by
  refine ⟨⟨le_refl 0, le_refl 0, fun never => absurd rfl never⟩, fun _ never => ?_, fun _ => rfl,
    fun _ => rfl⟩
  cases never

theorem handleDiff_inv (s : Session) (val : Option Json) (inv : Inv s) :
    Inv (handleDiff s val) := by
  unfold handleDiff
  dsimp only
  split
  · next positive =>
    obtain ⟨next, accepted, queue⟩ := parseDiff_accepted s.pool val positive
    rw [accepted]
    refine ⟨?_, ?_, fun never => ?_, fun never => ?_⟩
    · rw [queue]
      exact (queueOf s.pool).announce_ordered (announcedDiff val) inv.ordered positive
    · intro diff same
      cases same
      rw [queue]
      exact (queueOf s.pool).announce_last (announcedDiff val) inv.ordered positive
    · exact absurd never (Nat.not_succ_le_zero 0)
    · exact absurd never (Nat.not_succ_le_zero 1)
  · next refused =>
    rw [parseDiff_refused s.pool val refused]
    exact inv

theorem handleNotify_inv (s next : Session) (val : Option Json) (inv : Inv s)
    (handled : handleNotify s val = some next) : Inv next := by
  obtain ⟨⟨pool, accepted⟩, done, rfl⟩ := Option.map_eq_some_iff.mp handled
  rcases parseNotify_queue s.pool pool val accepted done with ⟨rfl, rfl⟩ | queue
  · exact inv
  · have after : pool.diffAfter = 0 := by
      have moved := (queueOf s.pool).shift_after inv.ordered
      rwa [← queue] at moved
    have next : 1 ≤ s.notifies → pool.nextDiff = 0 := by
      intro before
      have moved := (queueOf s.pool).shift_next inv.ordered (inv.once before)
      rwa [← queue] at moved
    refine ⟨?_, ?_, fun _ => after, ?_⟩
    · rw [queue]
      exact (queueOf s.pool).shift_ordered inv.ordered
    · intro diff same
      rw [queue, (queueOf s.pool).shift_last inv.ordered]
      exact inv.last diff same
    · intro twice
      apply next
      dsimp only at twice
      split at twice <;> omega

theorem step_inv (s : Session) (e : Event) (next : Session) (inv : Inv s)
    (taken : step s e = some next) :
    Inv next := by
  cases e with
  | setDifficulty val =>
    cases taken
    exact handleDiff_inv s val inv
  | notify val => exact handleNotify_inv s next val inv taken

/-- Every positive difficulty is accepted, the second slot is filled only behind the
first, and two notifies after the last announcement its difficulty is in use with
nothing pending. -/
structure Converges (s : Session) : Prop where
  accepts : ∀ val, (parseDiff s.pool val).2 = true ↔ 0 < announcedDiff val
  filled : s.pool.diffAfter ≠ 0 → s.pool.nextDiff ≠ 0
  settled : ∀ diff ∈ s.announced, 2 ≤ s.notifies →
    s.pool.sdiff = diff ∧ s.pool.nextDiff = 0 ∧ s.pool.diffAfter = 0

theorem Inv.converges {s : Session} (inv : Inv s) : Converges s := by
  refine ⟨parseDiff_accepts s.pool, inv.ordered.filled, fun diff announced twice => ?_⟩
  have next : (queueOf s.pool).nextDiff = 0 := inv.twice twice
  have after : (queueOf s.pool).diffAfter = 0 := inv.once (by omega)
  have last := inv.last diff announced
  unfold Queue.last at last
  rw [if_neg (not_not.mpr after), if_neg (not_not.mpr next)] at last
  exact ⟨last, next, after⟩

/-- Any set_difficulty and notify messages after a subscription, rejected ones included. -/
theorem difficulty_converges (pool : Pool) (sub : Subscription) (events : List Event) :
    Always step Converges (subscribed pool sub) events :=
  always_mono (fun _ inv => inv.converges)
    (always_of_invariant step_inv (subscribed_inv pool sub) events)

end CgminerT4.Guarantees.DifficultyQueue
