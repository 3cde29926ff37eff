import CgminerT4.Library.Removal
import CgminerT4.Library.Runs
import CgminerT4.Source.StagedTable
import Mathlib.Data.List.Basic

/-!
# The counter of rollable works and hash_pop

Every operation changes the counter and the number of rollable works in the
table by amounts that differ by the rollable works the operation loses: those
that a frozen queue refuses after they were counted, and those that
discard_stale and clear_pool_work delete without counting them off. The counter
is therefore never too low, which keeps the search of hash_pop inside the table,
and it is exact as long as nothing rollable is lost.
-/
namespace CgminerT4.Guarantees.RollableCount
open Library.Runs Library.Removal Library.SignedInt Source.Jansson Source.WorkItem Source.WorkRoll
  Source.StagedTable

def rollables (stagedWork : List RollWork) : Nat := stagedWork.countP workRollable

/-- 1 for a rollable work. -/
def rollableUnit (work : RollWork) : Nat := if workRollable work then 1 else 0

theorem rollables_append (front back : List RollWork) :
    rollables (front ++ back) = rollables front + rollables back := List.countP_append

theorem rollables_cons (work : RollWork) (rest : List RollWork) :
    rollables (work :: rest) = rollables rest + rollableUnit work := by
  unfold rollables rollableUnit
  rw [List.countP_cons]

theorem countRollable_spec (counter next : CInt) (work : RollWork) (delta : Int)
    (counted : countRollable counter work delta = some next) :
    next.val = counter.val + delta * rollableUnit work := by
  unfold countRollable at counted
  unfold rollableUnit
  split at counted
  · next rollable =>
    rw [if_pos rollable, CInt.add_eq_some counter next delta counted]
    omega
  · next other =>
    cases counted
    rw [if_neg other]
    omega

/-- The rollable works that an operation takes from the table, or refuses, while
the counter keeps them. -/
def lost (t : Staged) : Event → Nat
  | .push frozen work => if frozen then rollableUnit work else 0
  | .pop _ => 0
  | .discardStale stale => rollables (t.stagedWork.filter stale)
  | .clearPoolWork poolNo => rollables (t.stagedWork.filter fun work => work.pool = poolNo)

theorem rollables_addSorted (stagedWork : List RollWork) (work : RollWork) :
    rollables (addSorted stagedWork work) = rollables stagedWork + rollableUnit work := by
  have sorted : (addSorted stagedWork work).Perm (stagedWork ++ [work]) :=
    List.perm_insertionSort _ _
  have single : rollables [work] = rollableUnit work := by
    rw [rollables_cons]
    exact Nat.zero_add _
  rw [rollables, sorted.countP_eq, ← rollables, rollables_append, single]

/-- The selected work is one of the table, and exactly that one is removed. -/
theorem selectWork_split (t : Staged) (work : RollWork) (rest : List RollWork)
    (selected : selectWork t = some (work, rest)) :
    ∃ front back, t.stagedWork = front ++ work :: back ∧ rest = front ++ back := by
  unfold selectWork at selected
  split at selected
  · obtain ⟨found, search, same⟩ := Option.map_eq_some_iff.mp selected
    cases same
    exact split_eraseP _ t.stagedWork work search
  · cases table : t.stagedWork with
    | nil =>
      rw [table] at selected
      cases selected
    | cons head tail =>
      rw [table] at selected
      cases selected
      exact ⟨[], _, rfl, rfl⟩

/-- What hash_pop returns, and the table it leaves. -/
theorem hashPop_returned (blocking : Bool) (t next : Staged) (popped : Option RollWork)
    (returned : hashPop blocking t = .returned popped next) :
    (t.stagedWork = [] ∧ popped = none ∧ next = t) ∨
      ∃ work, popped = some work ∧ selectWork t = some (work, next.stagedWork) ∧
        countRollable t.stagedRollable work (-1) = some next.stagedRollable := by
  unfold hashPop at returned
  split at returned
  · next empty =>
    cases blocking with
    | true => cases returned
    | false =>
      cases returned
      exact .inl ⟨empty, rfl, rfl⟩
  · split at returned
    · cases returned
    · next work stagedWork selected =>
      split at returned
      · cases returned
      · next counter counted =>
        cases returned
        exact .inr ⟨work, rfl, selected, counted⟩

/-- A part of the table that is deleted. -/
theorem rollables_filter_split (drop : RollWork → Bool) (stagedWork : List RollWork) :
    rollables (stagedWork.filter fun work => !drop work) + rollables (stagedWork.filter drop) =
      rollables stagedWork := by
  have parts := (List.filter_append_perm drop stagedWork).countP_eq workRollable
  unfold rollables
  rw [List.countP_append] at parts
  omega

/-- All an operation does to the distance between the counter and the table. -/
theorem step_drift (t next : Staged) (e : Event) (taken : step t e = some next) :
    next.stagedRollable.val - rollables next.stagedWork =
      t.stagedRollable.val - rollables t.stagedWork + lost t e := by
  cases e with
  | push frozen work =>
    obtain ⟨⟨pushed, rc⟩, run, rfl⟩ := Option.map_eq_some_iff.mp taken
    obtain ⟨counter, counted, result⟩ := Option.map_eq_some_iff.mp run
    have delta := countRollable_spec _ _ _ _ counted
    cases frozen with
    | true =>
      cases result
      simp only [lost, if_true]
      omega
    | false =>
      cases result
      have added := rollables_addSorted t.stagedWork work
      simp only [lost]
      rw [added]
      push_cast
      simp
      omega
  | pop blocking =>
    simp only [step] at taken
    split at taken
    · next popped after returned =>
      cases taken
      rcases hashPop_returned blocking t next popped returned with
        ⟨_, _, rfl⟩ | ⟨work, _, selected, counted⟩
      · simp [lost]
      · obtain ⟨front, back, split, rest⟩ := selectWork_split t work _ selected
        have delta := countRollable_spec _ _ _ _ counted
        rw [split, rest, rollables_append, rollables_append, rollables_cons]
        simp only [lost]
        push_cast
        omega
    · cases taken
    · cases taken
  | discardStale stale =>
    cases taken
    have parts := rollables_filter_split stale t.stagedWork
    simp only [discardStale, lost]
    omega
  | clearPoolWork poolNo =>
    cases taken
    have parts := rollables_filter_split (fun work => work.pool = poolNo) t.stagedWork
    simp only [clearPoolWork, lost, ne_eq, decide_not] at parts ⊢
    omega

/-- The counter is never below the number of rollable works. -/
def CounterCovers (t : Staged) : Prop := (rollables t.stagedWork : Int) ≤ t.stagedRollable.val

theorem counter_covers (es : List Event) : Always step CounterCovers emptyTable es := by
  apply always_of_invariant
  · intro t e next covers taken
    have drift := step_drift t next e taken
    unfold CounterCovers at covers ⊢
    omega
  · exact le_refl _

/-- Converting a count to int never makes it larger. -/
theorem toInt_count_le (n : Nat) : toInt n ≤ n := by
  unfold toInt
  rw [Int.bmod_def]
  omega

/-- More works than the counter says are rollable leave one that is not. -/
theorem exists_not_rollable (t : Staged) (covers : CounterCovers t)
    (more : toInt t.stagedWork.length > t.stagedRollable.val) :
    ∃ work ∈ t.stagedWork, workRollable work = false := by
  by_contra none
  push Not at none
  have all : ∀ work ∈ t.stagedWork, workRollable work = true := fun work member => by
    simpa using none work member
  have every : rollables t.stagedWork = t.stagedWork.length := List.countP_eq_length.mpr all
  have converted := toInt_count_le t.stagedWork.length
  unfold CounterCovers at covers
  omega

/-- A covering counter finds a work in every table that is not empty. -/
theorem selectWork_defined (t : Staged) (covers : CounterCovers t) (nonempty : t.stagedWork ≠ []) :
    ∃ work rest, selectWork t = some (work, rest) := by
  unfold selectWork
  split
  · next more =>
    obtain ⟨work, member, passes⟩ := exists_not_rollable t covers more
    cases search : t.stagedWork.find? fun work => !workRollable work with
    | none =>
      have none_passes := List.find?_eq_none.mp search work member
      rw [passes] at none_passes
      exact absurd rfl none_passes
    | some found => exact ⟨found, _, rfl⟩
  · cases table : t.stagedWork with
    | nil => exact absurd table nonempty
    | cons work rest => exact ⟨work, rest, rfl⟩

/-- Counting the popped work off keeps the counter an int. -/
theorem countRollable_defined (t : Staged) (covers : CounterCovers t) (work : RollWork)
    (member : work ∈ t.stagedWork) :
    ∃ counter, countRollable t.stagedRollable work (-1) = some counter := by
  unfold countRollable
  split
  · next rollable =>
    have positive : 0 < rollables t.stagedWork := List.countP_pos_iff.mpr ⟨work, member, rollable⟩
    have upper := t.stagedRollable.upper
    unfold CounterCovers at covers
    obtain ⟨counter, added, _⟩ := t.stagedRollable.add_defined (-1) (by omega) (by omega)
    exact ⟨counter, added⟩
  · exact ⟨t.stagedRollable, rfl⟩

/-- hash_pop on a table that is not empty. -/
theorem hashPop_selected (blocking : Bool) (t : Staged) (covers : CounterCovers t)
    (nonempty : t.stagedWork ≠ []) :
    ∃ work next, selectWork t = some (work, next.stagedWork) ∧
      hashPop blocking t = .returned (some work) next := by
  obtain ⟨work, rest, selected⟩ := selectWork_defined t covers nonempty
  obtain ⟨front, back, split, _⟩ := selectWork_split t work rest selected
  have member : work ∈ t.stagedWork := by
    rw [split]
    exact List.mem_append_right front List.mem_cons_self
  obtain ⟨counter, counted⟩ := countRollable_defined t covers work member
  refine ⟨work, ⟨rest, counter⟩, selected, ?_⟩
  unfold hashPop
  rw [if_neg nonempty, selected]
  dsimp only
  rw [counted]

/-- hash_pop finds a work whenever there is one, and takes out that one only. -/
def PopsMember (t : Staged) : Prop :=
  t.stagedWork ≠ [] → ∀ blocking, ∃ work next, hashPop blocking t = .returned (some work) next ∧
    ∃ front back, t.stagedWork = front ++ work :: back ∧ next.stagedWork = front ++ back

theorem hash_pop_pops_member (es : List Event) : Always step PopsMember emptyTable es := by
  apply always_mono _ (counter_covers es)
  intro t covers nonempty blocking
  obtain ⟨work, next, selected, popped⟩ := hashPop_selected blocking t covers nonempty
  exact ⟨work, next, popped, selectWork_split t work _ selected⟩

/-- The counter is exact, and works that cannot be rolled go first. -/
structure RollableExact (t : Staged) : Prop where
  counter : t.stagedRollable.val = rollables t.stagedWork
  prefers : (∃ work ∈ t.stagedWork, workRollable work = false) →
    ∀ blocking, ∃ work next, hashPop blocking t = .returned (some work) next ∧
      workRollable work = false

/-- No rollable work is refused by a frozen queue or deleted as stale or with
its pool, and the size of the table stays an int. -/
def KeepsRollables (t : Staged) : Event → Prop
  | .push frozen work =>
    ¬(frozen = true ∧ workRollable work = true) ∧ t.stagedWork.length + 1 < 2 ^ 31
  | .pop _ => True
  | .discardStale stale => ∀ work ∈ t.stagedWork, workRollable work = true → stale work = false
  | .clearPoolWork poolNo => ∀ work ∈ t.stagedWork, workRollable work = true → work.pool ≠ poolNo

instance (t : Staged) (e : Event) : Decidable (KeepsRollables t e) := by
  cases e <;> unfold KeepsRollables <;> infer_instance

theorem rollables_filter_zero (drop : RollWork → Bool) (stagedWork : List RollWork)
    (kept : ∀ work ∈ stagedWork, workRollable work = true → drop work = false) :
    rollables (stagedWork.filter drop) = 0 := by
  apply List.countP_eq_zero.mpr
  intro work member rollable
  obtain ⟨staged, dropped⟩ := List.mem_filter.mp member
  rw [kept work staged rollable] at dropped
  cases dropped

theorem lost_of_keeps (t : Staged) (e : Event) (keeps : KeepsRollables t e) : lost t e = 0 := by
  cases e with
  | push frozen work =>
    unfold lost rollableUnit
    cases frozen with
    | false => rfl
    | true =>
      have other : ¬workRollable work = true := fun rollable => keeps.1 ⟨rfl, rollable⟩
      exact if_neg other
  | pop blocking => rfl
  | discardStale stale => exact rollables_filter_zero stale t.stagedWork keeps
  | clearPoolWork poolNo =>
    apply rollables_filter_zero
    intro work member rollable
    exact decide_eq_false (keeps work member rollable)

/-- The size of the table, as hash_pop reads it. -/
def CountFits (t : Staged) : Prop := t.stagedWork.length < 2 ^ 31

theorem step_fits (t next : Staged) (e : Event) (fits : CountFits t) (keeps : KeepsRollables t e)
    (taken : step t e = some next) : CountFits next := by
  unfold CountFits at fits ⊢
  cases e with
  | push frozen work =>
    obtain ⟨⟨pushed, rc⟩, run, rfl⟩ := Option.map_eq_some_iff.mp taken
    obtain ⟨counter, counted, result⟩ := Option.map_eq_some_iff.mp run
    have size : (addSorted t.stagedWork work).length = t.stagedWork.length + 1 := by
      rw [addSorted, List.length_insertionSort, List.length_append, List.length_singleton]
    cases frozen with
    | true =>
      cases result
      exact fits
    | false =>
      cases result
      exact size ▸ keeps.2
  | pop blocking =>
    simp only [step] at taken
    split at taken
    · next popped after returned =>
      cases taken
      rcases hashPop_returned blocking t next popped returned with ⟨_, _, rfl⟩ | ⟨work, _,
        selected, _⟩
      · exact fits
      · obtain ⟨front, back, split, rest⟩ := selectWork_split t work _ selected
        rw [split] at fits
        rw [rest]
        simp only [List.length_append, List.length_cons] at fits ⊢
        omega
    · cases taken
    · cases taken
  | discardStale stale =>
    cases taken
    exact Nat.lt_of_le_of_lt (List.length_filter_le _ _) fits
  | clearPoolWork poolNo =>
    cases taken
    exact Nat.lt_of_le_of_lt (List.length_filter_le _ _) fits

/-- An exact counter tells hash_pop whether a work that cannot be rolled is staged. -/
theorem prefers_of_exact (t : Staged) (counter : t.stagedRollable.val = rollables t.stagedWork)
    (fits : CountFits t) : RollableExact t := by
  refine ⟨counter, ?_⟩
  rintro ⟨other, member, fails⟩ blocking
  have covers : CounterCovers t := by
    unfold CounterCovers
    omega
  have fewer : rollables t.stagedWork < t.stagedWork.length := by
    apply Nat.lt_of_le_of_ne List.countP_le_length
    intro every
    have all := List.countP_eq_length.mp every other member
    rw [fails] at all
    cases all
  have more : toInt t.stagedWork.length > t.stagedRollable.val := by
    rw [toInt_of_lt _ fits]
    omega
  obtain ⟨work, next, selected, popped⟩ :=
    hashPop_selected blocking t covers (List.ne_nil_of_mem member)
  refine ⟨work, next, popped, ?_⟩
  unfold selectWork at selected
  rw [if_pos more] at selected
  obtain ⟨found, search, same⟩ := Option.map_eq_some_iff.mp selected
  cases congrArg Prod.fst same
  simpa using List.find?_some search

theorem rollable_count_exact (es : List Event) (keeps : Guarded step KeepsRollables emptyTable es) :
    Always step RollableExact emptyTable es := by
  have holds : Always step
      (fun t => t.stagedRollable.val = rollables t.stagedWork ∧ CountFits t) emptyTable es := by
    apply always_of_guarded _ _ keeps
    · rintro t e next ⟨counter, fits⟩ meets taken
      have drift := step_drift t next e taken
      rw [lost_of_keeps t e meets] at drift
      exact ⟨by omega, step_fits t next e fits meets taken⟩
    · exact ⟨rfl, Nat.two_pow_pos 31⟩
  apply always_mono _ holds
  rintro t ⟨counter, fits⟩
  exact prefers_of_exact t counter fits

/-- A work that the pool allows to roll for a minute. -/
def minuteMaster : RollWork :=
  { makeWork with rolls := .zero, rolltime := 60, clone := false, mandatory := false, tvStaged := 0 }

def minuteClone : RollWork := { minuteMaster with clone := true, tvStaged := 5 }

/-- Refused by a frozen queue, only a clone is ever lost. -/
theorem rollable_count_exact_clone :
    Always step RollableExact emptyTable
      [.push false minuteMaster, .push true minuteClone, .discardStale fun work => work.clone,
        .pop false] :=
  rollable_count_exact _ (by decide +kernel)

/-- After one rollable work was deleted as stale the counter is one too high: a
master and a clone are staged, and two works count as rollable. -/
theorem discarded_master_counted :
    ¬∀ es : List Event, Always step RollableExact emptyTable es := by
  intro exact_always
  have ran : (run step emptyTable
      [.push false minuteMaster, .discardStale fun _ => true, .push false minuteMaster,
        .push false minuteClone]).map (fun t => (t.stagedWork, t.stagedRollable.val)) =
      some ([minuteMaster, minuteClone], 2) := by decide +kernel
  obtain ⟨t, reached, content⟩ := Option.map_eq_some_iff.mp ran
  have counted := (always_final (exact_always _) reached).counter
  obtain ⟨works, counter⟩ := Prod.mk.inj content
  rw [works, counter] at counted
  exact absurd counted (by decide)

end CgminerT4.Guarantees.RollableCount
