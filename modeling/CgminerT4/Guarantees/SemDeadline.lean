import CgminerT4.Source.SemWait
import Mathlib.Tactic.Ring

/-!
# The deadline of a timed wait

Every wait of _cgsem_mswait should end at the time of its call plus `ms`. The
addition stands behind the label `retry`, so each interruption moves the deadline
by the whole time since the epoch: the wait number `j` ends at `ms` plus `j + 1`
times the start. All waits share the deadline exactly when the first one is not
interrupted, or the call is made at the epoch itself.
-/
namespace CgminerT4.Guarantees.SemDeadline
open Library.SignedInt Source.WorkAdapt Source.SemWait

/-- A time as gettimeofday returns it. -/
structure StartTime (dm : DataModel) where
  tv : Timeval
  seconds : InLong dm tv.sec
  nonnegative : 0 ≤ tv.usec
  below : tv.usec < 1000000

variable {dm : DataModel}

/-- The start plus `ms` milliseconds, as seconds and nanoseconds below a second. -/
def deadline (start : StartTime dm) (ms : CInt) : Timespec :=
  let nanoseconds := start.tv.sec * 1000000000 + start.tv.usec * 1000 + ms.val * 1000000
  ⟨nanoseconds / 1000000000, nanoseconds % 1000000000⟩

/-- The wait is defined and each sem_timedwait is given the deadline. -/
def KeepsDeadline (start : StartTime dm) (ms : CInt) (outcomes : List Outcome) : Prop :=
  ∃ wait, cgsemMswait dm start.tv ms outcomes = some wait ∧
    ∀ d ∈ wait.deadlines, d = deadline start ms

def StartTime.AtEpoch (start : StartTime dm) : Prop := start.tv = ⟨0, 0⟩

/-! ## The waits of a call -/

/-- A wait begins with the addition and goes on behind an interruption alone. -/
theorem retry_cons (tsNow absTimeout : Timespec) (outcomes : List Outcome) (wait : Wait)
    (waited : retry dm tsNow outcomes absTimeout = some wait) :
    ∃ first, timeraddspec dm absTimeout tsNow = some first ∧
      ((outcomes.head? ≠ some .interrupted ∧ wait.deadlines = [first]) ∨
        ∃ rest later, outcomes = .interrupted :: rest ∧ retry dm tsNow rest first = some later ∧
          wait.deadlines = first :: later.deadlines) := by
  cases outcomes with
  | nil =>
    obtain ⟨first, added, rfl⟩ := Option.map_eq_some_iff.mp waited
    exact ⟨first, added, .inl ⟨by simp, rfl⟩⟩
  | cons ret rest =>
    obtain ⟨first, added, waited⟩ := Option.bind_eq_some_iff.mp waited
    refine ⟨first, added, ?_⟩
    cases ret with
    | interrupted =>
      obtain ⟨later, continued, rfl⟩ := Option.map_eq_some_iff.mp waited
      exact .inr ⟨rest, later, rfl, continued, rfl⟩
    | posted =>
      cases waited
      exact .inl ⟨by simp, rfl⟩
    | timedOut =>
      cases waited
      exact .inl ⟨by simp, rfl⟩
    | failed =>
      cases waited
      exact .inl ⟨by simp, rfl⟩

/-- Each wait adds the time of the call once more. -/
theorem retry_deadlines (tsNow absTimeout : Timespec) (outcomes : List Outcome) (wait : Wait)
    (waited : retry dm tsNow outcomes absTimeout = some wait) (j : Nat) (d : Timespec)
    (given : wait.deadlines[j]? = some d) :
    d.Normal dm ∧ d.nanoseconds = absTimeout.nanoseconds + (j + 1) * tsNow.nanoseconds := by
  induction j generalizing absTimeout outcomes wait with
  | zero =>
    obtain ⟨first, added, ending⟩ := retry_cons tsNow absTimeout outcomes wait waited
    obtain ⟨normal, sum⟩ := timeraddspec_some dm absTimeout tsNow first added
    have same : d = first := by
      rcases ending with ⟨_, only⟩ | ⟨_, _, _, _, more⟩
      · rw [only] at given
        exact (Option.some.inj given).symm
      · rw [more] at given
        exact (Option.some.inj given).symm
    rw [same]
    exact ⟨normal, by omega⟩
  | succ j ih =>
    obtain ⟨first, added, ⟨_, only⟩ | ⟨rest, later, _, continued, more⟩⟩ :=
      retry_cons tsNow absTimeout outcomes wait waited
    · rw [only] at given
      cases given
    · rw [more, List.getElem?_cons_succ] at given
      obtain ⟨normal, sum⟩ := ih first rest later continued given
      obtain ⟨_, firstSum⟩ := timeraddspec_some dm absTimeout tsNow first added
      refine ⟨normal, ?_⟩
      rw [sum, firstSum, Nat.cast_succ]
      ring

/-- An interrupted first wait is followed by a second one. -/
theorem retry_second (tsNow absTimeout : Timespec) (rest : List Outcome) (wait : Wait)
    (waited : retry dm tsNow (.interrupted :: rest) absTimeout = some wait) :
    ∃ first second, wait.deadlines[0]? = some first ∧ wait.deadlines[1]? = some second := by
  obtain ⟨first, _, ⟨other, _⟩ | ⟨_, later, _, continued, more⟩⟩ :=
    retry_cons tsNow absTimeout _ wait waited
  · exact absurd rfl other
  · obtain ⟨second, _, ⟨_, only⟩ | ⟨_, _, _, _, further⟩⟩ :=
      retry_cons tsNow first _ later continued
    · exact ⟨first, second, by rw [more]; rfl, by rw [more, only]; rfl⟩
    · exact ⟨first, second, by rw [more]; rfl, by rw [more, further]; rfl⟩

/-! ## The deadline of the call -/

theorem now_nanoseconds (start : StartTime dm) :
    (timevalToSpec start.tv).nanoseconds = start.tv.sec * 1000000000 + start.tv.usec * 1000 := rfl

theorem now_zero_iff (start : StartTime dm) :
    (timevalToSpec start.tv).nanoseconds = 0 ↔ start.AtEpoch := by
  have nonnegative := start.nonnegative
  have below := start.below
  rw [now_nanoseconds, StartTime.AtEpoch]
  constructor
  · intro zero
    have sec : start.tv.sec = 0 := by omega
    have usec : start.tv.usec = 0 := by omega
    exact congrArg₂ Timeval.mk sec usec
  · intro epoch
    rw [epoch]
    rfl

theorem msToTimespec_eq (ms : CInt) (nonnegative : 0 ≤ ms.val) :
    msToTimespec ms = ⟨ms.val / 1000, ms.val % 1000 * 1000000⟩ := by
  rw [msToTimespec, Int.tdiv_eq_ediv_of_nonneg nonnegative, Int.tmod_eq_emod_of_nonneg nonnegative]

theorem deadline_nanoseconds (start : StartTime dm) (ms : CInt) (nonnegative : 0 ≤ ms.val) :
    (deadline start ms).nanoseconds =
    (msToTimespec ms).nanoseconds + (timevalToSpec start.tv).nanoseconds := by
  rw [msToTimespec_eq ms nonnegative]
  unfold deadline timevalToSpec Timespec.nanoseconds
  dsimp only
  omega

/-- The deadline is a time when its seconds do not leave the type at the top. -/
theorem deadline_normal_iff (start : StartTime dm) (ms : CInt) (nonnegative : 0 ≤ ms.val) :
    (deadline start ms).Normal dm ↔ (deadline start ms).sec < 2 ^ dm.longValueBits := by
  constructor
  · intro normal
    exact normal.seconds.2
  · intro fits
    have lower := start.seconds.1
    have usec := start.nonnegative
    refine ⟨⟨?_, fits⟩, Int.emod_nonneg _ (by decide), Int.emod_lt_of_pos _ (by decide)⟩
    have later : start.tv.sec ≤ (deadline start ms).sec := by
      unfold deadline
      dsimp only
      omega
    omega

/-- The first addition of a call reaches the deadline when it is a time. -/
theorem first_deadline (start : StartTime dm) (ms : CInt) (nonnegative : 0 ≤ ms.val)
    (fits : (deadline start ms).Normal dm) :
    timeraddspec dm (msToTimespec ms) (timevalToSpec start.tv) = some (deadline start ms) := by
  have lower := start.seconds.1
  have usec := start.nonnegative
  have below := start.below
  have parts := msToTimespec_eq ms nonnegative
  obtain ⟨sum, added⟩ : ∃ sum, timeraddspec dm (msToTimespec ms) (timevalToSpec start.tv) =
      some sum := by
    have seconds := fits.seconds
    rw [parts]
    unfold InLong deadline at seconds
    unfold timevalToSpec
    refine timeraddspec_defined dm _ _ ?_ ?_ ?_ ?_ ⟨?_, ?_⟩ ⟨?_, ?_⟩ <;> dsimp only at * <;> omega
  obtain ⟨normal, total⟩ := timeraddspec_some dm _ _ _ added
  rw [added, Option.some.injEq]
  exact normal.ext fits (total.trans (deadline_nanoseconds start ms nonnegative).symm)

/-- At the epoch nothing is added. -/
theorem add_epoch (ts : Timespec) (normal : ts.Normal dm) :
    timeraddspec dm ts ⟨0, 0⟩ = some ts := by
  have nonnegative := normal.nonnegative
  have below := normal.below
  have nsec : InLong dm (ts.nsec + 0) := inLong_of_small dm _ (by omega) (by omega)
  rw [timeraddspec_eq dm ts ⟨0, 0⟩ (by rw [Int.add_zero]; exact normal.seconds) nsec, Int.add_zero,
    Int.add_zero]
  exact normalised_of_below dm ts normal.seconds nonnegative below

/-- A first wait that is not interrupted is the only one. -/
theorem retry_uninterrupted (tsNow absTimeout target : Timespec) (outcomes : List Outcome)
    (added : timeraddspec dm absTimeout tsNow = some target)
    (uninterrupted : outcomes.head? ≠ some .interrupted) :
    ∃ wait, retry dm tsNow outcomes absTimeout = some wait ∧ ∀ d ∈ wait.deadlines, d = target := by
  have single : ∀ d ∈ [target], d = target := fun d => List.mem_singleton.mp
  cases outcomes with
  | nil => exact ⟨⟨[target], none⟩, by rw [retry, added]; rfl, single⟩
  | cons ret outcomes =>
    rw [retry, added, Option.bind_some]
    cases ret with
    | posted => exact ⟨_, rfl, single⟩
    | timedOut => exact ⟨_, rfl, single⟩
    | failed => exact ⟨_, rfl, single⟩
    | interrupted => exact absurd rfl uninterrupted

/-- From a time on, every wait of a call at the epoch ends at it. -/
theorem retry_epoch (outcomes : List Outcome) (absTimeout target : Timespec)
    (added : timeraddspec dm absTimeout ⟨0, 0⟩ = some target) (normal : target.Normal dm) :
    ∃ wait, retry dm ⟨0, 0⟩ outcomes absTimeout = some wait ∧ ∀ d ∈ wait.deadlines, d = target := by
  induction outcomes generalizing absTimeout with
  | nil => exact retry_uninterrupted _ _ target [] added (by simp)
  | cons ret outcomes ih =>
    by_cases again : ret = .interrupted
    · obtain ⟨wait, waited, all⟩ := ih target (add_epoch target normal)
      refine ⟨⟨target :: wait.deadlines, wait.returned⟩, ?_, List.forall_mem_cons.mpr ⟨rfl, all⟩⟩
      rw [retry, added, again, Option.bind_some]
      dsimp only
      rw [waited]
      rfl
    · exact retry_uninterrupted _ _ target (ret :: outcomes) added (by simpa using again)

/-- A wait of one second at 1700000000 s that a signal interrupts once. -/
def autumn : StartTime .lp64 := ⟨⟨1700000000, 0⟩, by decide, by decide, by decide⟩

def oneSecond : CInt := ⟨1000, by decide, by decide⟩

/-- All waits of a call share its deadline exactly when the deadline is a time and the
first wait is not interrupted, or the call is made at the epoch. -/
theorem deadline_kept_iff (start : StartTime dm) (ms : CInt) (nonnegative : 0 ≤ ms.val)
    (outcomes : List Outcome) :
    KeepsDeadline start ms outcomes ↔
      (deadline start ms).sec < 2 ^ dm.longValueBits ∧
        (outcomes.head? ≠ some .interrupted ∨ start.AtEpoch) := by
  rw [← deadline_normal_iff start ms nonnegative]
  constructor
  · rintro ⟨wait, waited, all⟩
    have given : ∀ j d, wait.deadlines[j]? = some d → d = deadline start ms := fun j d there =>
      all d (List.mem_of_getElem? there)
    have spec := retry_deadlines _ _ outcomes wait waited
    constructor
    · obtain ⟨first, _, ending⟩ := retry_cons _ _ outcomes wait waited
      have there : wait.deadlines[0]? = some first := by
        rcases ending with ⟨_, only⟩ | ⟨_, _, _, _, more⟩
        · rw [only]
          rfl
        · rw [more]
          rfl
      rw [← given 0 first there]
      exact (spec 0 first there).1
    · by_cases interrupted : outcomes.head? = some .interrupted
      · obtain ⟨rest, rfl⟩ := List.head?_eq_some_iff.mp interrupted
        obtain ⟨first, second, zero, one⟩ := retry_second _ _ rest wait waited
        have firstTotal := (spec 0 first zero).2
        have secondTotal := (spec 1 second one).2
        rw [given 0 first zero] at firstTotal
        rw [given 1 second one] at secondTotal
        refine .inr ((now_zero_iff start).mp ?_)
        push_cast at firstTotal secondTotal
        omega
      · exact .inl interrupted
  · rintro ⟨fits, kept⟩
    have added := first_deadline start ms nonnegative fits
    rcases kept with uninterrupted | epoch
    · exact retry_uninterrupted _ _ _ outcomes added uninterrupted
    · have now : timevalToSpec start.tv = ⟨0, 0⟩ := by
        rw [epoch]
        rfl
      rw [now] at added
      obtain ⟨wait, waited, all⟩ := retry_epoch outcomes _ _ added fits
      exact ⟨wait, by rw [cgsemMswait, now]; exact waited, all⟩

theorem deadline_kept_iff_autumn :
    0 ≤ oneSecond.val ∧ (KeepsDeadline autumn oneSecond [.posted] ↔
      (deadline autumn oneSecond).sec < 2 ^ DataModel.lp64.longValueBits ∧
        ([Outcome.posted].head? ≠ some .interrupted ∨ autumn.AtEpoch)) :=
  ⟨by decide, deadline_kept_iff autumn oneSecond (by decide) [.posted]⟩

/-- The second wait of the interrupted call ends 1700000000 s late. -/
theorem deadline_moved :
    (∃ wait, cgsemMswait .lp64 autumn.tv oneSecond [.interrupted, .posted] = some wait ∧
        wait.deadlines = [⟨1700000001, 0⟩, ⟨3400000001, 0⟩]) ∧
      ¬ ∀ (start : StartTime .lp64) (ms : CInt), 0 ≤ ms.val →
        ∀ outcomes, KeepsDeadline start ms outcomes := by
  have first : timeraddspec .lp64 ⟨1, 0⟩ ⟨1700000000, 0⟩ = some ⟨1700000001, 0⟩ := by
    rw [timeraddspec_eq _ _ _ (by decide) (by decide)]
    decide
  have second : timeraddspec .lp64 ⟨1700000001, 0⟩ ⟨1700000000, 0⟩ = some ⟨3400000001, 0⟩ := by
    rw [timeraddspec_eq _ _ _ (by decide) (by decide)]
    decide
  have start : msToTimespec oneSecond = ⟨1, 0⟩ := by decide
  have now : timevalToSpec autumn.tv = ⟨1700000000, 0⟩ := by decide
  have run : cgsemMswait .lp64 autumn.tv oneSecond [.interrupted, .posted] =
      some ⟨[⟨1700000001, 0⟩, ⟨3400000001, 0⟩], some .success⟩ := by
    rw [cgsemMswait, start, now, retry, first, Option.bind_some]
    dsimp only
    rw [retry, second]
    rfl
  refine ⟨⟨_, run, rfl⟩, fun kept => ?_⟩
  obtain ⟨wait, waited, all⟩ := kept autumn oneSecond (by decide) [.interrupted, .posted]
  rw [run, Option.some.injEq] at waited
  have late := all ⟨3400000001, 0⟩ (by rw [← waited]; simp)
  exact absurd late (by decide)

end CgminerT4.Guarantees.SemDeadline
