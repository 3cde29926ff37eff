import CgminerT4.Library.SignedInt
import CgminerT4.Source.WorkAdapt

/-!
# The timed wait on a semaphore (util.c)

_cgsem_mswait adds the time of its call to `abs_timeout` and gives the sum to
sem_timedwait. A wait that a signal interrupts goes back to `retry`, in front of
the addition. The seconds are a signed time_t, as wide as a long; a sum that
leaves it is undefined and has no result.
-/
namespace CgminerT4.Source.SemWait
open Library.SignedInt WorkAdapt

structure Timespec where
  sec : Int
  nsec : Int
  deriving DecidableEq, Repr

/-- The values of a long. -/
def InLong (dm : DataModel) (n : Int) : Prop := -2 ^ dm.longValueBits ≤ n ∧ n < 2 ^ dm.longValueBits

instance (dm : DataModel) (n : Int) : Decidable (InLong dm n) := by
  unfold InLong
  infer_instance

/-- A sum of two longs. -/
def longSum (dm : DataModel) (a b : Int) : Option Int :=
  if InLong dm (a + b) then some (a + b) else none

/-- The microseconds are below a second, so the product is a long. -/
def timevalToSpec (val : Timeval) : Timespec := ⟨val.sec, val.usec * 1000⟩

/-- `ms_to_timespec` of an int, whose quotient and remainder are longs. -/
def msToTimespec (ms : CInt) : Timespec := ⟨ms.val.tdiv 1000, ms.val.tmod 1000 * 1000000⟩

/-- The first loop of spec_nscheck. -/
def carrySeconds (dm : DataModel) (ts : Timespec) : Option Timespec :=
  if 1000000000 ≤ ts.nsec then
    (longSum dm ts.sec 1).bind fun sec => carrySeconds dm ⟨sec, ts.nsec - 1000000000⟩
  else some ts
termination_by ts.nsec.toNat

/-- The second loop of spec_nscheck. -/
def borrowSeconds (dm : DataModel) (ts : Timespec) : Option Timespec :=
  if ts.nsec < 0 then
    (longSum dm ts.sec (-1)).bind fun sec => borrowSeconds dm ⟨sec, ts.nsec + 1000000000⟩
  else some ts
termination_by (-ts.nsec).toNat

def specNscheck (dm : DataModel) (ts : Timespec) : Option Timespec :=
  (carrySeconds dm ts).bind (borrowSeconds dm)

def timeraddspec (dm : DataModel) (a b : Timespec) : Option Timespec :=
  (longSum dm a.sec b.sec).bind fun sec =>
    (longSum dm a.nsec b.nsec).bind fun nsec => specNscheck dm ⟨sec, nsec⟩

/-- How a sem_timedwait ends: 0, ETIMEDOUT, EINTR or another error. -/
inductive Outcome where
  | posted
  | timedOut
  | interrupted
  | failed
  deriving DecidableEq, Repr

inductive Return where
  | success
  | etimedout
  | quit
  deriving DecidableEq, Repr

/-- The deadlines that were waited for, and the result once the last wait has ended. -/
structure Wait where
  deadlines : List Timespec
  returned : Option Return
  deriving DecidableEq, Repr

/-- The code from `retry` on, while sem_timedwait ends as listed. -/
def retry (dm : DataModel) (tsNow : Timespec) : List Outcome → Timespec → Option Wait
  | [], absTimeout => (timeraddspec dm absTimeout tsNow).map fun absTimeout => ⟨[absTimeout], none⟩
  | ret :: outcomes, absTimeout =>
    (timeraddspec dm absTimeout tsNow).bind fun absTimeout =>
      match ret with
      | .posted => some ⟨[absTimeout], some .success⟩
      | .timedOut => some ⟨[absTimeout], some .etimedout⟩
      | .failed => some ⟨[absTimeout], some .quit⟩
      | .interrupted =>
        (retry dm tsNow outcomes absTimeout).map fun wait =>
          ⟨absTimeout :: wait.deadlines, wait.returned⟩

def cgsemMswait (dm : DataModel) (tvNow : Timeval) (ms : CInt) (outcomes : List Outcome) :
    Option Wait :=
  retry dm (timevalToSpec tvNow) outcomes (msToTimespec ms)

/-! ## The addition -/

def Timespec.nanoseconds (ts : Timespec) : Int := ts.sec * 1000000000 + ts.nsec

/-- Seconds that are a time_t, nanoseconds below a second. -/
structure Timespec.Normal (dm : DataModel) (ts : Timespec) : Prop where
  seconds : InLong dm ts.sec
  nonnegative : 0 ≤ ts.nsec
  below : ts.nsec < 1000000000

/-- A time has one normal form. -/
theorem Timespec.Normal.ext {dm : DataModel} {a b : Timespec} (normalA : a.Normal dm)
    (normalB : b.Normal dm) (same : a.nanoseconds = b.nanoseconds) : a = b := by
  obtain ⟨_, _, _⟩ := normalA
  obtain ⟨_, _, _⟩ := normalB
  unfold nanoseconds at same
  cases a
  cases b
  simp only [mk.injEq] at *
  omega

theorem longSum_of_fits (dm : DataModel) (a b : Int) (fits : InLong dm (a + b)) :
    longSum dm a b = some (a + b) :=
  if_pos fits

/-- Either long holds 31 bits. -/
theorem inLong_of_small (dm : DataModel) (n : Int) (nonnegative : 0 ≤ n) (small : n < 2 ^ 31) :
    InLong dm n := by
  unfold InLong
  cases dm with
  | ilp32 =>
    simp only [DataModel.longValueBits]
    omega
  | lp64 =>
    simp only [DataModel.longValueBits]
    omega

/-- Whole seconds in the nanoseconds are carried, when their sum is a time_t. -/
def normalised (dm : DataModel) (ts : Timespec) : Option Timespec :=
  if InLong dm (ts.sec + ts.nsec / 1000000000) then
    some ⟨ts.sec + ts.nsec / 1000000000, ts.nsec % 1000000000⟩
  else none

/-- A second between the parts makes no difference. -/
theorem normalised_shift (dm : DataModel) (ts : Timespec) (k : Int) :
    normalised dm ⟨ts.sec + k, ts.nsec - k * 1000000000⟩ = normalised dm ts := by
  have sec : ts.sec + k + (ts.nsec - k * 1000000000) / 1000000000 =
    ts.sec + ts.nsec / 1000000000 := by omega
  have nsec : (ts.nsec - k * 1000000000) % 1000000000 = ts.nsec % 1000000000 := by omega
  unfold normalised
  rw [sec, nsec]

theorem normalised_of_below (dm : DataModel) (ts : Timespec) (seconds : InLong dm ts.sec)
    (nonnegative : 0 ≤ ts.nsec) (below : ts.nsec < 1000000000) : normalised dm ts = some ts := by
  unfold normalised
  rw [Int.ediv_eq_zero_of_lt nonnegative below, Int.add_zero, Int.emod_eq_of_lt nonnegative below,
    if_pos seconds]

theorem carrySeconds_eq (dm : DataModel) (ts : Timespec) (seconds : InLong dm ts.sec)
    (nonnegative : 0 ≤ ts.nsec) :
    carrySeconds dm ts = normalised dm ts := by
  fun_induction carrySeconds dm ts with
  | case1 ts large ih =>
    by_cases fits : InLong dm (ts.sec + 1)
    · rw [longSum_of_fits dm _ _ fits, Option.bind_some, ih _ fits (by dsimp only; omega)]
      exact normalised_shift dm ts 1
    · -- the seconds only grow from here on
      have outside : ¬ InLong dm (ts.sec + ts.nsec / 1000000000) := by
        unfold InLong at *
        omega
      rw [longSum, if_neg fits, Option.bind_none, normalised, if_neg outside]
  | case2 ts small => exact (normalised_of_below dm ts seconds nonnegative (by omega)).symm

theorem borrowSeconds_eq (dm : DataModel) (ts : Timespec) (seconds : InLong dm ts.sec)
    (below : ts.nsec < 1000000000) :
    borrowSeconds dm ts = normalised dm ts := by
  fun_induction borrowSeconds dm ts with
  | case1 ts negative ih =>
    by_cases fits : InLong dm (ts.sec + -1)
    · rw [longSum_of_fits dm _ _ fits, Option.bind_some, ih _ fits (by dsimp only; omega)]
      exact normalised_shift dm ts (-1)
    · have outside : ¬ InLong dm (ts.sec + ts.nsec / 1000000000) := by
        unfold InLong at *
        omega
      rw [longSum, if_neg fits, Option.bind_none, normalised, if_neg outside]
  | case2 ts nonnegative => exact (normalised_of_below dm ts seconds (by omega) below).symm

/-- spec_nscheck on every time whose seconds are a time_t. -/
theorem specNscheck_eq (dm : DataModel) (ts : Timespec) (seconds : InLong dm ts.sec) :
    specNscheck dm ts = normalised dm ts := by
  unfold specNscheck
  by_cases nonnegative : 0 ≤ ts.nsec
  · rw [carrySeconds_eq dm ts seconds nonnegative]
    unfold normalised
    split
    · rename_i fits
      rw [Option.bind_some, borrowSeconds_eq dm _ fits (by dsimp only; omega)]
      exact normalised_of_below dm _ fits (by dsimp only; omega) (by dsimp only; omega)
    · rfl
  · have same : carrySeconds dm ts = some ts := by
      rw [carrySeconds, if_neg (by omega)]
    rw [same, Option.bind_some, borrowSeconds_eq dm ts seconds (by omega)]

theorem longSum_eq_some (dm : DataModel) (a b n : Int) (sum : longSum dm a b = some n) :
    InLong dm (a + b) ∧ n = a + b := by
  unfold longSum at sum
  split at sum
  · rename_i fits
    exact ⟨fits, (Option.some.inj sum).symm⟩
  · cases sum

/-- The addition of two times whose parts add up to longs. -/
theorem timeraddspec_eq (dm : DataModel) (a b : Timespec) (seconds : InLong dm (a.sec + b.sec))
    (nanoseconds : InLong dm (a.nsec + b.nsec)) :
    timeraddspec dm a b = normalised dm ⟨a.sec + b.sec, a.nsec + b.nsec⟩ := by
  rw [timeraddspec, longSum_of_fits dm _ _ seconds, Option.bind_some,
    longSum_of_fits dm _ _ nanoseconds, Option.bind_some, specNscheck_eq dm _ seconds]

theorem normalised_some (dm : DataModel) (ts out : Timespec)
    (carried : normalised dm ts = some out) :
    out.Normal dm ∧ out.nanoseconds = ts.nanoseconds := by
  unfold normalised at carried
  split at carried
  · rename_i fits
    cases carried
    refine ⟨⟨fits, Int.emod_nonneg _ (by decide), Int.emod_lt_of_pos _ (by decide)⟩, ?_⟩
    unfold Timespec.nanoseconds
    dsimp only
    omega
  · cases carried

/-- A sum that is defined is the sum of the times, in normal form. -/
theorem timeraddspec_some (dm : DataModel) (a b sum : Timespec)
    (added : timeraddspec dm a b = some sum) :
    sum.Normal dm ∧ sum.nanoseconds = a.nanoseconds + b.nanoseconds := by
  obtain ⟨sec, sumSec, rest⟩ := Option.bind_eq_some_iff.mp added
  obtain ⟨nsec, sumNsec, _⟩ := Option.bind_eq_some_iff.mp rest
  rw [timeraddspec_eq dm a b (longSum_eq_some dm _ _ _ sumSec).1
    (longSum_eq_some dm _ _ _ sumNsec).1] at added
  obtain ⟨normal, total⟩ := normalised_some dm _ sum added
  refine ⟨normal, total.trans ?_⟩
  unfold Timespec.nanoseconds
  dsimp only
  omega

/-- The sum of two times below a second each is defined when it is a time_t. -/
theorem timeraddspec_defined (dm : DataModel) (a b : Timespec) (nonnegativeA : 0 ≤ a.nsec)
    (belowA : a.nsec < 1000000000) (nonnegativeB : 0 ≤ b.nsec) (belowB : b.nsec < 1000000000)
    (seconds : InLong dm (a.sec + b.sec))
    (fits : InLong dm (a.sec + b.sec + (a.nsec + b.nsec) / 1000000000)) :
    ∃ sum, timeraddspec dm a b = some sum := by
  have nsec : InLong dm (a.nsec + b.nsec) := inLong_of_small dm _ (by omega) (by omega)
  refine ⟨⟨a.sec + b.sec + (a.nsec + b.nsec) / 1000000000, (a.nsec + b.nsec) % 1000000000⟩, ?_⟩
  rw [timeraddspec_eq dm a b seconds nsec, normalised, if_pos fits]

end CgminerT4.Source.SemWait
