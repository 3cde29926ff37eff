import CgminerT4.Library.Runs
import CgminerT4.Source.WorkRoll
import Mathlib.Data.List.Nodup

/-!
# The clones of a master

Relative to the master as it first was, every clone is handed out at an offset
of its ntime below the one the master is left at, and at a larger one than all
clones before it. As many offsets as an int can count rolls stay apart modulo
2^32.
-/
namespace CgminerT4.Guarantees.CloneDistinct
open Library.Runs Library.SignedInt Source.WorkRoll

/-- The master and all that clone_work made of it: staged, or returned in its place. -/
structure Cloning where
  master : RollWork
  handedOut : List RollWork

/-- clone_work on the master popped from the table, and its staging by a caller
that got it back. -/
inductive Event where
  | cloneWork (miningThreads maxQueue totalStaged : Int) (rounds : Nat → Round)
  | stage

def step (s : Cloning) : Event → Option Cloning
  | .cloneWork miningThreads maxQueue totalStaged rounds =>
    (cloneWork s.master miningThreads maxQueue totalStaged rounds).map fun call =>
      { master := call.master, handedOut := s.handedOut ++ call.staged ++ call.returned.toList }
  | .stage => some { s with master := stageWork s.master }

def dataNtime (work : RollWork) : UInt32 := workNtime work.data

/-- No two works that were handed out, nor the master, carry one ntime. -/
def NtimesDistinct (s : Cloning) : Prop := ((s.handedOut ++ [s.master]).map dataNtime).Nodup

variable (start : RollWork)

/-- A work whose ntime lies `k` seconds behind that of the first master. -/
def AtOffset (k : Nat) (work : RollWork) : Prop := dataNtime work = dataNtime start + UInt32.ofNat k

/-- Works handed out at increasing offsets below `bound`. -/
inductive Issued : Nat → List RollWork → Prop
  | none (bound : Nat) : Issued bound []
  | snoc (bound k next : Nat) (works : List RollWork) (work : RollWork)
    (earlier : Issued bound works)
      (later : bound ≤ k) (below : k < next) (offset : AtOffset start k work) :
      Issued next (works ++ [work])

variable {start}

theorem Issued.mono {bound next : Nat} {works : List RollWork} (issued : Issued start bound works)
    (later : bound ≤ next) : Issued start next works := by
  cases issued with
  | none => exact .none next
  | snoc bound k _ works work earlier after below offset =>
    exact .snoc bound k next works work earlier after (Nat.lt_of_lt_of_le below later) offset

theorem ofNat_offset_inj (n : UInt32) (j k : Nat) (bounds : j < 2 ^ 32 ∧ k < 2 ^ 32)
    (same : n + UInt32.ofNat j = n + UInt32.ofNat k) : j = k := by
  have low : UInt32.ofNat j = UInt32.ofNat k := by simpa using same
  have numbers := congrArg UInt32.toNat low
  rw [UInt32.toNat_ofNat_of_lt' bounds.1, UInt32.toNat_ofNat_of_lt' bounds.2] at numbers
  exact numbers

theorem Issued.offset_below {bound : Nat} {works : List RollWork}
    (issued : Issued start bound works) :
    ∀ work ∈ works, ∃ k < bound, AtOffset start k work := by
  induction issued with
  | none bound => exact fun _ member => absurd member List.not_mem_nil
  | snoc bound k next works last earlier later below offset ih =>
    intro work member
    rcases List.mem_append.mp member with old | new
    · obtain ⟨j, before, at_j⟩ := ih work old
      exact ⟨j, by omega, at_j⟩
    · cases List.mem_singleton.mp new
      exact ⟨k, below, offset⟩

theorem Issued.distinct {bound : Nat} {works : List RollWork} (issued : Issued start bound works)
    (fits : bound ≤ 2 ^ 32) : (works.map dataNtime).Nodup := by
  induction issued with
  | none bound => exact List.nodup_nil
  | snoc bound k next works last earlier later below offset ih =>
    rw [List.map_append, List.map_singleton]
    apply List.Nodup.append (ih (by omega)) (List.nodup_singleton _)
    intro ntime old new
    obtain ⟨work, member, rfl⟩ := List.mem_map.mp old
    obtain ⟨j, before, at_j⟩ := earlier.offset_below work member
    have same : dataNtime start + UInt32.ofNat j = dataNtime start + UInt32.ofNat k := by
      rw [← at_j, ← offset]
      exact List.mem_singleton.mp new
    have equal := ofNat_offset_inj _ j k ⟨by omega, by omega⟩ same
    omega

/-- The master after `k` rolls, with everything handed out behind it. -/
structure Ahead (start : RollWork) (k : Nat) (master : RollWork) (works : List RollWork) :
    Prop where
  offset : AtOffset start k master
  rolls : master.rolls.val = start.rolls.val + k
  issued : Issued start k works

theorem rollWork_ahead (k : Nat) (work rolled : RollWork) (offset : AtOffset start k work)
    (rolls : work.rolls.val = start.rolls.val + k) (done : rollWork work = some rolled) :
    AtOffset start (k + 1) rolled ∧ rolled.rolls.val = start.rolls.val + (k + 1 : Nat) := by
  obtain ⟨data, count, _⟩ := rollWorkNtime_spec work rolled 1 done
  refine ⟨?_, by omega⟩
  unfold AtOffset dataNtime at offset ⊢
  rw [data, workNtime_setNtime, offset, UInt32.add_assoc]
  congr 1
  rw [UInt32.ofNat_add]
  rfl

theorem stageWork_offset (k : Nat) (work : RollWork) (offset : AtOffset start k work) :
    AtOffset start k (stageWork work) := by
  unfold AtOffset dataNtime at offset ⊢
  rw [stageWork_data, offset]

theorem makeClone_offset (k : Nat) (work workClone : RollWork) (offset : AtOffset start k work)
    (done : makeClone work = some workClone) : AtOffset start k workClone := by
  obtain ⟨made, same, data, _⟩ := makeClone_spec work
  rw [done] at same
  cases same
  unfold AtOffset dataNtime at offset ⊢
  rw [data, offset]

/-- The loop of clone_work: the master at offset `k`, the last clone at `c`. -/
structure Looping (start : RollWork) (works : List RollWork) (k c : Nat) (s : CloneState) :
    Prop where
  master : AtOffset start k s.work
  rolls : s.work.rolls.val = start.rolls.val + k
  clone : AtOffset start c s.workClone
  notAhead : c ≤ k
  behind : s.cloned = true → c < k
  untouched : s.cloned = false → s.staged = []
  issued : Issued start c (works ++ s.staged)

theorem cloneRound_looping (works : List RollWork) (k c : Nat) (s next : CloneState)
    (looping : Looping start works k c s) (done : cloneRound s = some next) :
    Looping start works (k + 2) (k + 1) next := by
  obtain ⟨rolled, first, rest⟩ := Option.bind_eq_some_iff.mp done
  obtain ⟨workClone, made, rest⟩ := Option.bind_eq_some_iff.mp rest
  obtain ⟨work, second, rfl⟩ := Option.map_eq_some_iff.mp rest
  obtain ⟨atFirst, rollsFirst⟩ := rollWork_ahead k s.work rolled looping.master looping.rolls first
  obtain ⟨atSecond, rollsSecond⟩ := rollWork_ahead (k + 1) rolled work atFirst rollsFirst second
  have staged := stageWork_offset c s.workClone looping.clone
  have order := looping.notAhead
  constructor
  · exact atSecond
  · exact rollsSecond
  · exact makeClone_offset (k + 1) rolled workClone atFirst made
  · exact Nat.le_succ (k + 1)
  · exact fun _ => Nat.lt_succ_self (k + 1)
  · exact fun never => absurd never (by simp)
  · rw [← List.append_assoc]
    exact .snoc c c (k + 1) _ _ looping.issued (Nat.le_refl c) (by omega) staged

theorem cloneRounds_looping (works : List RollWork) (rounds : Nat → Round) (mrs i : Nat)
    (s out : CloneState) (k c : Nat) (looping : Looping start works k c s)
    (done : cloneRounds rounds mrs i s = some out) :
    ∃ k' c', Looping start works k' c' out := by
  induction mrs generalizing i s k c with
  | zero =>
    cases done
    exact ⟨k, c, looping⟩
  | succ mrs ih =>
    unfold cloneRounds at done
    split at done
    · obtain ⟨next, round, rest⟩ := Option.bind_eq_some_iff.mp done
      exact ih (i + 1) next (k + 2) (k + 1) (cloneRound_looping works k c s next looping round) rest
    · cases done
      exact ⟨k, c, looping⟩

/-- One call: the clones are handed out ahead of all earlier ones, and the
master stays ahead of them. -/
theorem cloneWork_ahead (k : Nat) (works : List RollWork) (work : RollWork)
    (miningThreads maxQueue totalStaged : Int) (rounds : Nat → Round) (call : CloneCall)
    (ahead : Ahead start k work works)
    (done : cloneWork work miningThreads maxQueue totalStaged rounds = some call) :
    ∃ k', Ahead start k' call.master (works ++ call.staged ++ call.returned.toList) := by
  unfold cloneWork at done
  dsimp only at done
  split at done
  · cases done
    refine ⟨k, ahead.offset, ahead.rolls, ?_⟩
    simpa using ahead.issued
  · obtain ⟨workClone, made, rest⟩ := Option.bind_eq_some_iff.mp done
    obtain ⟨s, looped, result⟩ := Option.map_eq_some_iff.mp rest
    have enter : Looping start works k k { work, workClone, cloned := false, staged := [] } := by
      constructor
      · exact ahead.offset
      · exact ahead.rolls
      · exact makeClone_offset k work workClone ahead.offset made
      · exact Nat.le_refl k
      · exact fun never => absurd never (by simp)
      · exact fun _ => rfl
      · simpa using ahead.issued
    obtain ⟨k', c, leave⟩ := cloneRounds_looping works rounds _ 0 _ s k k enter looped
    split at result
    · next cloned =>
      subst result
      refine ⟨k', stageWork_offset k' s.work leave.master, ?_, ?_⟩
      · rw [stageWork_rolls]
        exact leave.rolls
      · exact .snoc c c k' _ _ leave.issued (Nat.le_refl c) (leave.behind cloned) leave.clone
    · next kept =>
      subst result
      refine ⟨k', leave.master, leave.rolls, ?_⟩
      have issued := leave.issued.mono leave.notAhead
      simpa using issued

theorem step_ahead (k : Nat) (s next : Cloning) (e : Event)
    (ahead : Ahead start k s.master s.handedOut) (taken : step s e = some next) :
    ∃ k', Ahead start k' next.master next.handedOut := by
  cases e with
  | cloneWork miningThreads maxQueue totalStaged rounds =>
    obtain ⟨call, done, rfl⟩ := Option.map_eq_some_iff.mp taken
    exact cloneWork_ahead k s.handedOut s.master _ _ _ rounds call ahead done
  | stage =>
    cases taken
    refine ⟨k, stageWork_offset k s.master ahead.offset, ?_, ahead.issued⟩
    rw [stageWork_rolls]
    exact ahead.rolls

/-- Both counts of rolls are ints, so fewer than 2^32 seconds lie between them. -/
theorem ntimes_distinct_of_ahead (k : Nat) (s : Cloning)
    (ahead : Ahead start k s.master s.handedOut) :
    NtimesDistinct s := by
  have lower := start.rolls.lower
  have upper := s.master.rolls.upper
  have rolls := ahead.rolls
  have all : Issued start (k + 1) (s.handedOut ++ [s.master]) :=
    .snoc k k (k + 1) _ _ ahead.issued (Nat.le_refl k) (Nat.lt_succ_self k) ahead.offset
  exact all.distinct (by omega)

theorem clones_never_duplicated (master : RollWork) (es : List Event) :
    Always step NtimesDistinct { master, handedOut := [] } es := by
  have holds : Always step (fun s => ∃ k, Ahead master k s.master s.handedOut)
      { master, handedOut := [] } es := by
    apply always_of_invariant
    · rintro s e next ⟨k, ahead⟩ taken
      exact step_ahead k s next e ahead taken
    · refine ⟨0, ?_, ?_, .none 0⟩
      · exact (UInt32.add_zero _).symm
      · simp
  apply always_mono _ holds
  rintro s ⟨k, ahead⟩
  exact ntimes_distinct_of_ahead k s ahead

end CgminerT4.Guarantees.CloneDistinct
