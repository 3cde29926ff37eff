import CgminerT4.Library.SignedInt
import CgminerT4.Source.Hex
import CgminerT4.Source.WorkItem

/-!
# Rolling and copying work (cgminer.c)

A work keeps its ntime twice: four bytes of `data` in big-endian order and, for
stratum and solo work, the string that is submitted. Each function below updates
the two by itself. The string is a heap copy of exactly its own length, so text
that does not give hex2bin four bytes is read from uninitialised memory or
written behind its end, which has no result. The unique id, the counters of
local work and the timestamps other than the second a work was staged in are
left out.
-/
namespace CgminerT4.Source.WorkRoll
open Library.ByteString Library.SignedInt Hex WorkItem

/-- The fields of struct work that rolling, cloning and staging use besides those
of `Work`. -/
structure RollWork extends Work where
  rolls : CInt
  rolltime : Int
  clone : Bool
  mandatory : Bool
  tvStaged : Int
  deriving DecidableEq

def be32toh (bin : Bytes) : UInt32 := UInt32.ofNat (ofLittleEndian bin.reverse)

def htobe32 (h32 : UInt32) : Bytes := (littleEndian 4 h32.toNat).reverse

/-- The number at `work->data + 68`. -/
def workNtime (data : Buffer 128) : UInt32 := be32toh ((data.bytes.drop 68).take 4)

@[simp] theorem length_htobe32 (h32 : UInt32) : (htobe32 h32).length = 4 := by simp [htobe32]

/-- `*work_ntime = htobe32(ntime)`. -/
def setNtime (data : Buffer 128) (ntime : UInt32) : Buffer 128 :=
  ⟨overwrite data.bytes 68 (htobe32 ntime), by
    rw [length_overwrite _ _ _ (by rw [length_htobe32, data.length_eq]; decide), data.length_eq]⟩

theorem be32toh_htobe32 (h32 : UInt32) : be32toh (htobe32 h32) = h32 := by
  have bound : h32.toNat < 256 ^ 4 := h32.toNat_lt
  rw [be32toh, htobe32, List.reverse_reverse, ofLittleEndian_littleEndian, Nat.mod_eq_of_lt bound]
  exact UInt32.ofNat_toNat

theorem slice_setNtime (data : Buffer 128) (ntime : UInt32) :
    ((setNtime data ntime).bytes.drop 68).take 4 = htobe32 ntime := by
  have written := slice_overwrite_same data.bytes (htobe32 ntime) 68
    (by rw [length_htobe32, data.length_eq]; decide)
  rw [length_htobe32] at written
  exact written

@[simp] theorem workNtime_setNtime (data : Buffer 128) (ntime : UInt32) :
    workNtime (setNtime data ntime) = ntime := by
  rw [workNtime, slice_setNtime, be32toh_htobe32]

/-- offset_ntime, and the string modify_ntime leaves in place. -/
def offsetNtime (ntime : Bytes) (noffset : Int) : Option Bytes :=
  let bin := (hex2bin ntime 4).1
  if bin.length = 4 then some (bin2hex (htobe32 (be32toh bin + UInt32.ofInt noffset))) else none

/-- The string of a work next to an adjustment of the binary ntime. -/
def offsetString : Option Bytes → Int → Option (Option Bytes)
  | none, _ => some none
  | some ntime, noffset => (offsetNtime ntime noffset).map some

def rollWorkNtime (work : RollWork) (noffset : Int) : Option RollWork :=
  (work.rolls.add noffset).bind fun rolls =>
    (offsetString work.ntime noffset).map fun ntime =>
      { work with
        data := setNtime work.data (workNtime work.data + UInt32.ofInt noffset)
        rolls
        nonce := 0
        ntime }

def rollWork (work : RollWork) : Option RollWork := rollWorkNtime work 1

/-- All that rolling does, to the binary ntime and to the string. -/
theorem rollWorkNtime_spec (work next : RollWork) (noffset : Int)
    (rolled : rollWorkNtime work noffset = some next) :
    next.data = setNtime work.data (workNtime work.data + UInt32.ofInt noffset) ∧
      next.rolls.val = work.rolls.val + noffset ∧
      offsetString work.ntime noffset = some next.ntime := by
  obtain ⟨rolls, added, rest⟩ := Option.bind_eq_some_iff.mp rolled
  obtain ⟨ntime, adjusted, rfl⟩ := Option.map_eq_some_iff.mp rest
  exact ⟨rfl, CInt.add_eq_some _ _ _ added, adjusted⟩

/-- _copy_work over a fresh work. -/
def copyWorkNoffset (baseWork : RollWork) (noffset : Int) : Option RollWork :=
  if noffset = 0 then some baseWork
  else
    (offsetString baseWork.ntime noffset).map fun ntime =>
      { baseWork with
        data := setNtime baseWork.data (workNtime baseWork.data + UInt32.ofInt noffset)
        ntime }

def copyWork (baseWork : RollWork) : Option RollWork := copyWorkNoffset baseWork 0

def makeClone (work : RollWork) : Option RollWork :=
  (copyWork work).map fun workClone =>
    { workClone with
      clone := true
      longpoll := false
      mandatory := false
      tvStaged := workClone.tvStaged - 1 }

@[simp] theorem copyWork_eq (work : RollWork) : copyWork work = some work := by
  unfold copyWork copyWorkNoffset
  rw [if_pos rfl]

/-- A clone hashes the header that its master holds at that moment. -/
theorem makeClone_spec (work : RollWork) :
    ∃ workClone, makeClone work = some workClone ∧ workClone.data = work.data ∧
      workClone.ntime = work.ntime := by
  unfold makeClone
  rw [copyWork_eq]
  exact ⟨_, rfl, rfl, rfl⟩

def setWorkNtime (work : RollWork) (ntime : Int) : RollWork :=
  { work with
    data := setNtime work.data (UInt32.ofInt ntime)
    ntime := work.ntime.map fun _ => bin2hex (htobe32 (UInt32.ofInt ntime)) }

/-! ## Cloning -/

/-- What stale_work and should_roll, which read the clock and the pools, answer
in one round of the loop. -/
structure Round where
  stale : Bool
  shouldRoll : Bool

def canRoll (work : RollWork) (stale : Bool) : Bool :=
  !work.stratum && work.rolltime ≠ 0 && !work.clone && work.rolls.val < 7000 && !stale

/-- What _stage_work, through test_work_current, leaves in the work. -/
def stageWork (work : RollWork) : RollWork :=
  if work.mandatory then work else { work with longpoll := false }

@[simp] theorem stageWork_data (work : RollWork) : (stageWork work).data = work.data := by
  unfold stageWork
  split <;> rfl

@[simp] theorem stageWork_rolls (work : RollWork) : (stageWork work).rolls = work.rolls := by
  unfold stageWork
  split <;> rfl

/-- The master and the last clone, whether the loop body ran, and the clones
that were staged. -/
structure CloneState where
  work : RollWork
  workClone : RollWork
  cloned : Bool
  staged : List RollWork

/-- The body of the loop. -/
def cloneRound (s : CloneState) : Option CloneState :=
  (rollWork s.work).bind fun rolled =>
    (makeClone rolled).bind fun workClone =>
      (rollWork rolled).map fun work =>
        { work, workClone, cloned := true, staged := s.staged ++ [stageWork s.workClone] }

/-- The loop, with `mrs` rounds left and `i` behind. -/
def cloneRounds (rounds : Nat → Round) : Nat → Nat → CloneState → Option CloneState
  | 0, _, s => some s
  | mrs + 1, i, s =>
    if canRoll s.work (rounds i).stale && (rounds i).shouldRoll then
      (cloneRound s).bind (cloneRounds rounds mrs (i + 1))
    else some s

/-- The result of clone_work: the clones it staged, the clone it returned in the
place of the master, and the master, which is staged again or returned. -/
structure CloneCall where
  staged : List RollWork
  returned : Option RollWork
  master : RollWork

def cloneWork (work : RollWork) (miningThreads maxQueue totalStaged : Int) (rounds : Nat → Round) :
    Option CloneCall :=
  let mrs := miningThreads + maxQueue - totalStaged
  if mrs < 1 then some { staged := [], returned := none, master := work }
  else
    (makeClone work).bind fun workClone =>
      (cloneRounds rounds mrs.toNat 0 { work, workClone, cloned := false, staged := [] }).map
          fun s =>
        if s.cloned then
          { staged := s.staged, returned := some s.workClone, master := stageWork s.work }
        else { staged := s.staged, returned := none, master := s.work }

end CgminerT4.Source.WorkRoll
