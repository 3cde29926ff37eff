import CgminerT4.Source.WorkRoll
import Mathlib.Data.List.Sort

/-!
# The table of staged work (cgminer.c)

`staged_work` in the order in which HASH_ITER visits it, and the counter
`staged_rollable`. A work is in the table by its place in the list, and a work
that is pushed is not in it. Deleting NULL, and counting past the range of an
int, have no result. HASH_SORT is stable; the signals to the
waiting threads and the no_work flags are left out, and what stale_work answers
is part of the event.
-/
namespace CgminerT4.Source.StagedTable
open Library.SignedInt Jansson WorkItem WorkRoll

structure Staged where
  stagedWork : List RollWork
  stagedRollable : CInt
  deriving DecidableEq

def emptyTable : Staged := ⟨[], .zero⟩

def workRollable (work : RollWork) : Bool := !work.clone && work.rolltime ≠ 0

def tvSort (worka workb : RollWork) : Int := toInt (worka.tvStaged - workb.tvStaged)

/-- HASH_ADD_INT and HASH_SORT. -/
def addSorted (stagedWork : List RollWork) (work : RollWork) : List RollWork :=
  (stagedWork ++ [work]).insertionSort fun worka workb => tvSort worka workb ≤ 0

/-- `delta` more rollable works when this one is rollable. -/
def countRollable (counter : CInt) (work : RollWork) (delta : Int) : Option CInt :=
  if workRollable work then counter.add delta else some counter

def hashPush (frozen : Bool) (t : Staged) (work : RollWork) : Option (Staged × Bool) :=
  (countRollable t.stagedRollable work 1).map fun stagedRollable =>
    if frozen then ({ t with stagedRollable }, false)
    else ({ stagedWork := addSorted t.stagedWork work, stagedRollable }, true)

/-- The work hash_pop selects in a table that is not empty, and the table
without it; none when the search ends at NULL. -/
def selectWork (t : Staged) : Option (RollWork × List RollWork) :=
  if toInt t.stagedWork.length > t.stagedRollable.val then
    (t.stagedWork.find? fun work => !workRollable work).map fun work =>
      (work, t.stagedWork.eraseP fun work => !workRollable work)
  else
    match t.stagedWork with
    | [] => none
    | work :: rest => some (work, rest)

inductive PopResult where
  /-- The caller blocks on `getq->cond`. -/
  | waits
  | undefined
  | returned (work : Option RollWork) (next : Staged)
  deriving DecidableEq

def hashPop (blocking : Bool) (t : Staged) : PopResult :=
  if t.stagedWork = [] then
    if blocking then .waits else .returned none t
  else
    match selectWork t with
    | none => .undefined
    | some (work, stagedWork) =>
      match countRollable t.stagedRollable work (-1) with
      | none => .undefined
      | some stagedRollable => .returned (some work) { stagedWork, stagedRollable }

def discardStale (stale : RollWork → Bool) (t : Staged) : Staged :=
  { t with stagedWork := t.stagedWork.filter fun work => !stale work }

def clearPoolWork (poolNo : PoolNo) (t : Staged) : Staged :=
  { t with stagedWork := t.stagedWork.filter fun work => work.pool ≠ poolNo }

/-- The operations on the table, each under stgd_lock. -/
inductive Event where
  | push (frozen : Bool) (work : RollWork)
  | pop (blocking : Bool)
  | discardStale (stale : RollWork → Bool)
  | clearPoolWork (poolNo : PoolNo)

def step (t : Staged) : Event → Option Staged
  | .push frozen work => (hashPush frozen t work).map (·.1)
  | .pop blocking =>
    match hashPop blocking t with
    | .returned _ next => some next
    | .waits | .undefined => none
  | .discardStale stale => some (discardStale stale t)
  | .clearPoolWork poolNo => some (clearPoolWork poolNo t)

end CgminerT4.Source.StagedTable
