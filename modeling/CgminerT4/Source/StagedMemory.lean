import CgminerT4.Source.StagedTable
import CgminerT4.Source.UtHash

/-!
# Staged work in memory (cgminer.c)

The functions on `staged_work` over the macros of uthash.h, where StagedTable has
the list. A work is its address; `work` gives what is stored there and `id` its
unique id, the key of the table. Deleting NULL, and counting past the range of an
int, have no result.
-/
namespace CgminerT4.Source.StagedMemory
open Library.ByteString Library.SignedInt Jansson WorkItem WorkRoll UtHash
open StagedTable (workRollable tvSort countRollable)

structure Heap (α : Type) where
  mem : Memory α
  work : α → RollWork
  stagedRollable : CInt

variable {α : Type} [DecidableEq α] (id : α → UInt32) (fuel : Nat)

/-- The bytes of `work->id`. -/
def idKey (a : α) : Bytes := littleEndian 4 (id a).toNat

/-- hash_push of the work at `a`. -/
def hashPush (frozen : Bool) (s : Heap α) (a : α) (content : RollWork) : Option (Heap α) :=
  let work := Function.update s.work a content
  (countRollable s.stagedRollable content 1).bind fun stagedRollable =>
    if frozen then some { s with work, stagedRollable }
    else
      (hashAdd (idKey id) fuel s.mem a).bind fun mem =>
        (hashSort (fun worka workb => tvSort (work worka) (work workb)) fuel mem).map fun mem =>
          { mem, work, stagedRollable }

/-- The HASH_ITER that stops at a work that cannot be rolled; NULL behind the last. -/
def findWork (work : α → RollWork) (m : Memory α) : Nat → Option α → Option (Option α)
  | _, none => some none
  | 0, some _ => none
  | fuel + 1, some a =>
    if !workRollable (work a) then some (some a) else findWork work m fuel (m.app.next a)

inductive PopResult (α : Type) where
  | waits
  | undefined
  | returned (work : Option α) (next : Heap α)

def hashPop (blocking : Bool) (s : Heap α) : PopResult α :=
  if hashCount s.mem = 0 then
    if blocking then .waits else .returned none s
  else
    let selected :=
      if toInt (hashCount s.mem) > s.stagedRollable.val then findWork s.work s.mem fuel s.mem.head
      else some s.mem.head
    match selected.bind fun work => work.bind fun work => (hashDelete s.mem work).map fun mem =>
      (work, mem) with
    | none => .undefined
    | some (work, mem) =>
      match countRollable s.stagedRollable (s.work work) (-1) with
      | none => .undefined
      | some stagedRollable => .returned (some work) { s with mem, stagedRollable }

def discardStale (stale : RollWork → Bool) (s : Heap α) : Option (Heap α) :=
  (hashIterAll (fun a => stale (s.work a)) fuel s.mem).map fun (mem, _) => { s with mem }

def clearPoolWork (poolNo : PoolNo) (s : Heap α) : Option (Heap α) :=
  (hashIterAll (fun a => (s.work a).pool = poolNo) fuel s.mem).map fun (mem, _) => { s with mem }

/-- The operations on the table; a pushed work comes with its address. -/
inductive Event (α : Type) where
  | push (frozen : Bool) (a : α) (content : RollWork)
  | pop (blocking : Bool)
  | discardStale (stale : RollWork → Bool)
  | clearPoolWork (poolNo : PoolNo)

def step (s : Heap α) : Event α → Option (Heap α)
  | .push frozen a content => hashPush id fuel frozen s a content
  | .pop blocking =>
    match hashPop fuel blocking s with
    | .returned _ next => some next
    | .waits | .undefined => none
  | .discardStale stale => discardStale fuel stale s
  | .clearPoolWork poolNo => clearPoolWork fuel poolNo s

/-- The same event on the list. -/
def Event.listed : Event α → StagedTable.Event
  | .push frozen _ content => .push frozen content
  | .pop blocking => .pop blocking
  | .discardStale stale => .discardStale stale
  | .clearPoolWork poolNo => .clearPoolWork poolNo

end CgminerT4.Source.StagedMemory
