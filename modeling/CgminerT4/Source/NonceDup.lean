import Mathlib.Algebra.Order.Field.Rat
import Mathlib.Logic.Function.Basic
import CgminerT4.Source.Klist

/-!
# The filter for duplicate nonces (noncedup.c, util.c)

The free items are list 0 of the memory and the nonces list 1. Times are exact
rational numbers. A walk along the items is given as many rounds as there are
items. `cgpu->dup_data` is allocated; the lock, the warning and the names are
left out.
-/
namespace CgminerT4.Source.NonceDup
open Klist Library.SignedInt

structure NItem where
  workId : UInt32
  nonce : UInt32
  when : ℚ
  deriving DecidableEq

/-- struct dupdata, with the memory of its lists and the data of their items. -/
structure Dup where
  timelimit : CInt
  memory : Memory
  data : Addr → NItem
  checked : UInt64
  dups : UInt64

def nfreeList : Nat := 0
def nonceList : Nat := 1

/-- The items of a block. -/
def dupAllocate : CInt := ⟨1024, by decide, by decide⟩

def dupalloc (timelimit : CInt) : Option Dup := do
  let m ← kNewList dupAllocate .zero true
  let m ← kNewStore m nfreeList
  some ⟨timelimit, m, fun _ => ⟨0, 0, 0⟩, 0, 0⟩

def tdiff (finish start : ℚ) : ℚ := finish - start

/-- The first loop: from an item towards the head. -/
def searchFrom (d : Dup) (workId nonce : UInt32) : Nat → Option Addr → Option Bool
  | _, none => some false
  | 0, some _ => none
  | fuel + 1, some item =>
    if (d.data item).workId = workId ∧ (d.data item).nonce = nonce then some true
    else (d.memory.getPrev item).bind fun prev => searchFrom d workId nonce fuel prev

/-- A nonce that was not found takes an item. -/
def record (d : Dup) (workId nonce : UInt32) (now : ℚ) : Option Dup := do
  let (m, unlinked) ← kUnlinkHead d.memory nfreeList
  let item ← unlinked
  let m ← kAddHead m nonceList item
  some { d with memory := m, data := Function.update d.data item ⟨workId, nonce, now⟩ }

/-- The second loop. -/
def expire (now : ℚ) : Nat → Dup → Option Dup
  | 0, _ => none
  | fuel + 1, d => do
    let list ← d.memory.lists[nonceList]?
    match list.tail with
    | none => some d
    | some item =>
      if tdiff (d.data item).when now > d.timelimit.val then
        let (m, unlinked) ← kUnlinkTail d.memory nonceList
        let item ← unlinked
        let m ← kAddHead m nfreeList item
        expire now fuel { d with memory := m }
      else some d

/-- The number of items allocated so far. -/
def Dup.items (d : Dup) : Nat := d.memory.blocks.sum

def isdupnonce (d : Dup) (workId nonce : UInt32) (now : ℚ) : Option (Dup × Bool) := do
  let list ← d.memory.lists[nonceList]?
  let found ← searchFrom d workId nonce d.items list.tail
  let d := { d with checked := d.checked + 1 }
  let d ← (if found then some d else record d workId nonce now : Option Dup)
  let d ← expire now (d.items + 1) d
  some ({ d with dups := if found then d.dups + 1 else d.dups }, found)

end CgminerT4.Source.NonceDup
