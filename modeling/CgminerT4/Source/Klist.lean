import CgminerT4.Library.DoublyLinked
import CgminerT4.Library.SignedInt

/-!
# Lists of reusable items (klist.c)

An item is addressed by its block, the array `k_alloc_items` got it from, and
its index there. An operation has no result where C leaves it undefined: a
pointer that is not an item is used, or a counter leaves the range of int. It
has none either where `quithere` ends the program. The name, which is the same
for a list and its stores, and the data of the items are left out.
-/
namespace CgminerT4.Source.Klist
open Library.DoublyLinked Library.SignedInt

abbrev Addr := Nat × Int

structure KList where
  isStore : Bool
  head : Option Addr
  tail : Option Addr
  total : CInt
  count : CInt
  countUp : CInt
  allocate : CInt
  limit : CInt
  doTail : Bool

/-- The sizes of the blocks, the links of the items, and the lists. -/
structure Memory where
  blocks : List Nat
  links : Links Addr
  lists : List KList

/-! ## Reads and writes through pointers -/

def IsItem (blocks : List Nat) (a : Addr) : Prop := 0 ≤ a.2 ∧ a.2 < (blocks.getD a.1 0 : Nat)

instance (blocks : List Nat) (a : Addr) : Decidable (IsItem blocks a) :=
  inferInstanceAs (Decidable (_ ∧ _))

namespace Memory

def getPrev (m : Memory) (a : Addr) : Option (Option Addr) :=
  if IsItem m.blocks a then some (m.links.prev a) else none

def getNext (m : Memory) (a : Addr) : Option (Option Addr) :=
  if IsItem m.blocks a then some (m.links.next a) else none

def setPrev (m : Memory) (a : Addr) (value : Option Addr) : Option Memory :=
  if IsItem m.blocks a then some { m with links := m.links.setPrev a value } else none

def setNext (m : Memory) (a : Addr) (value : Option Addr) : Option Memory :=
  if IsItem m.blocks a then some { m with links := m.links.setNext a value } else none

/-- `if (p) p->prev = value` -/
def setPrevOf (m : Memory) (p value : Option Addr) : Option Memory :=
  p.elim (some m) fun a => m.setPrev a value

/-- `if (p) p->next = value` -/
def setNextOf (m : Memory) (p value : Option Addr) : Option Memory :=
  p.elim (some m) fun a => m.setNext a value

def setList (m : Memory) (l : Nat) (list : KList) : Memory := { m with lists := m.lists.set l list }

end Memory

/-! ## Allocation -/

/-- The round of the loop for the item at this index. -/
def linkItem (block : Nat) (links : Links Addr) (i : Int) : Links Addr :=
  (links.setPrev (block, i) (some (block, i - 1))).setNext (block, i) (some (block, i + 1))

/-- The last item is written behind the others, also when it is the first one. -/
def linkItems (links : Links Addr) (block : Nat) (allocate : Int) : Links Addr :=
  let links := (links.setPrev (block, 0) none).setNext (block, 0) (some (block, 1))
  let links :=
    ((List.range (allocate - 2).toNat).map fun k : Nat => (k : Int) + 1).foldl
      (linkItem block) links
  (links.setPrev (block, allocate - 1) (some (block, allocate - 2))).setNext (block,
    allocate - 1) none

/-- The number of items to allocate. -/
def allocation (list : KList) : Option CInt :=
  if 0 < list.limit.val then do
    let sum ← list.total.add list.allocate.val
    if list.limit.val < sum.val then list.limit.add (-list.total.val) else some list.allocate
  else some list.allocate

def kAllocItems (m : Memory) (l : Nat) : Option Memory := do
  let list ← m.lists[l]?
  if list.isStore then none
  else if 0 < list.limit.val ∧ list.limit.val ≤ list.total.val then some m
  else
    let allocate ← allocation list
    let total ← list.total.add allocate.val
    let block := m.blocks.length
    let list := { list with
      total := total
      count := allocate
      countUp := allocate
      head := some (block, 0)
      tail := if list.doTail then some (block, allocate.val - 1) else list.tail }
    let m :=
      { m with blocks := m.blocks ++ [allocate.val.toNat], links := linkItems m.links block allocate.val }
    some (m.setList l list)

def kNewStore (m : Memory) (l : Nat) : Option Memory := do
  let list ← m.lists[l]?
  let store : KList := ⟨true, none, none, .zero, .zero, .zero, .zero, .zero, list.doTail⟩
  some { m with lists := m.lists ++ [store] }

def kNewList (allocate limit : CInt) (doTail : Bool) : Option Memory :=
  if allocate.val < 1 then none
  else if limit.val < 0 then none
  else
    let list : KList := ⟨false, none, none, .zero, .zero, .zero, allocate, limit, doTail⟩
    kAllocItems ⟨[], ⟨fun _ => none, fun _ => none⟩, [list]⟩ 0

/-! ## Operations -/

/-- `list->count--` -/
def KList.taken (list : KList) : Option KList := do
  let count ← list.count.add (-1)
  some { list with count := count }

/-- `list->count++; list->count_up++` -/
def KList.added (list : KList) : Option KList := do
  let count ← list.count.add 1
  let countUp ← list.countUp.add 1
  some { list with count := count, countUp := countUp }

/-- `item->prev = item->next = NULL` -/
def Memory.clear (m : Memory) (item : Addr) : Option Memory := do
  let m ← m.setPrev item none
  m.setNext item none

/-- The part of `_k_unlink_head` behind the allocation. -/
def takeHead (m : Memory) (l : Nat) : Option (Memory × Option Addr) := do
  let list ← m.lists[l]?
  match list.head with
  | none => some (m, none)
  | some item =>
    let next ← m.getNext item
    let m ← m.setPrevOf next none
    let m ← m.clear item
    let list ← { list with
      head := next
      tail := if next.isNone && list.doTail then none else list.tail }.taken
    some (m.setList l list, some item)

def kUnlinkHead (m : Memory) (l : Nat) : Option (Memory × Option Addr) := do
  let list ← m.lists[l]?
  if list.head.isNone && !list.isStore then
    let m ← kAllocItems m l
    takeHead m l
  else takeHead m l

def kUnlinkTail (m : Memory) (l : Nat) : Option (Memory × Option Addr) := do
  let list ← m.lists[l]?
  if !list.doTail then none
  else match list.tail with
  | none => some (m, none)
  | some item =>
    let prev ← m.getPrev item
    let m ← m.setNextOf prev none
    let m ← m.clear item
    let list ← { list with
      head := if prev.isNone then none else list.head
      tail := prev }.taken
    some (m.setList l list, some item)

def kAddHead (m : Memory) (l : Nat) (item : Addr) : Option Memory := do
  let list ← m.lists[l]?
  let m ← m.setPrev item none
  let m ← m.setNext item list.head
  let m ← m.setPrevOf list.head (some item)
  let list ← { list with
    head := some item
    tail := if list.doTail && list.tail.isNone then some item else list.tail }.added
  some (m.setList l list)

def kAddTail (m : Memory) (l : Nat) (item : Addr) : Option Memory := do
  let list ← m.lists[l]?
  if !list.doTail then none
  else
    let m ← m.setPrev item list.tail
    let m ← m.setNext item none
    let m ← m.setNextOf list.tail (some item)
    let list ← { list with
      head := if list.head.isNone then some item else list.head
      tail := some item }.added
    some (m.setList l list)

def kInsertBefore (m : Memory) (l : Nat) (item before : Addr) : Option Memory := do
  let list ← m.lists[l]?
  let m ← m.setNext item (some before)
  let prev ← m.getPrev before
  let m ← m.setPrev item prev
  let prev ← m.getPrev before
  let m ← m.setNextOf prev (some item)
  let m ← m.setPrev before (some item)
  let list ← { list with head := if prev.isNone then some item else list.head }.added
  some (m.setList l list)

def kInsertAfter (m : Memory) (l : Nat) (item after : Addr) : Option Memory := do
  let list ← m.lists[l]?
  let m ← m.setPrev item (some after)
  let next ← m.getNext after
  let m ← m.setNext item next
  let next ← m.getNext after
  let m ← m.setPrevOf next (some item)
  let m ← m.setNext after (some item)
  let list ← { list with tail := if next.isNone && list.doTail then some item else list.tail }.added
  some (m.setList l list)

def kUnlinkItem (m : Memory) (l : Nat) (item : Addr) : Option Memory := do
  let list ← m.lists[l]?
  let prev ← m.getPrev item
  let next ← m.getNext item
  let m ← m.setNextOf prev next
  let prev ← m.getPrev item
  let next ← m.getNext item
  let m ← m.setPrevOf next prev
  let prev ← m.getPrev item
  let next ← m.getNext item
  let m ← m.clear item
  let list ← { list with
    head := if list.head = some item then next else list.head
    tail := if list.doTail && list.tail = some item then prev else list.tail }.taken
  some (m.setList l list)

/-- The end of a transfer: the counters, and `from` is empty. The two lists may be one. -/
def moveCounts (m : Memory) (src dst : Nat) : Option Memory := do
  let source ← m.lists[src]?
  let m := m.setList src { source with head := none, tail := none }
  let source ← m.lists[src]?
  let target ← m.lists[dst]?
  let count ← target.count.add source.count.val
  let m := m.setList dst { target with count := count }
  let source ← m.lists[src]?
  let m := m.setList src { source with count := .zero }
  let source ← m.lists[src]?
  let target ← m.lists[dst]?
  let countUp ← target.countUp.add source.countUp.val
  let m := m.setList dst { target with countUp := countUp }
  let source ← m.lists[src]?
  some (m.setList src { source with countUp := .zero })

def kListTransferToHead (m : Memory) (src dst : Nat) : Option Memory := do
  let source ← m.lists[src]?
  if !source.doTail then none
  else if source.head.isNone then some m
  else
    let target ← m.lists[dst]?
    let m ← m.setPrevOf target.head source.tail
    let m := if target.head.isNone then m.setList dst { target with tail := source.tail } else m
    let source ← m.lists[src]?
    let target ← m.lists[dst]?
    let tail ← source.tail
    let m ← m.setNext tail target.head
    let m := m.setList dst { target with head := source.head }
    moveCounts m src dst

def kListTransferToTail (m : Memory) (src dst : Nat) : Option Memory := do
  let source ← m.lists[src]?
  if !source.doTail then none
  else if source.head.isNone then some m
  else
    let target ← m.lists[dst]?
    let m ← m.setNextOf target.tail source.head
    let m := if target.tail.isNone then m.setList dst { target with head := source.head } else m
    let source ← m.lists[src]?
    let target ← m.lists[dst]?
    let head ← source.head
    let m ← m.setPrev head target.tail
    let m := m.setList dst { target with tail := source.tail }
    moveCounts m src dst

end CgminerT4.Source.Klist
