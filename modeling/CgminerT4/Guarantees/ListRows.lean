import Mathlib.Algebra.GroupWithZero.Nat
import Mathlib.Data.List.Perm.Basic
import CgminerT4.Source.Klist

/-!
# Lists of items as rows

Beside the code runs a ghost: the row of items in each list and the items the
caller has. An operation is enabled when the caller follows the rules. It then
has to act on the rows like the list operation it stands for.
-/
namespace CgminerT4.Guarantees.ListRows
open Source.Klist Library.DoublyLinked Library.SignedInt

/-! ## Rows of items -/

structure Spec where
  rows : List (List Addr)
  held : List Addr
  blocks : List Nat

structure Config where
  allocate : CInt
  limit : CInt
  doTail : Bool

def insertBefore (item before : Addr) : List Addr → List Addr
  | [] => []
  | a :: row => if a = before then item :: a :: row else a :: insertBefore item before row

def insertAfter (item after : Addr) : List Addr → List Addr
  | [] => []
  | a :: row => if a = after then a :: item :: row else a :: insertAfter item after row

def blockItems (block size : Nat) : List Addr :=
  (List.range size).map fun i : Nat => (block, (i : Int))

/-- Every item there is. -/
def allItems (blocks : List Nat) : List Addr :=
  (blocks.zipIdx.map fun (size, block) => blockItems block size).flatten

/-- The number of items the next block gets. -/
def blockSize (config : Config) (blocks : List Nat) : Nat :=
  if 0 < config.limit.val then min config.allocate.val.toNat (config.limit.val.toNat - blocks.sum)
  else config.allocate.val.toNat

def start (config : Config) : Spec :=
  ⟨[blockItems 0 (blockSize config [])], [], [blockSize config []]⟩

/-- The K_LIST allocates when it has run out of items below its limit. -/
def refill (config : Config) (s : Spec) (l : Nat) (row : List Addr) : Spec × List Addr :=
  let size := blockSize config s.blocks
  if l = 0 ∧ row = [] ∧ size ≠ 0 then ({ s with blocks := s.blocks ++ [size] },
    blockItems s.blocks.length size)
  else (s, row)

inductive Event where
  | newStore
  | unlinkHead (l : Nat)
  | unlinkTail (l : Nat)
  | addHead (l : Nat) (item : Addr)
  | addTail (l : Nat) (item : Addr)
  | insertBefore (l : Nat) (item before : Addr)
  | insertAfter (l : Nat) (item after : Addr)
  | unlinkItem (l : Nat) (item : Addr)
  | transferToHead (src dst : Nat)
  | transferToTail (src dst : Nat)
  deriving DecidableEq

def Spec.take (s : Spec) (l : Nat) (row : List Addr) (item : Addr) : Spec :=
  { s with rows := s.rows.set l row, held := item :: s.held }

def Spec.put (s : Spec) (l : Nat) (row : List Addr) (item : Addr) : Spec :=
  { s with rows := s.rows.set l row, held := s.held.erase item }

/-- A row joined to another one; a list joined to itself keeps its items. -/
def Spec.move (s : Spec) (src dst : Nat) (row : List Addr) : Spec :=
  if src = dst then s else { s with rows := (s.rows.set dst row).set src [] }

/-- The rows behind an operation and the item it returns. -/
def specStep (config : Config) (s : Spec) : Event → Option (Spec × Option Addr)
  | .newStore => some ({ s with rows := s.rows ++ [[]] }, none)
  | .unlinkHead l => do
    let row ← s.rows[l]?
    let (s, row) := refill config s l row
    match row with
    | [] => some (s, none)
    | item :: row => some (s.take l row item, some item)
  | .unlinkTail l => do
    let row ← s.rows[l]?
    if !config.doTail then none
    else match row.getLast? with
    | none => some (s, none)
    | some item => some (s.take l row.dropLast item, some item)
  | .addHead l item => do
    let row ← s.rows[l]?
    if item ∈ s.held then some (s.put l (item :: row) item, none) else none
  | .addTail l item => do
    let row ← s.rows[l]?
    if config.doTail ∧ item ∈ s.held then some (s.put l (row ++ [item]) item, none) else none
  | .insertBefore l item before => do
    let row ← s.rows[l]?
    if item ∈ s.held ∧ before ∈ row then some (s.put l (insertBefore item before row) item,
      none) else none
  | .insertAfter l item after => do
    let row ← s.rows[l]?
    if item ∈ s.held ∧ after ∈ row then some (s.put l (insertAfter item after row) item,
      none) else none
  | .unlinkItem l item => do
    let row ← s.rows[l]?
    if item ∈ row then some (s.take l (row.erase item) item, none) else none
  | .transferToHead src dst => do
    let source ← s.rows[src]?
    let target ← s.rows[dst]?
    if config.doTail then some (s.move src dst (source ++ target), none) else none
  | .transferToTail src dst => do
    let source ← s.rows[src]?
    let target ← s.rows[dst]?
    if config.doTail then some (s.move src dst (target ++ source), none) else none

/-! ## The code beside its ghost -/

def void (m : Memory) : Memory × Option Addr := (m, none)

def codeStep (m : Memory) : Event → Option (Memory × Option Addr)
  | .newStore => (kNewStore m 0).map void
  | .unlinkHead l => kUnlinkHead m l
  | .unlinkTail l => kUnlinkTail m l
  | .addHead l item => (kAddHead m l item).map void
  | .addTail l item => (kAddTail m l item).map void
  | .insertBefore l item before => (kInsertBefore m l item before).map void
  | .insertAfter l item after => (kInsertAfter m l item after).map void
  | .unlinkItem l item => (kUnlinkItem m l item).map void
  | .transferToHead src dst => (kListTransferToHead m src dst).map void
  | .transferToTail src dst => (kListTransferToTail m src dst).map void

/-- The memory and what the last operation returned, if all went well so far. -/
structure World where
  code : Option (Memory × Option Addr)
  spec : Spec
  returned : Option Addr

def begin (config : Config) : World :=
  ⟨(kNewList config.allocate config.limit config.doTail).map void, start config, none⟩

def step (config : Config) (w : World) (e : Event) : Option World :=
  (specStep config w.spec e).map fun next => ⟨w.code.bind fun now => codeStep now.1 e,
    next.1, next.2⟩

/-- A list in the memory holds a row of items. -/
structure Represents (m : Memory) (doTail : Bool) (list : KList) (row : List Addr) : Prop where
  forward : Follows m.links.next list.head row
  backward : Follows m.links.prev row.getLast? row.reverse
  first : ∀ a, list.head = some a → m.links.prev a = none
  count : list.count.val = row.length
  last : doTail → list.tail = row.getLast?

/-- What is claimed of a state. -/
structure Sound (config : Config) (m : Memory) (s : Spec) : Prop where
  lists : m.lists.length = s.rows.length
  row : ∀ (l : Nat) list row, m.lists[l]? = some list → s.rows[l]? = some row →
    Represents m config.doTail list row
  kept : (s.rows.flatten ++ s.held).Perm (allItems m.blocks)
  distinct : (s.rows.flatten ++ s.held).Nodup
  total : ∀ list, m.lists[0]? = some list →
    list.total.val = ((s.rows.flatten ++ s.held).length : Int)
  limited : 0 < config.limit.val → ((s.rows.flatten ++ s.held).length : Int) ≤ config.limit.val

def Good (config : Config) (w : World) : Prop :=
  ∃ m, w.code = some (m, w.returned) ∧ Sound config m w.spec

/-! ## The condition -/

def InRange (n : Int) : Prop := -2 ^ 31 ≤ n ∧ n < 2 ^ 31

/-- The counter of all items ever added has room for one more. -/
def Room (m : Memory) (l : Nat) : Prop :=
  ∀ list, m.lists[l]? = some list → InRange (list.countUp.val + 1)

/-- The sum of `k_alloc_items` is in range. -/
def Allocatable (config : Config) (s : Spec) : Prop := InRange (s.blocks.sum + config.allocate.val)

/-- A transfer is from an empty list, or between two lists with room for the counters of both. -/
def Transferable (m : Memory) (s : Spec) (src dst : Nat) : Prop :=
  s.rows[src]? = some [] ∨ src ≠ dst ∧ ∀ source target, m.lists[src]? = some source →
    m.lists[dst]? = some target →
    InRange (target.countUp.val + source.countUp.val)

/-- The condition under which a step does what is claimed. -/
def Proper (config : Config) (m : Memory) (s : Spec) : Event → Prop
  | .newStore | .unlinkTail _ | .unlinkItem _ _ => True
  | .unlinkHead l =>
    l = 0 → s.rows[l]? = some [] → blockSize config s.blocks ≠ 0 → Allocatable config s
  | .addHead l _ | .addTail l _ | .insertBefore l _ _ | .insertAfter l _ _ => Room m l
  | .transferToHead src dst | .transferToTail src dst => Transferable m s src dst

def Permitted (config : Config) (w : World) (e : Event) : Prop :=
  ∀ m returned, w.code = some (m, returned) → Proper config m w.spec e

/-! ## The items of the blocks -/

theorem mem_blockItems (block size : Nat) (a : Addr) :
    a ∈ blockItems block size ↔ a.1 = block ∧ 0 ≤ a.2 ∧ a.2 < size := by
  unfold blockItems
  rw [List.mem_map]
  constructor
  · rintro ⟨i, inside, rfl⟩
    have bound := List.mem_range.mp inside
    exact ⟨rfl, by omega, by omega⟩
  · rintro ⟨same, lower, upper⟩
    refine ⟨a.2.toNat, List.mem_range.mpr (by omega), ?_⟩
    rw [Int.toNat_of_nonneg lower, ← same]

theorem allItems_append (blocks : List Nat) (size : Nat) :
    allItems (blocks ++ [size]) = allItems blocks ++ blockItems blocks.length size := by
  unfold allItems
  rw [List.zipIdx_append, List.map_append, List.flatten_append]
  simp

theorem mem_allItems (blocks : List Nat) (a : Addr) : a ∈ allItems blocks ↔ IsItem blocks a := by
  unfold allItems IsItem
  rw [List.mem_flatten]
  constructor
  · rintro ⟨row, found, member⟩
    obtain ⟨⟨size, block⟩, at_block, rfl⟩ := List.mem_map.mp found
    obtain ⟨same, lower, upper⟩ := (mem_blockItems block size a).mp member
    rw [List.mk_mem_zipIdx_iff_getElem?] at at_block
    rw [same, List.getD_eq_getElem?_getD, at_block, Option.getD_some]
    exact ⟨lower, upper⟩
  · rintro ⟨lower, upper⟩
    rw [List.getD_eq_getElem?_getD] at upper
    cases found : blocks[a.1]? with
    | none =>
      rw [found, Option.getD_none] at upper
      omega
    | some size =>
      rw [found, Option.getD_some] at upper
      refine ⟨blockItems a.1 size, List.mem_map.mpr ⟨(size, a.1), ?_, rfl⟩, ?_⟩
      · exact List.mk_mem_zipIdx_iff_getElem?.mpr found
      · exact (mem_blockItems a.1 size a).mpr ⟨rfl, lower, upper⟩

theorem blockItems_nodup (block size : Nat) : (blockItems block size).Nodup := by
  unfold blockItems
  refine List.Nodup.map (fun i j same => ?_) List.nodup_range
  have := congrArg Prod.snd same
  simpa using this

theorem allItems_nodup (blocks : List Nat) : (allItems blocks).Nodup := by
  induction blocks using List.reverseRecOn with
  | nil => exact List.nodup_nil
  | append_singleton blocks size ih =>
    rw [allItems_append]
    refine List.nodup_append'.mpr ⟨ih, blockItems_nodup _ size, fun a old new => ?_⟩
    obtain ⟨same, _⟩ := (mem_blockItems _ size a).mp new
    obtain ⟨lower, upper⟩ := (mem_allItems blocks a).mp old
    rw [same, List.getD_eq_getElem?_getD, List.getElem?_eq_none (Nat.le_refl _),
      Option.getD_none] at upper
    omega

theorem allItems_length (blocks : List Nat) : (allItems blocks).length = blocks.sum := by
  induction blocks using List.reverseRecOn with
  | nil => rfl
  | append_singleton blocks size ih =>
    rw [allItems_append, List.length_append, ih, List.sum_append]
    unfold blockItems
    rw [List.length_map, List.length_range, List.sum_singleton]

end CgminerT4.Guarantees.ListRows
