import CgminerT4.Guarantees.ListRows

/-!
# Operations on one list

In an invariant state every list holds its row, and every item is in one row or
with the caller. An operation on one list relinks a single item.
-/
namespace CgminerT4.Guarantees.ListInvariant
open Source.Klist Library.DoublyLinked Library.SignedInt
open Guarantees.ListRows

/-! ## The invariant -/

/-- A list whose items are these, in order. -/
structure Holds (links : Links Addr) (doTail : Bool) (list : KList) (row : List Addr) : Prop where
  linked : Linked links row
  head : list.head = row.head?
  tail : doTail → list.tail = row.getLast?
  count : list.count.val = row.length

/-- The fields no operation changes. -/
structure Fixed (list list' : KList) : Prop where
  isStore : list'.isStore = list.isStore
  total : list'.total = list.total
  allocate : list'.allocate = list.allocate
  limit : list'.limit = list.limit
  doTail : list'.doTail = list.doTail

/-- What the lists say about themselves: list 0 is the K_LIST, the others are its stores. -/
structure Tables (config : Config) (lists : List KList) (blocks : List Nat) : Prop where
  kind : ∀ (l : Nat) list, lists[l]? = some list →
    list.isStore = decide (l ≠ 0) ∧ list.doTail = config.doTail
  first : ∃ list, lists[0]? = some list ∧ list.total.val = (blocks.sum : Int) ∧
    list.allocate = config.allocate ∧
    list.limit = config.limit

/-- Everything but the links. -/
structure Shape (config : Config) (m : Memory) (s : Spec) : Prop where
  lists : m.lists.length = s.rows.length
  blocks : m.blocks = s.blocks
  kept : (s.rows.flatten ++ s.held).Perm (allItems s.blocks)
  tables : Tables config m.lists s.blocks
  limited : 0 < config.limit.val → (s.blocks.sum : Int) ≤ config.limit.val

/-- All lists but the skipped ones hold their rows. -/
def RowsApart (config : Config) (m : Memory) (s : Spec) (skipped : List Nat) : Prop :=
  ∀ (l : Nat) list row, l ∉ skipped → m.lists[l]? = some list → s.rows[l]? = some row →
    Holds m.links config.doTail list row

/-- The invariant of a run. -/
structure Inv (config : Config) (m : Memory) (s : Spec) : Prop where
  shape : Shape config m s
  rows : RowsApart config m s []

/-- A run of the code on an invariant state: its outcome is as claimed exactly if the
condition holds. -/
structure Exact (config : Config) (condition : Prop) (code : Option (Memory × Option Addr))
    (s : Spec) (returned : Option Addr) : Prop where
  kept : condition → ∃ m, code = some (m, returned) ∧ Inv config m s
  only : ∀ m, code = some (m, returned) → Sound config m s → condition

/-- An operation that is always as claimed. -/
theorem exact_of_kept {config : Config} {condition : Prop} {code : Option (Memory × Option Addr)}
    {s : Spec} {returned : Option Addr} (always : condition)
    (kept : ∃ m, code = some (m, returned) ∧ Inv config m s) :
    Exact config condition code s returned := ⟨fun _ => kept, fun _ _ _ => always⟩

/-- No item is in two places. -/
theorem Shape.distinct {config : Config} {m : Memory} {s : Spec} (shape : Shape config m s) :
    (s.rows.flatten ++ s.held).Nodup := shape.kept.nodup_iff.mpr (allItems_nodup s.blocks)

/-- No item is missing. -/
theorem Shape.length {config : Config} {m : Memory} {s : Spec} (shape : Shape config m s) :
    (s.rows.flatten ++ s.held).length = s.blocks.sum :=
  shape.kept.length_eq.trans (allItems_length s.blocks)

/-- Every item of a row or of the caller can be written to. -/
theorem Shape.isItem {config : Config} {m : Memory} {s : Spec} (shape : Shape config m s) {a : Addr}
    (member : a ∈ s.rows.flatten ++ s.held) : IsItem m.blocks a := by
  rw [shape.blocks]
  exact (mem_allItems s.blocks a).mp (shape.kept.mem_iff.mp member)

theorem mem_of_row {s : Spec} {l : Nat} {row : List Addr} (here : s.rows[l]? = some row) {a : Addr}
    (member : a ∈ row) :
    a ∈ s.rows.flatten ++ s.held :=
  List.mem_append_left _ (List.mem_flatten.mpr ⟨row, List.mem_of_getElem? here, member⟩)

theorem mem_of_held {s : Spec} {a : Addr} (member : a ∈ s.held) : a ∈ s.rows.flatten ++ s.held :=
  List.mem_append_right _ member

theorem Shape.found {config : Config} {m : Memory} {s : Spec} (shape : Shape config m s) {l : Nat}
    {row : List Addr} (here : s.rows[l]? = some row) : ∃ list, m.lists[l]? = some list := by
  obtain ⟨inside, _⟩ := List.getElem?_eq_some_iff.mp here
  rw [← shape.lists] at inside
  exact ⟨_, List.getElem?_eq_getElem inside⟩

/-- An invariant state is as claimed. -/
theorem Inv.sound {config : Config} {m : Memory} {s : Spec} (inv : Inv config m s) :
    Sound config m s := by
  refine ⟨inv.shape.lists, fun l list row found here => ?_, ?_, inv.shape.distinct,
    fun list found => ?_, fun bound => ?_⟩
  · have holds := inv.rows l list row List.not_mem_nil found here
    have linked := holds.linked
    refine ⟨?_, linked.follows_back, fun a first => ?_, holds.count, holds.tail⟩
    · rw [holds.head]
      exact linked.follows
    · rw [holds.head] at first
      obtain ⟨back, rfl⟩ := List.head?_eq_some_iff.mp first
      exact linked.1
  · rw [inv.shape.blocks]
    exact inv.shape.kept
  · obtain ⟨first, found', total, _⟩ := inv.shape.tables.first
    rw [found] at found'
    cases found'
    rw [inv.shape.length]
    exact total
  · rw [inv.shape.length]
    exact inv.shape.limited bound

/-- A lookup behind a write hits what was written or what was there. -/
theorem getElem_set {β : Type} (table : List β) (l k : Nat) (new value : β)
    (found : (table.set l new)[k]? = some value) :
    k = l ∧ value = new ∨ k ≠ l ∧ table[k]? = some value := by
  by_cases same : k = l
  · subst same
    obtain ⟨inside, _⟩ := List.getElem?_eq_some_iff.mp found
    rw [List.length_set] at inside
    rw [List.getElem?_set_self inside] at found
    cases found
    exact .inl ⟨rfl, rfl⟩
  · rw [List.getElem?_set_ne (fun equal => same equal.symm)] at found
    exact .inr ⟨same, found⟩

/-- The same for an entry put behind the others. -/
theorem getElem_push {β : Type} (table : List β) (k : Nat) (new value : β)
    (found : (table ++ [new])[k]? = some value) :
    k = table.length ∧ value = new ∨ k < table.length ∧ table[k]? = some value := by
  by_cases inside : k < table.length
  · rw [List.getElem?_append_left inside] at found
    exact .inr ⟨inside, found⟩
  · obtain ⟨bound, _⟩ := List.getElem?_eq_some_iff.mp found
    rw [List.length_append, List.length_singleton] at bound
    obtain rfl : k = table.length := by omega
    rw [List.getElem?_concat_length] at found
    cases found
    exact .inl ⟨rfl, rfl⟩

/-- Changing the ends and counters of a list keeps its kind. -/
theorem Tables.set {config : Config} {lists : List KList} {blocks : List Nat}
    (tables : Tables config lists blocks) {l : Nat} {list list' : KList}
    (found : lists[l]? = some list) (fixed : Fixed list list') :
    Tables config (lists.set l list') blocks := by
  constructor
  · intro k other at_k
    rcases getElem_set lists l k list' other at_k with ⟨rfl, rfl⟩ | ⟨_, at_k⟩
    · obtain ⟨store, tail⟩ := tables.kind k list found
      exact ⟨fixed.isStore.trans store, fixed.doTail.trans tail⟩
    · exact tables.kind k other at_k
  · obtain ⟨first, at_first, total, allocate, limit⟩ := tables.first
    by_cases zero : l = 0
    · subst zero
      rw [found] at at_first
      cases at_first
      obtain ⟨inside, _⟩ := List.getElem?_eq_some_iff.mp found
      exact ⟨list', List.getElem?_set_self inside, fixed.total ▸ total,
        fixed.allocate.trans allocate,
        fixed.limit.trans limit⟩
    · exact ⟨first, (List.getElem?_set_ne zero).trans at_first, total, allocate, limit⟩

/-- A change of one list, its row and what the caller has. -/
theorem Inv.change {config : Config} {m : Memory} {s : Spec} {l : Nat} {list : KList}
    {row : List Addr} (shape : Shape config m s) (others : RowsApart config m s [l])
    (found : m.lists[l]? = some list) (here : s.rows[l]? = some row) {links : Links Addr}
    {list' : KList} {row' held changed : List Addr} (same : SameOff changed m.links links)
    (inside : ∀ a ∈ changed, a ∈ row ∨ a ∈ s.held) (fixed : Fixed list list')
    (holds : Holds links config.doTail list' row') (moved : (row' ++ held).Perm (row ++ s.held)) :
    Inv config ⟨m.blocks, links, m.lists.set l list'⟩ ⟨s.rows.set l row', held, s.blocks⟩ := by
  obtain ⟨rest, whole, replaced, apart⟩ := split_rows here
  have distinct := shape.distinct
  rw [((whole.append_right s.held).trans (by rw [List.append_assoc])).nodup_iff] at distinct
  refine ⟨⟨?_, shape.blocks, ?_, shape.tables.set found fixed, shape.limited⟩,
    fun k other other_row _ at_k at_row => ?_⟩
  · rw [List.length_set, List.length_set, shape.lists]
  · refine List.Perm.trans ?_ shape.kept
    calc (s.rows.set l row').flatten ++ held
      _ |>.Perm (row' ++ rest ++ held) := (replaced row').append_right held
      _ |>.Perm (row' ++ held ++ rest) := by
        rw [List.append_assoc, List.append_assoc]
        exact List.perm_append_comm.append_left row'
      _ |>.Perm (row ++ s.held ++ rest) := moved.append_right rest
      _ |>.Perm (row ++ rest ++ s.held) := by
        rw [List.append_assoc, List.append_assoc]
        exact List.perm_append_comm.append_left row
      _ |>.Perm (s.rows.flatten ++ s.held) := (whole.append_right s.held).symm
  · rcases getElem_set m.lists l k list' other at_k with ⟨rfl, rfl⟩ | ⟨differs, at_k⟩
    · rcases getElem_set s.rows k k row' other_row at_row with ⟨_, rfl⟩ | ⟨elsewhere, _⟩
      · exact holds
      · exact absurd rfl elsewhere
    · rcases getElem_set s.rows l k row' other_row at_row with ⟨equal, _⟩ | ⟨_, at_row⟩
      · exact absurd equal differs
      · have old := others k other other_row (by simpa using differs) at_k at_row
        refine ⟨same.segment old.linked fun a member => fun touched => ?_, old.head, old.tail,
          old.count⟩
        have elsewhere := apart k other_row differs at_row a member
        obtain ⟨_, distinctRest, disjoint⟩ := List.nodup_append'.mp distinct
        rcases inside a touched with inRow | inHeld
        · exact disjoint inRow (List.mem_append_left _ elsewhere)
        · exact List.disjoint_of_nodup_append distinctRest elsewhere inHeld

/-! ## Access to items -/

section
variable {blocks : List Nat} {links : Links Addr} {lists : List KList} {a : Addr}

theorem getPrev_item (item : IsItem blocks a) :
    Memory.getPrev ⟨blocks, links, lists⟩ a = some (links.prev a) := if_pos item

theorem getNext_item (item : IsItem blocks a) :
    Memory.getNext ⟨blocks, links, lists⟩ a = some (links.next a) := if_pos item

theorem setPrev_item (item : IsItem blocks a) (value : Option Addr) :
    Memory.setPrev ⟨blocks, links, lists⟩ a value = some ⟨blocks, links.setPrev a value, lists⟩ :=
  if_pos item

theorem setNext_item (item : IsItem blocks a) (value : Option Addr) :
    Memory.setNext ⟨blocks, links, lists⟩ a value = some ⟨blocks, links.setNext a value, lists⟩ :=
  if_pos item

theorem setPrevOf_item {p : Option Addr} (item : ∀ a, p = some a → IsItem blocks a)
    (value : Option Addr) :
    Memory.setPrevOf ⟨blocks, links, lists⟩ p value =
      some ⟨blocks, links.setPrevOf p value, lists⟩ := by
  cases p with
  | none => rfl
  | some a => exact setPrev_item (item a rfl) value

theorem setNextOf_item {p : Option Addr} (item : ∀ a, p = some a → IsItem blocks a)
    (value : Option Addr) :
    Memory.setNextOf ⟨blocks, links, lists⟩ p value =
      some ⟨blocks, links.setNextOf p value, lists⟩ := by
  cases p with
  | none => rfl
  | some a => exact setNext_item (item a rfl) value

theorem clear_item (item : IsItem blocks a) :
    Memory.clear ⟨blocks, links, lists⟩ a = some ⟨blocks, links.clear a, lists⟩ := by
  unfold Memory.clear
  rw [setPrev_item item]
  exact setNext_item item none

end

/-- A list with other ends. -/
def ended (list : KList) (head tail : Option Addr) (count countUp : CInt) : KList :=
  { list with head := head, tail := tail, count := count, countUp := countUp }

theorem ended_fixed (list : KList) (head tail : Option Addr) (count countUp : CInt) :
    Fixed list (ended list head tail count countUp) := ⟨rfl, rfl, rfl, rfl, rfl⟩

/-- A list with an item can count down. -/
theorem taken_defined (list : KList) (head tail : Option Addr) (positive : 0 < list.count.val) :
    ∃ count : CInt, count.val = list.count.val - 1 ∧
      KList.taken { list with head := head, tail := tail } =
        some (ended list head tail count list.countUp) := by
  obtain ⟨count, added, value⟩ :=
    CInt.add_defined list.count (-1) (by omega) (by have := list.count.upper; omega)
  refine ⟨count, value, ?_⟩
  unfold KList.taken
  rw [added]
  rfl

/-- A list counts up when both of its counters have room. -/
theorem added_defined (list : KList) (head tail : Option Addr) (nonnegative : 0 ≤ list.count.val)
    (room : list.count.val + 1 < 2 ^ 31) (roomUp : InRange (list.countUp.val + 1)) :
    ∃ count countUp : CInt, count.val = list.count.val + 1 ∧
      KList.added { list with head := head, tail := tail } =
        some (ended list head tail count countUp) := by
  obtain ⟨count, added, value⟩ := CInt.add_defined list.count 1 (by omega) room
  obtain ⟨countUp, addedUp, _⟩ := CInt.add_defined list.countUp 1 roomUp.1 roomUp.2
  refine ⟨count, countUp, value, ?_⟩
  unfold KList.added
  rw [added, addedUp]
  rfl

theorem add_undefined (a : CInt) (n : Int) (out : ¬ InRange (a.val + n)) : a.add n = none :=
  dif_neg out

/-- A full `count_up` leaves an addition without a result. -/
theorem added_undefined (list : KList) (out : ¬ InRange (list.countUp.val + 1)) :
    list.added = none := by
  unfold KList.added
  rw [add_undefined list.countUp 1 out]
  cases list.count.add 1 <;> rfl

/-- The row is behind the caller's items and the list is not full. -/
theorem Shape.room {config : Config} {m : Memory} {s : Spec} (shape : Shape config m s) {l : Nat}
    {row : List Addr} (here : s.rows[l]? = some row) :
    (row.length + s.held.length : Int) < 2 ^ 31 := by
  obtain ⟨rest, whole, _⟩ := split_rows here
  obtain ⟨first, _, total, _⟩ := shape.tables.first
  have size := shape.length
  rw [List.length_append, whole.length_eq, List.length_append] at size
  have := first.total.upper
  omega

/-! ## One item more or less -/

theorem Shape.row_distinct {config : Config} {m : Memory} {s : Spec} (shape : Shape config m s)
    {l : Nat} {row : List Addr} (here : s.rows[l]? = some row) : row.Nodup := by
  obtain ⟨rest, whole, _⟩ := split_rows here
  have all := (List.nodup_append'.mp shape.distinct).1
  rw [whole.nodup_iff] at all
  exact (List.nodup_append'.mp all).1

/-- What the caller has is in no row. -/
theorem Shape.held_apart {config : Config} {m : Memory} {s : Spec} (shape : Shape config m s)
    {l : Nat} {row : List Addr} (here : s.rows[l]? = some row) {item : Addr}
    (held : item ∈ s.held) : item ∉ row := fun member =>
  List.disjoint_of_nodup_append shape.distinct
    (List.mem_flatten.mpr ⟨row, List.mem_of_getElem? here, member⟩) held

theorem RowsApart.skip {config : Config} {m : Memory} {s : Spec} (rows : RowsApart config m s [])
    (skipped : List Nat) :
    RowsApart config m s skipped := fun l list row _ => rows l list row List.not_mem_nil

/-- The link in front of a removed first item does not matter. -/
theorem Inv.remove {config : Config} {m : Memory} {s : Spec} {l : Nat} {list list' : KList}
    (front back : List Addr) {item : Addr} (shape : Shape config m s)
    (others : RowsApart config m s [l]) (found : m.lists[l]? = some list)
    (here : s.rows[l]? = some (front ++ item :: back))
    (first : Segment m.links none front (some item))
    (second : Segment m.links (some item) back none) (fixed : Fixed list list')
    (head : list'.head = (front ++ back).head?)
    (tail : config.doTail → list'.tail = (front ++ back).getLast?)
    (count : list'.count.val = (front ++ back).length) :
    Inv config ⟨m.blocks, m.links.remove front.getLast? item back.head?, m.lists.set l list'⟩
      (s.take l (front ++ back) item) := by
  have linked := Linked.remove front back first second (shape.row_distinct here)
  refine Inv.change shape others found here (sameOff_remove m.links front back item)
    (fun a member => .inl member) fixed
    ⟨linked, head, tail, count⟩ ?_
  calc front ++ back ++ item :: s.held
    _ |>.Perm (item :: (front ++ back ++ s.held)) := List.perm_middle
    _ |>.Perm (front ++ item :: back ++ s.held) := (List.perm_middle.symm).append_right s.held

theorem Inv.insert {config : Config} {m : Memory} {s : Spec} (inv : Inv config m s) {l : Nat}
    {list list' : KList} (front back : List Addr) {item : Addr} (found : m.lists[l]? = some list)
    (here : s.rows[l]? = some (front ++ back)) (held : item ∈ s.held) (fixed : Fixed list list')
    (head : list'.head = (front ++ item :: back).head?)
    (tail : config.doTail → list'.tail = (front ++ item :: back).getLast?)
    (count : list'.count.val = (front ++ back).length + 1) :
    Inv config ⟨m.blocks, m.links.insert front.getLast? item back.head?, m.lists.set l list'⟩
      (s.put l (front ++ item :: back) item) := by
  have before := inv.rows l list _ List.not_mem_nil found here
  have distinct : (front ++ item :: back).Nodup :=
    List.perm_middle.nodup_iff.mpr
      (List.nodup_cons.mpr ⟨inv.shape.held_apart here held, inv.shape.row_distinct here⟩)
  refine Inv.change inv.shape (inv.rows.skip [l]) found here
    (sameOff_insert m.links front back item) (fun a member => ?_)
    fixed ⟨before.linked.insert front back distinct, head, tail, ?_⟩ ?_
  · rcases List.mem_cons.mp (List.perm_middle.mem_iff.mp member) with rfl | member
    · exact .inr held
    · exact .inl member
  · rw [count, List.perm_middle.length_eq, List.length_cons]
    rfl
  · calc front ++ item :: back ++ s.held.erase item
      _ |>.Perm (item :: (front ++ back) ++ s.held.erase item) := List.perm_middle.append_right _
      _ |>.Perm (front ++ back ++ item :: s.held.erase item) := List.perm_middle.symm
      _ |>.Perm (front ++ back ++ s.held) := (List.perm_cons_erase held).symm.append_left _

/-! ## Taking the head -/

theorem takeHead_some {blocks : List Nat} {links : Links Addr} {lists : List KList} {l : Nat}
    {list : KList} {item : Addr} {next : Option Addr} (found : lists[l]? = some list)
    (head : list.head = some item) (at_item : links.next item = next)
    (isItem : IsItem blocks item) (isNext : ∀ a, next = some a → IsItem blocks a)
    (positive : 0 < list.count.val) :
    ∃ count : CInt, count.val = list.count.val - 1 ∧ takeHead ⟨blocks, links, lists⟩ l =
      some (⟨blocks, links.remove none item next, lists.set l
        (ended list next (if next.isNone && list.doTail then none else list.tail)
          count list.countUp)⟩, some item) := by
  obtain ⟨count, value, taken⟩ :=
    taken_defined list next (if next.isNone && list.doTail then none else list.tail) positive
  refine ⟨count, value, ?_⟩
  simp only [takeHead, found, head, Option.bind_eq_bind, Option.bind_some, getNext_item isItem,
    at_item, setPrevOf_item isNext, clear_item isItem, taken]
  rfl

theorem takeHead_inv {config : Config} {m : Memory} {s : Spec} {l : Nat} {list : KList}
    {item : Addr} {row : List Addr} (shape : Shape config m s) (others : RowsApart config m s [l])
    (found : m.lists[l]? = some list) (here : s.rows[l]? = some (item :: row))
    (rest : Segment m.links (some item) row none) (next : m.links.next item = row.head?)
    (head : list.head = some item) (tail : config.doTail → list.tail = (item :: row).getLast?)
    (count : list.count.val = (item :: row).length) :
    ∃ m', takeHead m l = some (m', some item) ∧ Inv config m' (s.take l row item) := by
  have isItem := fun a member => shape.isItem (a := a) (mem_of_row here member)
  obtain ⟨blocks, links, lists⟩ := m
  obtain ⟨count', value, ran⟩ := takeHead_some found head next (isItem item List.mem_cons_self)
    (fun a first => isItem a (List.mem_cons_of_mem item (List.mem_of_head? first)))
    (by rw [count, List.length_cons]; omega)
  refine ⟨_, ran, Inv.remove [] row shape others found here trivial rest (ended_fixed ..) rfl
    (fun tracked => ?_) ?_⟩
  · unfold ended
    rw [(shape.tables.kind l list found).2, tracked]
    cases row with
    | nil => rfl
    | cons first row => exact (tail tracked).trans (List.getLast?_cons_cons ..)
  · rw [List.length_cons] at count
    show count'.val = (row.length : Int)
    omega

theorem takeHead_empty {m : Memory} {l : Nat} {list : KList} (found : m.lists[l]? = some list)
    (head : list.head = none) :
    takeHead m l = some (m, none) := by
  simp only [takeHead, found, head, Option.bind_eq_bind, Option.bind_some]

/-! ## What the operations on one list do -/

section
variable {blocks : List Nat} {links : Links Addr} {lists : List KList} {l : Nat} {list : KList}
  {item : Addr}

theorem kUnlinkTail_some {before : Option Addr} (found : lists[l]? = some list)
    (tracked : list.doTail = true) (tail : list.tail = some item) (prev : links.prev item = before)
    (isItem : IsItem blocks item) (isBefore : ∀ a, before = some a → IsItem blocks a)
    (positive : 0 < list.count.val) :
    ∃ count : CInt, count.val = list.count.val - 1 ∧ kUnlinkTail ⟨blocks, links, lists⟩ l =
      some (⟨blocks, links.remove before item none, lists.set l
        (ended list (if before.isNone then none else list.head) before count list.countUp)⟩,
          some item) := by
  obtain ⟨count, value, taken⟩ :=
    taken_defined list (if before.isNone then none else list.head) before positive
  refine ⟨count, value, ?_⟩
  unfold kUnlinkTail
  rw [found, Option.bind_eq_bind, Option.bind_some, if_neg (by rw [tracked]; decide)]
  simp only [tail, Option.bind_eq_bind, Option.bind_some, getPrev_item isItem, prev,
    setNextOf_item isBefore, clear_item isItem, taken]
  rfl

theorem kAddHead_eq (found : lists[l]? = some list) (isItem : IsItem blocks item)
    (isHead : ∀ a, list.head = some a → IsItem blocks a) :
    kAddHead ⟨blocks, links, lists⟩ l item =
      (KList.added { list with
        head := some item
        tail := if list.doTail && list.tail.isNone then some item else list.tail }).map fun new =>
          ⟨blocks, links.insert none item list.head, lists.set l new⟩ := by
  simp only [kAddHead, found, Option.bind_eq_bind, Option.bind_some, setPrev_item isItem,
    setNext_item isItem, setPrevOf_item isHead, Option.map_eq_bind]
  rfl

theorem kAddTail_eq (found : lists[l]? = some list) (tracked : list.doTail = true)
    (isItem : IsItem blocks item) (isTail : ∀ a, list.tail = some a → IsItem blocks a) :
    kAddTail ⟨blocks, links, lists⟩ l item =
      (KList.added { list with
        head := if list.head.isNone then some item else list.head
        tail := some item }).map fun new => ⟨blocks, links.insert list.tail item none,
          lists.set l new⟩ := by
  unfold kAddTail
  rw [found, Option.bind_eq_bind, Option.bind_some, if_neg (by rw [tracked]; decide)]
  simp only [Option.bind_eq_bind, Option.bind_some, setPrev_item isItem, setNext_item isItem,
    setNextOf_item isTail, Option.map_eq_bind]
  rfl

/-- The link in front of the new item is read from its neighbour before that is overwritten. -/
theorem kInsertBefore_eq {before : Addr} {prev : Option Addr} (found : lists[l]? = some list)
    (at_before : links.prev before = prev) (differs : before ≠ item) (isItem : IsItem blocks item)
    (isBefore : IsItem blocks before) (isPrev : ∀ a, prev = some a → IsItem blocks a) :
    kInsertBefore ⟨blocks, links, lists⟩ l item before =
      (KList.added { list with head := if prev.isNone then some item else list.head }).map
        fun new =>
        ⟨blocks, links.insert prev item (some before), lists.set l new⟩ := by
  simp only [kInsertBefore, found, Option.bind_eq_bind, Option.bind_some, setNext_item isItem,
    getPrev_item isBefore, setNext_prev, at_before, setPrev_item isItem,
    setPrev_other _ item before prev differs, setNextOf_item isPrev, setPrev_item isBefore,
    Option.map_eq_bind]
  rfl

theorem kInsertAfter_eq {after : Addr} {next : Option Addr} (found : lists[l]? = some list)
    (at_after : links.next after = next) (differs : after ≠ item) (isItem : IsItem blocks item)
    (isAfter : IsItem blocks after) (isNext : ∀ a, next = some a → IsItem blocks a) :
    kInsertAfter ⟨blocks, links, lists⟩ l item after =
      (KList.added
        { list with tail := if next.isNone && list.doTail then some item else list.tail }).map
          fun new =>
        ⟨blocks, links.insert (some after) item next, lists.set l new⟩ := by
  simp only [kInsertAfter, found, Option.bind_eq_bind, Option.bind_some, setPrev_item isItem,
    getNext_item isAfter, setPrev_next, at_after, setNext_item isItem,
    setNext_other _ item after next differs, setPrevOf_item isNext, setNext_item isAfter,
    setNext_setPrevOf, Option.map_eq_bind]
  rfl

theorem kUnlinkItem_some {prev next : Option Addr} (found : lists[l]? = some list)
    (at_prev : links.prev item = prev) (at_next : links.next item = next)
    (prevDiffers : prev ≠ some item) (nextDiffers : next ≠ some item)
    (isItem : IsItem blocks item) (isPrev : ∀ a, prev = some a → IsItem blocks a)
    (isNext : ∀ a, next = some a → IsItem blocks a) (positive : 0 < list.count.val) :
    ∃ count : CInt, count.val = list.count.val - 1 ∧ kUnlinkItem ⟨blocks, links, lists⟩ l item =
      some ⟨blocks, links.remove prev item next,
        lists.set l (ended list (if list.head = some item then next else list.head)
        (if list.doTail && list.tail = some item then prev else list.tail)
          count list.countUp)⟩ := by
  obtain ⟨count, value, taken⟩ :=
    taken_defined list (if list.head = some item then next else list.head)
    (if list.doTail && list.tail = some item then prev else list.tail) positive
  refine ⟨count, value, ?_⟩
  simp only [kUnlinkItem, found, Option.bind_eq_bind, Option.bind_some, getPrev_item isItem,
    getNext_item isItem, at_prev, at_next, setNextOf_item isPrev, setNextOf_prev,
    setNextOf_other links prev next item prevDiffers, setPrevOf_item isNext, setPrevOf_next,
    setPrevOf_other _ next prev item nextDiffers, clear_item isItem, taken]
  rfl

end

/-! ## The other operations on one list -/

section
variable {config : Config} {m : Memory} {s : Spec} (inv : Inv config m s) {l : Nat}
include inv

/-- The last item goes to the caller; its neighbour becomes the tail. -/
theorem unlinkTail_inv {row : List Addr} {item : Addr} (here : s.rows[l]? = some (row ++ [item]))
    (tracked : config.doTail) :
    ∃ m', kUnlinkTail m l = some (m', some item) ∧ Inv config m' (s.take l row item) := by
  obtain ⟨list, found⟩ := inv.shape.found here
  have holds := inv.rows l list _ List.not_mem_nil found here
  have isItem := fun a member => inv.shape.isItem (a := a) (mem_of_row here member)
  obtain ⟨first, last⟩ := (segment_append m.links none none row [item]).mp holds.linked
  obtain ⟨prev, _⟩ := (segment_single m.links _ none item).mp last
  rw [Option.or_none] at prev
  have counted := holds.count
  rw [List.length_append, List.length_singleton] at counted
  obtain ⟨count, value, ran⟩ :=
    kUnlinkTail_some found ((inv.shape.tables.kind l list found).2.trans tracked)
    ((holds.tail tracked).trans List.getLast?_concat) prev
    (isItem item (List.mem_append_right row List.mem_cons_self))
    (fun a last => isItem a (List.mem_append_left _ (List.mem_of_getLast? last))) (by omega)
  have gone := Inv.remove row [] inv.shape (inv.rows.skip [l]) found here first
    (trivial : Segment m.links (some item) [] none)
      (ended_fixed list (if row.getLast?.isNone then none else
      list.head) row.getLast? count list.countUp)
  rw [List.append_nil] at gone
  refine ⟨_, ran, gone ?_ (fun _ => rfl) ?_⟩
  · have head := holds.head
    unfold ended
    rw [head]
    cases row with
    | nil => rfl
    | cons first row =>
      rw [List.getLast?_cons]
      rfl
  · show count.val = (row.length : Int)
    omega

theorem unlinkTail_empty (here : s.rows[l]? = some []) (tracked : config.doTail) :
    kUnlinkTail m l = some (m, none) := by
  obtain ⟨list, found⟩ := inv.shape.found here
  have holds := inv.rows l list _ List.not_mem_nil found here
  obtain ⟨_, doTail⟩ := inv.shape.tables.kind l list found
  simp only [kUnlinkTail, found, doTail, tracked, holds.tail tracked, Option.bind_eq_bind,
    Option.bind_some]
  rfl

/-- An item anywhere in the row, the ends included. -/
theorem unlinkItem_inv {front back : List Addr} {item : Addr}
    (here : s.rows[l]? = some (front ++ item :: back)) :
    ∃ m', kUnlinkItem m l item = some m' ∧ Inv config m' (s.take l (front ++ back) item) := by
  obtain ⟨list, found⟩ := inv.shape.found here
  have holds := inv.rows l list _ List.not_mem_nil found here
  have distinct := inv.shape.row_distinct here
  have isItem := fun a member => inv.shape.isItem (a := a) (mem_of_row here member)
  obtain ⟨prev, next, first, second⟩ := holds.linked.parts
  rw [Option.or_none] at prev next
  obtain ⟨_, distinctBack, apart⟩ := List.nodup_append'.mp distinct
  have outFront : item ∉ front := fun member => apart member List.mem_cons_self
  have outBack := (List.nodup_cons.mp distinctBack).1
  have counted := holds.count
  rw [List.length_append, List.length_cons] at counted
  obtain ⟨count, value, ran⟩ :=
    kUnlinkItem_some found prev next (getLast_ne outFront) (head_ne outBack)
    (isItem item (List.mem_append_right front List.mem_cons_self))
    (fun a last => isItem a (List.mem_append_left _ (List.mem_of_getLast? last)))
    (fun a head => isItem a (List.mem_append_right front
      (List.mem_cons_of_mem item (List.mem_of_head? head)))) (by omega)
  refine ⟨_, ran, Inv.remove front back inv.shape (inv.rows.skip [l]) found here first second
    (ended_fixed ..) ?_
    (fun tracked => ?_) ?_⟩
  · unfold ended
    rw [holds.head]
    cases front with
    | nil => exact if_pos rfl
    | cons a front =>
      refine if_neg fun same => outFront ?_
      have equal : a = item := Option.some.inj same
      exact equal ▸ List.mem_cons_self
  · show (if list.doTail && list.tail = some item then front.getLast? else list.tail) = _
    rw [holds.tail tracked, (inv.shape.tables.kind l list found).2, tracked]
    rcases List.eq_nil_or_concat back with rfl | ⟨back, a, rfl⟩
    · rw [List.getLast?_concat, List.append_nil]
      exact if_pos (by simp)
    · rw [List.concat_eq_append] at outBack ⊢
      rw [← List.cons_append, ← List.append_assoc, List.getLast?_concat, ← List.append_assoc,
        List.getLast?_concat]
      refine if_neg fun same => outBack ?_
      have equal : a = item := by simpa using same
      exact List.mem_append_right back (equal ▸ List.mem_cons_self)
  · rw [List.length_append]
    show count.val = ((front.length + back.length : Nat) : Int)
    omega

/-- Adding works exactly while the counters have room, wherever the item goes. -/
theorem added_exact (front back : List Addr) {item : Addr} {list : KList}
    (found : m.lists[l]? = some list) (here : s.rows[l]? = some (front ++ back))
    (held : item ∈ s.held) {head tail : Option Addr}
    (newHead : head = (front ++ item :: back).head?)
    (newTail : config.doTail → tail = (front ++ item :: back).getLast?)
    {result : Option Memory}
      (ran : result = (KList.added { list with head := head, tail := tail }).map fun new =>
      ⟨m.blocks, m.links.insert front.getLast? item back.head?, m.lists.set l new⟩) :
    Exact config (Room m l) (result.map void) (s.put l (front ++ item :: back) item) none := by
  have counted := (inv.rows l list _ List.not_mem_nil found here).count
  constructor
  · intro room
    have total := inv.shape.room here
    have one := List.length_pos_of_mem held
    obtain ⟨count, countUp, value, added⟩ :=
      added_defined list head tail (by omega) (by omega) (room list found)
    rw [added] at ran
    exact ⟨_, by rw [ran]; rfl,
      Inv.insert inv front back found here held (ended_fixed ..) newHead newTail
      (value.trans (by rw [counted]))⟩
  · intro m' defined _ other found'
    rw [found] at found'
    cases found'
    by_contra out
    have none := added_undefined { list with head := head, tail := tail } out
    rw [ran, none] at defined
    cases defined

theorem addHead_exact {row : List Addr} {item : Addr} (here : s.rows[l]? = some row)
    (held : item ∈ s.held) :
    Exact config (Room m l) ((kAddHead m l item).map void) (s.put l (item :: row) item) none := by
  obtain ⟨list, found⟩ := inv.shape.found here
  have holds := inv.rows l list _ List.not_mem_nil found here
  have isHead : ∀ a, list.head = some a → IsItem m.blocks a := fun a first =>
    inv.shape.isItem (mem_of_row here (List.mem_of_head? (holds.head.symm.trans first)))
  have ran : kAddHead m l item = _ := kAddHead_eq found (inv.shape.isItem (mem_of_held held)) isHead
  rw [holds.head] at ran
  refine added_exact inv [] row found here held rfl (fun tracked => ?_) ran
  rw [holds.tail tracked, (inv.shape.tables.kind l list found).2, tracked]
  cases row with
  | nil => rfl
  | cons a row =>
    rw [List.nil_append, List.getLast?_cons_cons, List.getLast?_cons]
    rfl

theorem addTail_exact {row : List Addr} {item : Addr} (here : s.rows[l]? = some row)
    (held : item ∈ s.held) (tracked : config.doTail) :
    Exact config (Room m l) ((kAddTail m l item).map void) (s.put l (row ++ [item]) item) none := by
  obtain ⟨list, found⟩ := inv.shape.found here
  have holds := inv.rows l list _ List.not_mem_nil found here
  have isTail : ∀ a, list.tail = some a → IsItem m.blocks a := fun a last =>
    inv.shape.isItem (mem_of_row here (List.mem_of_getLast? ((holds.tail tracked).symm.trans last)))
  have ran : kAddTail m l item = _ :=
    kAddTail_eq found ((inv.shape.tables.kind l list found).2.trans tracked)
      (inv.shape.isItem (mem_of_held held)) isTail
  rw [holds.tail tracked] at ran
  refine added_exact inv row [] found (here.trans (by rw [List.append_nil])) held ?_
    (fun _ => ?_) ran
  · rw [holds.head]
    cases row <;> rfl
  · rw [List.getLast?_concat]

theorem insertBefore_exact {front back : List Addr} {item before : Addr}
    (here : s.rows[l]? = some (front ++ before :: back)) (held : item ∈ s.held) :
    Exact config (Room m l) ((kInsertBefore m l item before).map void)
      (s.put l (front ++ item :: before :: back) item)
      none := by
  obtain ⟨list, found⟩ := inv.shape.found here
  have holds := inv.rows l list _ List.not_mem_nil found here
  have isItem := fun a member => inv.shape.isItem (a := a) (mem_of_row here member)
  obtain ⟨prev, _⟩ := holds.linked.parts
  rw [Option.or_none] at prev
  have member : before ∈ front ++ before :: back := List.mem_append_right front List.mem_cons_self
  have differs : before ≠ item := fun same => inv.shape.held_apart here held (same ▸ member)
  have ran :=
    kInsertBefore_eq found prev differs (inv.shape.isItem (mem_of_held held)) (isItem before member)
    (fun a last => isItem a (List.mem_append_left _ (List.mem_of_getLast? last)))
  refine added_exact inv front (before :: back) found here held ?_ (fun tracked => ?_) ran
  · rw [holds.head]
    cases front with
    | nil => rfl
    | cons a front =>
      rw [List.getLast?_cons]
      rfl
  · rw [holds.tail tracked, List.getLast?_append_cons, List.getLast?_append_cons,
      List.getLast?_cons_cons]

/-- Behind the last item the new one becomes the tail, if the list keeps one. -/
theorem insertAfter_exact {front back : List Addr} {item after : Addr}
    (here : s.rows[l]? = some (front ++ after :: back)) (held : item ∈ s.held) :
    Exact config (Room m l) ((kInsertAfter m l item after).map void)
      (s.put l (front ++ after :: item :: back) item)
      none := by
  obtain ⟨list, found⟩ := inv.shape.found here
  have holds := inv.rows l list _ List.not_mem_nil found here
  have isItem := fun a member => inv.shape.isItem (a := a) (mem_of_row here member)
  obtain ⟨_, next, _⟩ := holds.linked.parts
  rw [Option.or_none] at next
  have member : after ∈ front ++ after :: back := List.mem_append_right front List.mem_cons_self
  have differs : after ≠ item := fun same => inv.shape.held_apart here held (same ▸ member)
  have ran :=
    kInsertAfter_eq found next differs (inv.shape.isItem (mem_of_held held)) (isItem after member)
    (fun a head =>
      isItem a (List.mem_append_right front (List.mem_cons_of_mem after (List.mem_of_head? head))))
  have last : (front ++ [after]).getLast? = some after := List.getLast?_concat
  rw [← last] at ran
  have exactly :=
    added_exact inv (front ++ [after]) back found (here.trans (by simp)) held ?_
      (fun tracked => ?_) ran
  · rw [List.append_assoc] at exactly
    exact exactly
  · rw [holds.head]
    cases front <;> rfl
  · rw [holds.tail tracked, (inv.shape.tables.kind l list found).2, tracked]
    cases back with
    | nil => simp
    | cons a back => simp [List.getLast?_cons_cons]

end

end CgminerT4.Guarantees.ListInvariant
