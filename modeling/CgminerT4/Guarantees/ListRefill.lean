import CgminerT4.Guarantees.ListInvariant

/-!
# Blocks of new items

The K_LIST gets a block when it runs out of items. In a block of one item the
first item points in front of the block until it is taken.
-/
namespace CgminerT4.Guarantees.ListRefill
open Source.Klist Library.DoublyLinked Library.SignedInt
open Guarantees.ListRows Guarantees.ListInvariant

/-! ## A new block -/

theorem linkItem_here (block : Nat) (links : Links Addr) (i : Int) :
    (linkItem block links i).prev (block, i) = some (block, i - 1) ∧
      (linkItem block links i).next (block, i) = some (block, i + 1) := by
  unfold linkItem
  exact ⟨setPrev_self links _ _, setNext_self _ _ _⟩

theorem linkItem_other (block : Nat) (links : Links Addr) (i : Int) (a : Addr)
    (other : a ≠ (block, i)) :
    (linkItem block links i).prev a = links.prev a ∧
    (linkItem block links i).next a = links.next a := by
  unfold linkItem
  exact ⟨setPrev_other links _ a _ other, setNext_other _ _ a _ other⟩

theorem pair_ne {block : Nat} {i j : Int} (apart : i ≠ j) : ((block, i) : Addr) ≠ (block, j) :=
  fun same => apart (congrArg Prod.snd same)

/-- After the loop the items it went through are linked, and the others are as before. -/
theorem link_loop (block : Nat) (links : Links Addr) (n : Nat) :
    let looped := ((List.range n).map fun k : Nat => (k : Int) + 1).foldl (linkItem block) links
    (∀ i : Int, 1 ≤ i → i ≤ n →
      looped.prev (block, i) = some (block, i - 1) ∧ looped.next (block, i) = some (block, i + 1)) ∧
    ∀ a : Addr, (a.1 = block → a.2 < 1 ∨ (n : Int) < a.2) →
      looped.prev a = links.prev a ∧ looped.next a = links.next a := by
  induction n with
  | zero => exact ⟨fun i lower upper => by omega, fun _ _ => ⟨rfl, rfl⟩⟩
  | succ n ih =>
    obtain ⟨inside, outside⟩ := ih
    rw [List.range_succ, List.map_append, List.foldl_append]
    refine ⟨fun i lower upper => ?_, fun a away => ?_⟩
    · by_cases last : i = (n : Int) + 1
      · subst last
        exact linkItem_here ..
      · obtain ⟨prev, next⟩ := linkItem_other block
          (((List.range n).map fun k : Nat => (k : Int) + 1).foldl (linkItem block) links)
            ((n : Int) + 1) (block, i)
          (pair_ne last)
        obtain ⟨prev', next'⟩ := inside i lower (by omega)
        exact ⟨prev.trans prev', next.trans next'⟩
    · have other : a ≠ (block, (n : Int) + 1) := by
        rintro rfl
        have := away rfl
        omega
      obtain ⟨prev, next⟩ := linkItem_other block
        (((List.range n).map fun k : Nat => (k : Int) + 1).foldl (linkItem block) links)
          ((n : Int) + 1) a other
      obtain ⟨prev', next'⟩ := outside a fun same => by
        have := away same
        omega
      exact ⟨prev.trans prev', next.trans next'⟩

/-- What `k_alloc_items` writes into a block. -/
theorem linkItems_links (links : Links Addr) (block size : Nat) (positive : 0 < size) (i : Int)
    (lower : 0 ≤ i) (upper : i < size) :
    (linkItems links block size).prev (block, i) =
      (if i = 0 ∧ size ≠ 1 then none else some (block, i - 1)) ∧
      (linkItems links block size).next (block, i) =
      (if i + 1 = size then none else some (block, i + 1)) := by
  obtain ⟨inside, outside⟩ :=
    link_loop block ((links.setPrev (block, 0) none).setNext (block, 0) (some (block, 1)))
    ((size : Int) - 2).toNat
  unfold linkItems
  by_cases last : i = (size : Int) - 1
  · subst last
    rw [setNext_prev, setPrev_self, setNext_self]
    refine ⟨?_, (if_pos (by omega)).symm⟩
    by_cases one : size = 1
    · subst one
      rfl
    · rw [if_neg (by omega), show (size : Int) - 1 - 1 = size - 2 by omega]
  · rw [setNext_prev, setPrev_other _ _ _ _ (pair_ne last), setNext_other _ _ _ _ (pair_ne last),
      setPrev_next]
    by_cases first : i = 0
    · subst first
      obtain ⟨prev, next⟩ := outside (block, 0) fun _ => .inl (show (0 : Int) < 1 by decide)
      rw [prev, next, setNext_prev, setPrev_self, setNext_self]
      exact ⟨(if_pos ⟨rfl, by omega⟩).symm, (if_neg (by omega)).symm⟩
    · obtain ⟨prev, next⟩ := inside i (by omega) (by omega)
      rw [prev, next]
      exact ⟨(if_neg fun both => first both.1).symm, (if_neg (by omega)).symm⟩

theorem sameOff_linkItems (links : Links Addr) (block size : Nat) (positive : 0 < size) :
    SameOff (blockItems block size) links (linkItems links block size) := by
  intro a out
  rw [mem_blockItems] at out
  obtain ⟨_, outside⟩ :=
    link_loop block ((links.setPrev (block, 0) none).setNext (block, 0) (some (block, 1)))
    ((size : Int) - 2).toNat
  have notFirst : a ≠ (block, 0) := by
    rintro rfl
    exact out ⟨rfl, Int.le_refl 0, Int.natCast_pos.mpr positive⟩
  have notLast : a ≠ (block, (size : Int) - 1) := by
    rintro rfl
    exact out ⟨rfl, by show 0 ≤ (size : Int) - 1; omega, by show (size : Int) - 1 < size; omega⟩
  obtain ⟨prev, next⟩ := outside a fun same => by
    by_contra within
    exact out ⟨same, by omega, by omega⟩
  unfold linkItems
  rw [setNext_prev, setPrev_other _ _ a _ notLast, setNext_other _ _ a _ notLast, setPrev_next,
    prev, next, setNext_prev, setPrev_other _ _ a _ notFirst, setNext_other _ _ a _ notFirst,
    setPrev_next]
  exact ⟨rfl, rfl⟩

theorem segment_from (h : Links Addr) (block n k : Nat)
    (linked : ∀ i : Int, k ≤ i → i < k + n →
      h.prev (block, i) = some (block, i - 1) ∧
        h.next (block, i) = if i + 1 = k + n then none else some (block, i + 1)) :
    Segment h (some (block, (k : Int) - 1)) ((List.range' k n).map fun i : Nat =>
      (block, (i : Int))) none := by
  induction n generalizing k with
  | zero => trivial
  | succ n ih =>
    rw [List.range'_succ, List.map_cons]
    obtain ⟨prev, next⟩ := linked k (by omega) (by omega)
    refine ⟨prev, ?_, ?_⟩
    · rw [next, Option.or_none]
      cases n with
      | zero => exact if_pos (by omega)
      | succ n =>
        rw [List.range'_succ]
        exact if_neg (by omega)
    · have rest := ih (k + 1) fun i lower upper => by
        have here := linked i (by omega) (by omega)
        rw [show ((k + 1 : Nat) : Int) + n = k + (n + 1 : Nat) by omega]
        exact here
      rw [show ((k + 1 : Nat) : Int) - 1 = k by omega] at rest
      exact rest

/-- The items of a new block behind the first one. -/
def blockRest (block n : Nat) : List Addr := (List.range' 1 n).map fun i : Nat => (block, (i : Int))

theorem blockItems_succ (block n : Nat) :
    blockItems block (n + 1) = (block, 0) :: blockRest block n := by
  unfold blockItems blockRest
  rw [List.range_eq_range', List.range'_succ]
  rfl

theorem blockItems_ends (block n : Nat) :
    (blockItems block (n + 1)).getLast? = some (block, (n : Int)) ∧
    (blockItems block (n + 1)).length = n + 1 := by
  unfold blockItems
  rw [List.length_map, List.length_range, List.range_succ, List.map_append]
  exact ⟨List.getLast?_concat, rfl⟩

theorem blockRest_linked (links : Links Addr) (block n : Nat) :
    Segment (linkItems links block (n + 1 : Nat)) (some (block, 0)) (blockRest block n) none ∧
      (linkItems links block (n + 1 : Nat)).next (block, 0) = (blockRest block n).head? := by
  constructor
  · refine segment_from _ block n 1 fun i lower upper => ?_
    obtain ⟨prev, next⟩ := linkItems_links links block (n + 1) n.succ_pos i (by omega) (by omega)
    rw [if_neg fun both => by omega] at prev
    have size : ((n + 1 : Nat) : Int) = (1 : Nat) + n := by omega
    exact ⟨prev, next.trans (by rw [size])⟩
  · obtain ⟨_, next⟩ := linkItems_links links block (n + 1) n.succ_pos 0 (by omega) (by omega)
    rw [next]
    unfold blockRest
    cases n with
    | zero => rfl
    | succ n =>
      rw [List.range'_succ]
      exact if_neg (by omega)

/-! ## Running out of items -/

section
variable {config : Config} {m : Memory} {s : Spec} (inv : Inv config m s) (positive : 0 <
  config.allocate.val)

theorem allocation_some {list : KList} (allocate : list.allocate = config.allocate)
    (limit : list.limit = config.limit) (total : list.total.val = (s.blocks.sum : Int))
    (below : 0 < config.limit.val → (s.blocks.sum : Int) ≤ config.limit.val)
    (positive : 0 < config.allocate.val) (room : Allocatable config s) :
    ∃ a : CInt, allocation list = some a ∧ a.val = (blockSize config s.blocks : Int) ∧
      a.val ≤ config.allocate.val := by
  unfold allocation blockSize
  rw [limit, allocate]
  by_cases limited : 0 < config.limit.val
  · have most := below limited
    have upper := config.limit.upper
    obtain ⟨sum, added, value⟩ :=
      CInt.add_defined list.total config.allocate.val (by rw [total]; exact room.1)
      (by rw [total]; exact room.2)
    obtain ⟨rest, subtracted, left⟩ :=
      CInt.add_defined config.limit (-list.total.val) (by omega) (by omega)
    rw [if_pos limited, if_pos limited, added, Option.bind_eq_bind, Option.bind_some]
    by_cases tooMany : config.limit.val < sum.val
    · rw [if_pos tooMany, subtracted]
      exact ⟨rest, rfl, by omega, by omega⟩
    · rw [if_neg tooMany]
      exact ⟨config.allocate, rfl, by omega, Int.le_refl _⟩
  · rw [if_neg limited, if_neg limited]
    exact ⟨config.allocate, rfl, (Int.toNat_of_nonneg (by omega)).symm, Int.le_refl _⟩

/-- The list behind an allocation. -/
def refilled (list : KList) (block : Nat) (size total : CInt) : KList :=
  { list with
    total := total
    count := size
    countUp := size
    head := some (block, 0)
    tail := if list.doTail then some (block, size.val - 1) else list.tail }

theorem kAllocItems_some {list : KList} (found : m.lists[0]? = some list)
    (isList : list.isStore = false)
    (unlimited : ¬ (0 < list.limit.val ∧ list.limit.val ≤ list.total.val)) {size total : CInt}
    (allocated : allocation list = some size) (added : list.total.add size.val = some total) :
    kAllocItems m 0 =
      some ⟨m.blocks ++ [size.val.toNat], linkItems m.links m.blocks.length size.val,
      m.lists.set 0 (refilled list m.blocks.length size total)⟩ := by
  unfold kAllocItems
  rw [found, Option.bind_eq_bind, Option.bind_some, if_neg (by rw [isList]; decide),
    if_neg unlimited, allocated, Option.bind_eq_bind, Option.bind_some, added]
  rfl

include inv positive

/-- All about the K_LIST that has run out of items. -/
theorem empty_list (here : s.rows[0]? = some []) :
    ∃ list, m.lists[0]? = some list ∧ list.isStore = false ∧
    list.doTail = config.doTail ∧ list.head = none ∧ list.allocate = config.allocate ∧
      list.limit = config.limit ∧
    list.total.val = (s.blocks.sum : Int) ∧
    (blockSize config s.blocks = 0 ↔ 0 < list.limit.val ∧ list.limit.val ≤ list.total.val) := by
  obtain ⟨list, found, total, allocate, limit⟩ := inv.shape.tables.first
  obtain ⟨store, doTail⟩ := inv.shape.tables.kind 0 list found
  refine ⟨list, found, by simpa using store, doTail,
    (inv.rows 0 list [] List.not_mem_nil found here).head, allocate, limit,
    total, ?_⟩
  have below := inv.shape.limited
  unfold blockSize
  rw [limit, total]
  split <;> omega

theorem kAllocItems_full (here : s.rows[0]? = some []) (full : blockSize config s.blocks = 0) :
    kAllocItems m 0 = some m := by
  obtain ⟨list, found, isList, _, _, _, _, _, size⟩ := empty_list inv positive here
  unfold kAllocItems
  rw [found, Option.bind_eq_bind, Option.bind_some, isList, if_neg (by decide),
    if_pos (size.mp full)]

theorem kAllocItems_none (here : s.rows[0]? = some []) (more : blockSize config s.blocks ≠ 0)
    (out : ¬ Allocatable config s) : kAllocItems m 0 = none := by
  obtain ⟨list, found, isList, _, _, allocate, limit, total, size⟩ := empty_list inv positive here
  have overflow : list.total.add list.allocate.val = none := by
    refine add_undefined list.total _ ?_
    rw [total, allocate]
    exact out
  unfold kAllocItems
  rw [found, Option.bind_eq_bind, Option.bind_some, isList, if_neg (by decide),
    if_neg fun full => more (size.mpr full)]
  unfold allocation
  split
  · rw [overflow]
    rfl
  · rw [Option.bind_eq_bind, Option.bind_some, overflow]
    rfl

/-- The K_LIST with a new block. -/
theorem kAllocItems_refilled (here : s.rows[0]? = some []) {n : Nat}
    (more : blockSize config s.blocks = n + 1) (room : Allocatable config s) :
    ∃ m' list, kAllocItems m 0 = some m' ∧ m'.lists[0]? = some list ∧
      Shape config m' ⟨s.rows.set 0 (blockItems s.blocks.length (n + 1)),
        s.held, s.blocks ++ [n + 1]⟩ ∧
      RowsApart config m' ⟨s.rows.set 0 (blockItems s.blocks.length (n + 1)),
        s.held, s.blocks ++ [n + 1]⟩ [0] ∧
      list.head = some (s.blocks.length, 0) ∧ list.count.val = ((n + 1 : Nat) : Int) ∧
      (config.doTail → list.tail = some (s.blocks.length, (n : Int))) ∧
      m'.links = linkItems m.links s.blocks.length (n + 1 : Nat) := by
  obtain ⟨list, found, isList, doTail, _, allocate, limit, total, size⟩ :=
    empty_list inv positive here
  have shape := inv.shape
  obtain ⟨number, allocated, value, most⟩ :=
    allocation_some allocate limit total shape.limited positive room
  obtain ⟨sum, added, sumValue⟩ :=
    CInt.add_defined list.total number.val (by have := list.total.lower; omega)
    (by rw [total]; have := room.2; omega)
  rw [more] at value
  have ran :=
    kAllocItems_some found isList (fun full => by have := size.mpr full; omega) allocated added
  have items : number.val.toNat = n + 1 := by omega
  rw [items, value, shape.blocks] at ran
  obtain ⟨inside, _⟩ := List.getElem?_eq_some_iff.mp found
  have fresh : ∀ a ∈ s.rows.flatten ++ s.held, a ∉ blockItems s.blocks.length (n + 1) :=
    fun a old new => by
    have grown := allItems_nodup (s.blocks ++ [n + 1])
    rw [allItems_append] at grown
    exact List.disjoint_of_nodup_append grown (shape.kept.mem_iff.mp old) new
  refine ⟨_, _, ran, List.getElem?_set_self inside, ⟨?_, rfl, ?_, ⟨?_, ?_⟩, fun bound => ?_⟩, ?_,
    rfl, ?_, fun tracked => ?_, rfl⟩
  · rw [List.length_set, List.length_set, shape.lists]
  · obtain ⟨rest, whole, replaced, _⟩ := split_rows here
    rw [allItems_append]
    calc (s.rows.set 0 (blockItems s.blocks.length (n + 1))).flatten ++ s.held
      _ |>.Perm (blockItems s.blocks.length (n + 1) ++ rest ++ s.held) :=
        (replaced _).append_right s.held
      _ |>.Perm (blockItems s.blocks.length (n + 1) ++ (s.rows.flatten ++ s.held)) := by
        rw [List.append_assoc]
        exact ((whole.symm).append_right s.held).append_left _
      _ |>.Perm (blockItems s.blocks.length (n + 1) ++ allItems s.blocks) :=
        shape.kept.append_left _
      _ |>.Perm (allItems s.blocks ++ blockItems s.blocks.length (n + 1)) := List.perm_append_comm
  · intro k other at_k
    rcases getElem_set m.lists 0 k _ other at_k with ⟨rfl, rfl⟩ | ⟨_, at_k⟩
    · exact ⟨isList, doTail⟩
    · exact shape.tables.kind k other at_k
  · refine ⟨_, List.getElem?_set_self inside, ?_, allocate, limit⟩
    show sum.val = _
    rw [sumValue, value, total, List.sum_append, List.sum_singleton]
    omega
  · rw [List.sum_append, List.sum_singleton]
    have below := shape.limited bound
    unfold blockSize at more
    rw [if_pos bound] at more
    omega
  · intro k other row apart at_k at_row
    have notFirst : k ≠ 0 := by simpa using apart
    rcases getElem_set m.lists 0 k _ other at_k with ⟨equal, _⟩ | ⟨_, at_k⟩
    · exact absurd equal notFirst
    · rcases getElem_set s.rows 0 k _ row at_row with ⟨equal, _⟩ | ⟨_, at_row⟩
      · exact absurd equal notFirst
      · have old := inv.rows k other row List.not_mem_nil at_k at_row
        exact ⟨(sameOff_linkItems m.links s.blocks.length (n + 1) n.succ_pos).segment old.linked
          fun a member => fresh a (mem_of_row at_row member), old.head, old.tail, old.count⟩
  · exact value
  · show (if list.doTail then some (s.blocks.length, number.val - 1) else list.tail) = _
    rw [doTail, if_pos tracked, value]
    simp

omit positive in
theorem unlinkHead_item {l : Nat} {item : Addr} {row : List Addr}
    (here : s.rows[l]? = some (item :: row)) :
    ∃ m', kUnlinkHead m l = some (m', some item) ∧ Inv config m' (s.take l row item) := by
  obtain ⟨list, found⟩ := inv.shape.found here
  have holds := inv.rows l list _ List.not_mem_nil found here
  obtain ⟨prev, next, rest⟩ := holds.linked
  rw [Option.or_none] at next
  obtain ⟨m', ran, inv'⟩ :=
    takeHead_inv inv.shape (inv.rows.skip [l]) found here rest next holds.head holds.tail
      holds.count
  refine ⟨m', ?_, inv'⟩
  unfold kUnlinkHead
  rw [found, Option.bind_eq_bind, Option.bind_some, holds.head]
  exact ran

theorem unlinkHead_none {l : Nat} (here : s.rows[l]? = some [])
    (full : l = 0 → blockSize config s.blocks = 0) :
    kUnlinkHead m l = some (m, none) := by
  obtain ⟨list, found⟩ := inv.shape.found here
  have head := (inv.rows l list _ List.not_mem_nil found here).head
  unfold kUnlinkHead
  rw [found, Option.bind_eq_bind, Option.bind_some, head, (inv.shape.tables.kind l list found).1]
  by_cases first : l = 0
  · subst first
    rw [kAllocItems_full inv positive here (full rfl)]
    exact takeHead_empty found head
  · rw [if_neg (by simp [first])]
    exact takeHead_empty found head

theorem unlinkHead_refill (here : s.rows[0]? = some []) {n : Nat}
    (more : blockSize config s.blocks = n + 1) :
    Exact config (Allocatable config s) (kUnlinkHead m 0)
      (Spec.take { s with blocks := s.blocks ++ [n + 1] } 0 (blockRest s.blocks.length n)
        (s.blocks.length, 0))
      (some (s.blocks.length, 0)) := by
  obtain ⟨list, found, isList, _, head, _⟩ := empty_list inv positive here
  have opened : kUnlinkHead m 0 = (kAllocItems m 0).bind fun m => takeHead m 0 := by
    unfold kUnlinkHead
    rw [found, Option.bind_eq_bind, Option.bind_some, head, isList]
    rfl
  rw [opened]
  constructor
  · intro room
    obtain ⟨m', list', ran, found', shape, others, head', count, tail, links⟩ :=
      kAllocItems_refilled inv positive here more room
    obtain ⟨rest, next⟩ := blockRest_linked m.links s.blocks.length n
    rw [← links] at rest next
    rw [blockItems_succ] at shape others
    obtain ⟨inside, _⟩ := List.getElem?_eq_some_iff.mp here
    obtain ⟨last, size⟩ := blockItems_ends s.blocks.length n
    rw [blockItems_succ] at last size
    obtain ⟨m'', taken, inv'⟩ :=
      takeHead_inv shape others found' (List.getElem?_set_self inside) rest next head'
      (fun tracked => (tail tracked).trans last.symm) (count.trans (by rw [size]))
    refine ⟨m'', by rw [ran]; exact taken, ?_⟩
    unfold Spec.take at inv' ⊢
    rw [List.set_set] at inv'
    exact inv'
  · intro m' defined _
    by_contra out
    rw [kAllocItems_none inv positive here (by omega) out] at defined
    cases defined

end

end CgminerT4.Guarantees.ListRefill
