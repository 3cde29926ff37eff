import CgminerT4.Guarantees.ListInvariant

/-!
# Transfers between lists

A whole row is moved to an end of another one. When both are the same list its
items are lost.
-/
namespace CgminerT4.Guarantees.ListTransfers
open Source.Klist Library.DoublyLinked Library.SignedInt
open Guarantees.ListRows Guarantees.ListInvariant

/-! ## Transfers -/

/-- Writing what is there. -/
theorem set_here {β : Type} {table : List β} {l : Nat} {value : β} (here : table[l]? = some value) :
    table.set l value = table := by
  obtain ⟨inside, same⟩ := List.getElem?_eq_some_iff.mp here
  rw [← same]
  exact List.set_getElem_self inside

/-- Moving one row into another keeps the items there are. -/
theorem move_rows {rows : List (List Addr)} {src dst : Nat} {source target row : List Addr}
    (apart : src ≠ dst) (at_src : rows[src]? = some source) (at_dst : rows[dst]? = some target)
    (joined : row.Perm (source ++ target)) :
    ((rows.set dst row).set src []).flatten.Perm rows.flatten := by
  obtain ⟨rest, whole, replaced, _⟩ := split_rows at_dst
  have at_src' : (rows.set dst row)[src]? = some source :=
    (List.getElem?_set_ne apart.symm).trans at_src
  obtain ⟨rest', whole', replaced', _⟩ := split_rows at_src'
  refine (replaced' []).trans ?_
  refine (List.perm_append_left_iff source).mp ?_
  calc source ++ rest'
    _ |>.Perm (rows.set dst row).flatten := whole'.symm
    _ |>.Perm (row ++ rest) := replaced row
    _ |>.Perm (source ++ target ++ rest) := joined.append_right rest
    _ |>.Perm (source ++ (target ++ rest)) := by rw [List.append_assoc]
    _ |>.Perm (source ++ rows.flatten) := whole.symm.append_left source

/-- Two rows share no item. -/
theorem rows_apart {config : Config} {m : Memory} {s : Spec} (shape : Shape config m s) {k l : Nat}
    {one other : List Addr} (apart : k ≠ l) (at_k : s.rows[k]? = some one)
    (at_l : s.rows[l]? = some other) : one.Disjoint other := by
  obtain ⟨rest, whole, _, others⟩ := split_rows at_l
  have distinct := (List.nodup_append'.mp shape.distinct).1
  rw [whole.nodup_iff] at distinct
  exact fun a inOne inOther => List.disjoint_of_nodup_append distinct inOther
    (others k one apart at_k a inOne)

/-- A row moved to the end or the start of another one. -/
theorem move_inv {config : Config} {m : Memory} {s : Spec} (inv : Inv config m s) {src dst : Nat}
    (apart : src ≠ dst) {source target source' target' : KList}
    {sourceRow targetRow row : List Addr} (foundSource : m.lists[src]? = some source)
    (foundTarget : m.lists[dst]? = some target) (at_src : s.rows[src]? = some sourceRow)
    (at_dst : s.rows[dst]? = some targetRow) (joined : row.Perm (sourceRow ++ targetRow))
    {links : Links Addr} (same : SameOff row m.links links) (fixedSource : Fixed source source')
    (fixedTarget : Fixed target target') (emptied : Holds links config.doTail source' [])
    (filled : Holds links config.doTail target' row) :
    Inv config ⟨m.blocks, links, (m.lists.set dst target').set src source'⟩
      (s.move src dst row) := by
  have shape := inv.shape
  have foundSource' : (m.lists.set dst target')[src]? = some source :=
    (List.getElem?_set_ne apart.symm).trans foundSource
  unfold Spec.move
  rw [if_neg apart]
  refine ⟨⟨?_, shape.blocks, ?_,
    (shape.tables.set foundTarget fixedTarget).set foundSource' fixedSource, shape.limited⟩,
    fun k list other _ at_k at_row => ?_⟩
  · rw [List.length_set, List.length_set, List.length_set, List.length_set, shape.lists]
  · exact ((move_rows apart at_src at_dst joined).append_right s.held).trans shape.kept
  · rcases getElem_set _ src k source' list at_k with ⟨rfl, rfl⟩ | ⟨notSource, at_k⟩
    · rcases getElem_set _ k k [] other at_row with ⟨_, rfl⟩ | ⟨differs, _⟩
      · exact emptied
      · exact absurd rfl differs
    · rcases getElem_set _ src k [] other at_row with ⟨equal, _⟩ | ⟨_, at_row⟩
      · exact absurd equal notSource
      · rcases getElem_set m.lists dst k target' list at_k with ⟨rfl, rfl⟩ | ⟨notTarget, at_k⟩
        · rcases getElem_set s.rows k k row other at_row with ⟨_, rfl⟩ | ⟨differs, _⟩
          · exact filled
          · exact absurd rfl differs
        · rcases getElem_set s.rows dst k row other at_row with ⟨equal, _⟩ | ⟨_, at_row⟩
          · exact absurd equal notTarget
          · have old := inv.rows k list other List.not_mem_nil at_k at_row
            refine ⟨same.segment old.linked fun a member touched => ?_, old.head, old.tail,
              old.count⟩
            rcases List.mem_append.mp (joined.mem_iff.mp touched) with inSource | inTarget
            · exact rows_apart shape notSource at_row at_src member inSource
            · exact rows_apart shape notTarget at_row at_dst member inTarget

section
variable {blocks : List Nat} {links : Links Addr} {lists : List KList} {src dst : Nat}
  {source target : KList}

/-- The counters behind a transfer between two lists. -/
theorem moveCounts_eq (apart : src ≠ dst) (foundSource : lists[src]? = some source)
    (foundTarget : lists[dst]? = some target) :
    moveCounts ⟨blocks, links, lists⟩ src dst =
      (target.count.add source.count.val).bind fun count =>
        (target.countUp.add source.countUp.val).map fun countUp =>
        ⟨blocks, links, (lists.set dst (ended target target.head target.tail count countUp)).set src
          (ended source none none .zero .zero)⟩ := by
  obtain ⟨insideSource, _⟩ := List.getElem?_eq_some_iff.mp foundSource
  obtain ⟨insideTarget, _⟩ := List.getElem?_eq_some_iff.mp foundTarget
  have merged : ∀ s1 s2 s3 t1 t2 : KList,
      ((((lists.set src s1).set dst t1).set src s2).set dst t2).set src s3 =
      (lists.set dst t2).set src s3 := by
    intro s1 s2 s3 t1 t2
    rw [List.set_comm t1 s2 apart.symm, List.set_set, List.set_set, List.set_comm t2 s3 apart.symm,
      List.set_set, List.set_comm s3 t2 apart]
  unfold moveCounts
  simp only [Memory.setList, foundSource, foundTarget, Option.bind_eq_bind, Option.bind_some, ne_eq,
    apart, apart.symm, not_false_eq_true, List.getElem?_set_self, List.getElem?_set_ne,
    List.length_set, insideSource, insideTarget, merged, Option.map_eq_bind]
  rfl

/-- With one list for both, it comes out empty whatever the counters were. -/
theorem moveCounts_self (found : lists[src]? = some source) :
    moveCounts ⟨blocks, links, lists⟩ src src =
      (source.count.add source.count.val).bind fun _ =>
        (source.countUp.add source.countUp.val).map fun _ =>
        ⟨blocks, links, lists.set src (ended source none none .zero .zero)⟩ := by
  obtain ⟨inside, _⟩ := List.getElem?_eq_some_iff.mp found
  unfold moveCounts
  simp only [Memory.setList, found, Option.bind_eq_bind, Option.bind_some, List.getElem?_set_self,
    inside, List.set_set, Option.map_eq_bind]
  rfl

theorem kListTransferToHead_eq (apart : src ≠ dst) (foundSource : lists[src]? = some source)
    (foundTarget : lists[dst]? = some target) (tracked : source.doTail = true) {last : Addr}
    (head : source.head ≠ none) (tail : source.tail = some last) (isLast : IsItem blocks last)
    (isHead : ∀ a, target.head = some a → IsItem blocks a) :
    kListTransferToHead ⟨blocks, links, lists⟩ src dst =
      (target.count.add source.count.val).bind fun count =>
        (target.countUp.add source.countUp.val).map fun countUp =>
        ⟨blocks, links.join (some last) target.head, (lists.set dst (ended target source.head
          (if target.head.isNone then some last else target.tail) count countUp)).set src
          (ended source none none .zero .zero)⟩ := by
  obtain ⟨insideTarget, _⟩ := List.getElem?_eq_some_iff.mp foundTarget
  have still : ∀ new, (lists.set dst new)[src]? = some source := fun new =>
    (List.getElem?_set_ne apart.symm).trans foundSource
  have at_target : ∀ new, (lists.set dst new)[dst]? = some new :=
    fun new => List.getElem?_set_self insideTarget
  unfold kListTransferToHead
  rw [foundSource, Option.bind_eq_bind, Option.bind_some, if_neg (by rw [tracked]; decide),
    if_neg (by simpa using head)]
  simp only [foundTarget, Option.bind_eq_bind, Option.bind_some, setPrevOf_item isHead]
  cases targetHead : target.head with
  | none =>
    simp only [Option.isNone_none, if_true, Memory.setList, still, at_target, tail,
      Option.bind_some, setNext_item isLast, List.set_set]
    rw [moveCounts_eq apart (still _) (at_target _)]
    simp only [List.set_set]
    rfl
  | some first =>
    simp only [Option.isNone_some, Bool.false_eq_true, if_false, Memory.setList, foundSource,
      foundTarget, tail, targetHead, Option.bind_some, setNext_item isLast, setNext_setPrevOf]
    rw [moveCounts_eq apart (still _) (at_target _)]
    simp only [List.set_set]
    rfl

theorem kListTransferToTail_eq (apart : src ≠ dst) (foundSource : lists[src]? = some source)
    (foundTarget : lists[dst]? = some target) (tracked : source.doTail = true) {first : Addr}
    (head : source.head = some first) (isFirst : IsItem blocks first)
    (isTail : ∀ a, target.tail = some a → IsItem blocks a) :
    kListTransferToTail ⟨blocks, links, lists⟩ src dst =
      (target.count.add source.count.val).bind fun count =>
        (target.countUp.add source.countUp.val).map fun countUp =>
        ⟨blocks, links.join target.tail (some first),
          (lists.set dst (ended target (if target.tail.isNone then some first else target.head)
            source.tail count countUp)).set src (ended source none none .zero .zero)⟩ := by
  obtain ⟨insideTarget, _⟩ := List.getElem?_eq_some_iff.mp foundTarget
  have still : ∀ new, (lists.set dst new)[src]? = some source := fun new =>
    (List.getElem?_set_ne apart.symm).trans foundSource
  have at_target : ∀ new, (lists.set dst new)[dst]? = some new :=
    fun new => List.getElem?_set_self insideTarget
  unfold kListTransferToTail
  rw [foundSource, Option.bind_eq_bind, Option.bind_some, if_neg (by rw [tracked]; decide),
    if_neg (by rw [head]; simp)]
  simp only [foundTarget, Option.bind_eq_bind, Option.bind_some, setNextOf_item isTail]
  cases targetTail : target.tail with
  | none =>
    simp only [Option.isNone_none, if_true, Memory.setList, still, at_target, head,
      Option.bind_some, setPrev_item isFirst, List.set_set]
    rw [moveCounts_eq apart (still _) (at_target _)]
    simp only [List.set_set]
    rfl
  | some last =>
    simp only [Option.isNone_some, Bool.false_eq_true, if_false, Memory.setList, foundSource,
      foundTarget, head, targetTail, Option.bind_some, setPrev_item isFirst]
    rw [moveCounts_eq apart (still _) (at_target _)]
    simp only [List.set_set]
    rfl

/-- Links are written beside the lists. -/
theorem setPrev_lists {m m' : Memory} {a : Addr} {value : Option Addr}
    (ran : m.setPrev a value = some m') :
    m'.lists = m.lists := by
  unfold Memory.setPrev at ran
  split at ran
  · cases ran
    rfl
  · cases ran

theorem setNext_lists {m m' : Memory} {a : Addr} {value : Option Addr}
    (ran : m.setNext a value = some m') :
    m'.lists = m.lists := by
  unfold Memory.setNext at ran
  split at ran
  · cases ran
    rfl
  · cases ran

theorem moveCounts_emptied {m m' : Memory} (inside : src < m.lists.length)
    (ran : moveCounts m src src = some m') :
    ∃ list, m'.lists[src]? = some list ∧ list.head = none := by
  have moved := (moveCounts_self (List.getElem?_eq_getElem inside)).symm.trans ran
  obtain ⟨_, _, moved⟩ := Option.bind_eq_some_iff.mp moved
  obtain ⟨_, _, rfl⟩ := Option.map_eq_some_iff.mp moved
  exact ⟨_, List.getElem?_set_self inside, rfl⟩

/-- A list moved to itself comes out empty. -/
theorem kListTransferToHead_self {m m' : Memory} (found : m.lists[src]? = some source)
    (tracked : source.doTail = true) {first : Addr} (head : source.head = some first)
    (ran : kListTransferToHead m src src = some m') :
    ∃ list, m'.lists[src]? = some list ∧ list.head = none := by
  obtain ⟨inside, _⟩ := List.getElem?_eq_some_iff.mp found
  simp only [kListTransferToHead, found, tracked, head, Option.bind_eq_bind, Option.bind_some,
    Bool.not_true, Bool.false_eq_true, if_false, Option.isNone_some] at ran
  obtain ⟨m1, written, ran⟩ := Option.bind_eq_some_iff.mp ran
  have lists1 := setPrev_lists (written : m.setPrev first source.tail = some m1)
  simp only [lists1, found, Option.bind_some] at ran
  obtain ⟨last, _, ran⟩ := Option.bind_eq_some_iff.mp ran
  obtain ⟨m2, written', ran⟩ := Option.bind_eq_some_iff.mp ran
  refine moveCounts_emptied ?_ ran
  show src < (m2.lists.set src _).length
  rw [List.length_set, setNext_lists written', lists1]
  exact inside

theorem kListTransferToTail_self {m m' : Memory} (found : m.lists[src]? = some source)
    (tracked : source.doTail = true) {first last : Addr} (head : source.head = some first)
    (tail : source.tail = some last) (ran : kListTransferToTail m src src = some m') :
    ∃ list, m'.lists[src]? = some list ∧ list.head = none := by
  obtain ⟨inside, _⟩ := List.getElem?_eq_some_iff.mp found
  simp only [kListTransferToTail, found, tracked, head, tail, Option.bind_eq_bind, Option.bind_some,
    Bool.not_true, Bool.false_eq_true, if_false, Option.isNone_some] at ran
  obtain ⟨m1, written, ran⟩ := Option.bind_eq_some_iff.mp ran
  have lists1 := setNext_lists (written : m.setNext last (some first) = some m1)
  simp only [lists1, found, head, Option.bind_some] at ran
  obtain ⟨m2, written', ran⟩ := Option.bind_eq_some_iff.mp ran
  refine moveCounts_emptied ?_ ran
  show src < (m2.lists.set src _).length
  rw [List.length_set, setPrev_lists written', lists1]
  exact inside

end

section
variable {config : Config} {m : Memory} {s : Spec} (inv : Inv config m s) {src dst : Nat}
include inv

/-- Nothing happens when the source is empty. -/
theorem empty_exact {row : List Addr} {result : Option Memory} (at_src : s.rows[src]? = some [])
    (at_dst : s.rows[dst]? = some row) (ran : result = some m) :
    Exact config (Transferable m s src dst) (result.map void) (s.move src dst row) none := by
  refine exact_of_kept (.inl at_src) ⟨m, by rw [ran]; rfl, ?_⟩
  have unchanged : s.move src dst row = s := by
    unfold Spec.move
    rw [set_here at_dst, set_here at_src]
    split <;> rfl
  rw [unchanged]
  exact inv

omit inv in
/-- A list with items moved to itself loses them, so it must not be its own target. -/
theorem self_exact {row : List Addr} {item : Addr} {rest : List Addr} {result : Option Memory}
    (here : s.rows[src]? = some (item :: rest))
    (emptied : ∀ m', result = some m' → ∃ list, m'.lists[src]? = some list ∧ list.head = none) :
    Exact config (Transferable m s src src) (result.map void) (s.move src src row) none := by
  constructor
  · rintro (empty | ⟨apart, _⟩)
    · rw [here] at empty
      cases empty
    · exact absurd rfl apart
  · intro m' defined sound
    obtain ⟨m'', ran, same⟩ := Option.map_eq_some_iff.mp defined
    cases same
    obtain ⟨list, found, head⟩ := emptied m' ran
    unfold Spec.move at sound
    rw [if_pos rfl] at sound
    have forward := (sound.row src list _ found here).forward
    rw [head] at forward
    cases forward

/-- Between two lists a transfer is as claimed exactly if the counters have room. -/
theorem transferred_exact (apart : src ≠ dst) {source target : KList} {item : Addr}
    {rest targetRow row : List Addr} (foundSource : m.lists[src]? = some source)
    (foundTarget : m.lists[dst]? = some target) (at_src : s.rows[src]? = some (item :: rest))
    (at_dst : s.rows[dst]? = some targetRow) (joined : row.Perm (item :: rest ++ targetRow))
    {links : Links Addr} (same : SameOff row m.links links) (linked : Linked links row)
    {head tail : Option Addr} (newHead : head = row.head?) (newTail : tail = row.getLast?)
    {result : Option Memory}
    (ran : result = (target.count.add source.count.val).bind fun count =>
      (target.countUp.add source.countUp.val).map fun countUp =>
        ⟨m.blocks, links, (m.lists.set dst (ended target head tail count countUp)).set src
          (ended source none none .zero .zero)⟩) :
    Exact config (Transferable m s src dst) (result.map void) (s.move src dst row) none := by
  constructor
  · rintro (empty | ⟨_, room⟩)
    · rw [at_src] at empty
      cases empty
    · have sourceCount := (inv.rows src source _ List.not_mem_nil foundSource at_src).count
      have targetCount := (inv.rows dst target _ List.not_mem_nil foundTarget at_dst).count
      have total : ((item :: rest).length : Int) + targetRow.length < 2 ^ 31 := by
        have distinct : (item :: rest ++ targetRow).Nodup := List.nodup_append'.mpr
          ⟨inv.shape.row_distinct at_src, inv.shape.row_distinct at_dst,
            rows_apart inv.shape apart at_src at_dst⟩
        have bound :=
          (List.subperm_of_subset distinct fun a member =>
            (List.mem_append.mp member).elim (mem_of_row at_src)
          (mem_of_row at_dst)).length_le
        rw [inv.shape.length, List.length_append] at bound
        obtain ⟨first, _, value, _⟩ := inv.shape.tables.first
        have := first.total.upper
        omega
      obtain ⟨count, added, value⟩ :=
        CInt.add_defined target.count source.count.val (by omega) (by omega)
      obtain ⟨countUp, addedUp, _⟩ := CInt.add_defined target.countUp source.countUp.val
        (room source target foundSource foundTarget).1
          (room source target foundSource foundTarget).2
      rw [added, Option.bind_some, addedUp, Option.map_some] at ran
      refine ⟨_, by rw [ran]; rfl,
        move_inv inv apart foundSource foundTarget at_src at_dst joined same (ended_fixed ..)
        (ended_fixed ..) ⟨trivial, rfl, fun _ => rfl, rfl⟩ ⟨linked, newHead, fun _ => newTail, ?_⟩⟩
      show count.val = (row.length : Int)
      rw [joined.length_eq, List.length_append]
      omega
  · intro m' defined _
    refine .inr ⟨apart, fun other other' found found' => ?_⟩
    rw [foundSource] at found
    rw [foundTarget] at found'
    cases found
    cases found'
    by_contra out
    rw [ran, add_undefined _ _ out] at defined
    cases added : target.count.add source.count.val <;> rw [added] at defined <;> cases defined

theorem transferToHead_exact {sourceRow targetRow : List Addr}
    (at_src : s.rows[src]? = some sourceRow) (at_dst : s.rows[dst]? = some targetRow)
    (tracked : config.doTail) :
    Exact config (Transferable m s src dst) ((kListTransferToHead m src dst).map void)
      (s.move src dst (sourceRow ++ targetRow)) none := by
  obtain ⟨source, foundSource⟩ := inv.shape.found at_src
  obtain ⟨target, foundTarget⟩ := inv.shape.found at_dst
  have fromRow := inv.rows src source _ List.not_mem_nil foundSource at_src
  have toRow := inv.rows dst target _ List.not_mem_nil foundTarget at_dst
  have sourceTail := (inv.shape.tables.kind src source foundSource).2.trans tracked
  cases sourceRow with
  | nil =>
    have ran : kListTransferToHead m src dst = some m := by
      simp [kListTransferToHead, foundSource, sourceTail, fromRow.head]
    exact empty_exact inv at_src at_dst ran
  | cons item rest =>
    have isItem := fun a member => inv.shape.isItem (a := a) (mem_of_row at_src member)
    by_cases same : src = dst
    · subst same
      exact self_exact at_src fun m' ran =>
        kListTransferToHead_self foundSource sourceTail fromRow.head ran
    · have isHead : ∀ a, target.head = some a → IsItem m.blocks a := fun a first =>
        inv.shape.isItem (mem_of_row at_dst (List.mem_of_head? (toRow.head.symm.trans first)))
      obtain ⟨last, lastItem⟩ : ∃ last, (item :: rest).getLast? = some last :=
        ⟨_, List.getLast?_cons⟩
      have distinct : (item :: rest ++ targetRow).Nodup := List.nodup_append'.mpr
        ⟨inv.shape.row_distinct at_src, inv.shape.row_distinct at_dst,
          rows_apart inv.shape same at_src at_dst⟩
      have ran : kListTransferToHead m src dst = _ :=
        kListTransferToHead_eq same foundSource foundTarget sourceTail
        (by rw [fromRow.head]; simp) ((fromRow.tail tracked).trans lastItem)
          (isItem last (List.mem_of_getLast? lastItem)) isHead
      rw [fromRow.head, toRow.head, ← lastItem] at ran
      refine transferred_exact inv same foundSource foundTarget at_src at_dst (List.Perm.refl _)
        (sameOff_join m.links (item :: rest) targetRow) (fromRow.linked.join toRow.linked distinct)
          rfl ?_ ran
      rw [toRow.tail tracked]
      cases targetRow with
      | nil => rw [List.append_nil]; rfl
      | cons first back => rw [List.getLast?_append_cons]; rfl

theorem transferToTail_exact {sourceRow targetRow : List Addr}
    (at_src : s.rows[src]? = some sourceRow) (at_dst : s.rows[dst]? = some targetRow)
    (tracked : config.doTail) :
    Exact config (Transferable m s src dst) ((kListTransferToTail m src dst).map void)
      (s.move src dst (targetRow ++ sourceRow)) none := by
  obtain ⟨source, foundSource⟩ := inv.shape.found at_src
  obtain ⟨target, foundTarget⟩ := inv.shape.found at_dst
  have fromRow := inv.rows src source _ List.not_mem_nil foundSource at_src
  have toRow := inv.rows dst target _ List.not_mem_nil foundTarget at_dst
  have sourceTail := (inv.shape.tables.kind src source foundSource).2.trans tracked
  cases sourceRow with
  | nil =>
    have ran : kListTransferToTail m src dst = some m := by
      simp [kListTransferToTail, foundSource, sourceTail, fromRow.head]
    rw [List.append_nil]
    exact empty_exact inv at_src at_dst ran
  | cons item rest =>
    have isItem := fun a member => inv.shape.isItem (a := a) (mem_of_row at_src member)
    by_cases same : src = dst
    · subst same
      obtain ⟨last, lastItem⟩ : ∃ last, (item :: rest).getLast? = some last :=
        ⟨_, List.getLast?_cons⟩
      exact self_exact at_src fun m' ran =>
        kListTransferToTail_self foundSource sourceTail fromRow.head
          ((fromRow.tail tracked).trans lastItem) ran
    · have isTail : ∀ a, target.tail = some a → IsItem m.blocks a := fun a last =>
        inv.shape.isItem
          (mem_of_row at_dst (List.mem_of_getLast? ((toRow.tail tracked).symm.trans last)))
      have distinct : (targetRow ++ item :: rest).Nodup := List.nodup_append'.mpr
        ⟨inv.shape.row_distinct at_dst, inv.shape.row_distinct at_src,
          rows_apart inv.shape (Ne.symm same) at_dst at_src⟩
      have ran : kListTransferToTail m src dst = _ :=
        kListTransferToTail_eq same foundSource foundTarget sourceTail
        fromRow.head (isItem item List.mem_cons_self) isTail
      rw [toRow.tail tracked, fromRow.tail tracked] at ran
      refine transferred_exact inv same foundSource foundTarget at_src at_dst List.perm_append_comm
        (sameOff_join m.links targetRow (item :: rest))
          (toRow.linked.join fromRow.linked distinct) ?_ ?_ ran
      · rw [toRow.head]
        cases targetRow with
        | nil => rfl
        | cons first back =>
          rw [List.getLast?_cons]
          rfl
      · rw [List.getLast?_append_cons]

end

end CgminerT4.Guarantees.ListTransfers
