import CgminerT4.Guarantees.ListTransfers
import CgminerT4.Guarantees.ListRefill
import CgminerT4.Library.Runs

/-!
# What lists of items hold

Every operation acts on the rows as the list operation it stands for exactly if
its condition holds, and so does every run.
-/
namespace CgminerT4.Guarantees.ListRepresentation
open Source.Klist Library.DoublyLinked Library.SignedInt Library.Runs
open Guarantees.ListRows Guarantees.ListInvariant Guarantees.ListTransfers Guarantees.ListRefill

/-! ## One step -/

theorem newStore_inv {config : Config} {m : Memory} {s : Spec} (inv : Inv config m s) :
    ∃ m', kNewStore m 0 = some m' ∧ Inv config m' { s with rows := s.rows ++ [[]] } := by
  have shape := inv.shape
  obtain ⟨list, found, total, allocate, limit⟩ := shape.tables.first
  obtain ⟨inside, _⟩ := List.getElem?_eq_some_iff.mp found
  have doTail := (shape.tables.kind 0 list found).2
  unfold kNewStore
  rw [found]
  refine ⟨_, rfl, ⟨?_, shape.blocks, ?_, ⟨fun l other at_l => ?_, list, ?_, total, allocate, limit⟩,
    shape.limited⟩,
    fun l other row _ at_l at_row => ?_⟩
  · rw [List.length_append, List.length_append, shape.lists]
    rfl
  · rw [List.flatten_append, List.flatten_singleton, List.append_nil]
    exact shape.kept
  · rcases getElem_push m.lists l _ other at_l with ⟨rfl, rfl⟩ | ⟨_, at_l⟩
    · exact ⟨(decide_eq_true (by omega)).symm, doTail⟩
    · exact shape.tables.kind l other at_l
  · rw [List.getElem?_append_left inside]
    exact found
  · rcases getElem_push m.lists l _ other at_l with ⟨rfl, rfl⟩ | ⟨bound, at_l⟩
    · rcases getElem_push s.rows m.lists.length [] row at_row with ⟨_, rfl⟩ | ⟨bound, _⟩
      · exact ⟨trivial, rfl, fun _ => rfl, rfl⟩
      · rw [shape.lists] at bound
        omega
    · rcases getElem_push s.rows l [] row at_row with ⟨last, _⟩ | ⟨_, at_row⟩
      · rw [shape.lists] at bound
        omega
      · exact inv.rows l other row List.not_mem_nil at_l at_row

theorem insertBefore_split {item before : Addr} {front back : List Addr} (first : before ∉ front) :
    insertBefore item before (front ++ before :: back) = front ++ item :: before :: back := by
  induction front with
  | nil => exact if_pos rfl
  | cons a front ih =>
    rw [List.mem_cons, not_or] at first
    rw [List.cons_append, insertBefore, if_neg (Ne.symm first.1), ih first.2, List.cons_append]

theorem insertAfter_split {item after : Addr} {front back : List Addr} (first : after ∉ front) :
    insertAfter item after (front ++ after :: back) = front ++ after :: item :: back := by
  induction front with
  | nil => exact if_pos rfl
  | cons a front ih =>
    rw [List.mem_cons, not_or] at first
    rw [List.cons_append, insertAfter, if_neg (Ne.symm first.1), ih first.2, List.cons_append]

/-- Unlinking the first item, of an empty list too: the free list is refilled first. -/
theorem unlinkHead_exact {config : Config} {m : Memory} {s s' : Spec} {l : Nat}
    {returned : Option Addr} (inv : Inv config m s) (positive : 0 < config.allocate.val)
    (taken : specStep config s (.unlinkHead l) = some (s', returned)) :
    Exact config (Proper config m s (.unlinkHead l)) (codeStep m (.unlinkHead l)) s' returned := by
  obtain ⟨row, here, taken⟩ := Option.bind_eq_some_iff.mp taken
  cases row with
  | cons item row =>
    have kept : refill config s l (item :: row) = (s, item :: row) :=
      if_neg fun all => by cases all.2.1
    rw [kept] at taken
    cases taken
    refine exact_of_kept (fun _ empty => ?_) (unlinkHead_item inv here)
    rw [here] at empty
    cases empty
  | nil =>
    by_cases full : l = 0 → blockSize config s.blocks = 0
    · have kept : refill config s l [] = (s, []) := if_neg fun all => all.2.2 (full all.1)
      rw [kept] at taken
      cases taken
      exact exact_of_kept (fun first _ more => absurd (full first) more) ⟨m,
        unlinkHead_none inv positive here full, inv⟩
    · obtain ⟨rfl, more⟩ := Classical.not_imp.mp full
      obtain ⟨n, size⟩ := Nat.exists_eq_succ_of_ne_zero more
      have grown : refill config s 0 [] =
          ({ s with blocks := s.blocks ++ [blockSize config s.blocks] },
          blockItems s.blocks.length (blockSize config s.blocks)) := if_pos ⟨rfl, rfl, more⟩
      rw [grown, size, blockItems_succ] at taken
      cases taken
      have all := unlinkHead_refill inv positive here size
      exact ⟨fun proper => all.kept (proper rfl here more),
        fun m' ran sound _ _ _ => all.only m' ran sound⟩

theorem step_exact {config : Config} {m : Memory} {s s' : Spec} {e : Event} {returned : Option Addr}
    (inv : Inv config m s) (positive : 0 < config.allocate.val)
    (taken : specStep config s e = some (s', returned)) :
    Exact config (Proper config m s e) (codeStep m e) s' returned := by
  cases e with
  | newStore =>
    cases taken
    obtain ⟨m', ran, inv'⟩ := newStore_inv inv
    exact exact_of_kept trivial ⟨m', by rw [codeStep, ran]; rfl, inv'⟩
  | unlinkHead l =>
    exact unlinkHead_exact inv positive taken
  | unlinkTail l =>
    obtain ⟨row, here, taken⟩ := Option.bind_eq_some_iff.mp taken
    split at taken
    · cases taken
    · rename_i tracked
      have tracked : config.doTail = true := by simpa using tracked
      rcases List.eq_nil_or_concat row with rfl | ⟨row, item, rfl⟩
      · cases taken
        exact exact_of_kept trivial ⟨m, unlinkTail_empty inv here tracked, inv⟩
      · rw [List.concat_eq_append] at here taken
        rw [List.getLast?_concat, List.dropLast_concat] at taken
        cases taken
        exact exact_of_kept trivial (unlinkTail_inv inv here tracked)
  | addHead l item =>
    obtain ⟨row, here, taken⟩ := Option.bind_eq_some_iff.mp taken
    split at taken
    · cases taken
      exact addHead_exact inv here ‹_›
    · cases taken
  | addTail l item =>
    obtain ⟨row, here, taken⟩ := Option.bind_eq_some_iff.mp taken
    split at taken
    · rename_i allowed
      cases taken
      exact addTail_exact inv here allowed.2 allowed.1
    · cases taken
  | insertBefore l item before =>
    obtain ⟨row, here, taken⟩ := Option.bind_eq_some_iff.mp taken
    split at taken
    · rename_i allowed
      obtain ⟨front, back, rfl, first⟩ := List.eq_append_cons_of_mem allowed.2
      rw [insertBefore_split first] at taken
      cases taken
      exact insertBefore_exact inv here allowed.1
    · cases taken
  | insertAfter l item after =>
    obtain ⟨row, here, taken⟩ := Option.bind_eq_some_iff.mp taken
    split at taken
    · rename_i allowed
      obtain ⟨front, back, rfl, first⟩ := List.eq_append_cons_of_mem allowed.2
      rw [insertAfter_split first] at taken
      cases taken
      exact insertAfter_exact inv here allowed.1
    · cases taken
  | unlinkItem l item =>
    obtain ⟨row, here, taken⟩ := Option.bind_eq_some_iff.mp taken
    split at taken
    · rename_i member
      obtain ⟨front, back, rfl, first⟩ := List.eq_append_cons_of_mem member
      rw [List.erase_append_right _ first, List.erase_cons_head] at taken
      cases taken
      obtain ⟨m', ran, inv'⟩ := unlinkItem_inv inv here
      exact exact_of_kept trivial ⟨m', by rw [codeStep, ran]; rfl, inv'⟩
    · cases taken
  | transferToHead src dst =>
    obtain ⟨source, at_src, taken⟩ := Option.bind_eq_some_iff.mp taken
    obtain ⟨target, at_dst, taken⟩ := Option.bind_eq_some_iff.mp taken
    split at taken
    · cases taken
      exact transferToHead_exact inv at_src at_dst ‹_›
    · cases taken
  | transferToTail src dst =>
    obtain ⟨source, at_src, taken⟩ := Option.bind_eq_some_iff.mp taken
    obtain ⟨target, at_dst, taken⟩ := Option.bind_eq_some_iff.mp taken
    split at taken
    · cases taken
      exact transferToTail_exact inv at_src at_dst ‹_›
    · cases taken

/-! ## Whole runs -/

def WorldInv (config : Config) (w : World) : Prop :=
  ∃ m, w.code = some (m, w.returned) ∧ Inv config m w.spec

theorem world_step {config : Config} (positive : 0 < config.allocate.val) {w next : World}
    {e : Event} (inv : WorldInv config w) (taken : step config w e = some next) :
    (Permitted config w e → WorldInv config next) ∧ (Good config next → Permitted config w e) := by
  obtain ⟨m, code, inv⟩ := inv
  obtain ⟨⟨spec, returned⟩, specTaken, rfl⟩ := Option.map_eq_some_iff.mp taken
  have all := step_exact inv positive specTaken
  have ran : (w.code.bind fun now => codeStep now.1 e) = codeStep m e := by rw [code]; rfl
  constructor
  · intro permitted
    obtain ⟨m', defined, inv'⟩ := all.kept (permitted m w.returned code)
    exact ⟨m', ran.trans defined, inv'⟩
  · rintro ⟨m', defined, sound⟩ other returned' same
    rw [code] at same
    cases same
    exact all.only m' (ran.symm.trans defined) sound

theorem WorldInv.good {config : Config} {w : World} (inv : WorldInv config w) : Good config w :=
  inv.imp fun _ both => ⟨both.1, both.2.sound⟩

/-- The K_LIST before its first block. -/
def unfilled (config : Config) : KList :=
  ⟨false, none, none, .zero, .zero, .zero, config.allocate, config.limit, config.doTail⟩

theorem unfilled_inv (config : Config) (nonnegative : 0 ≤ config.limit.val) :
    Inv config ⟨[], ⟨fun _ => none, fun _ => none⟩, [unfilled config]⟩ ⟨[[]], [], []⟩ := by
  have single : ∀ (l : Nat) list, [unfilled config][l]? = some list →
      l = 0 ∧ list = unfilled config := by
    intro l list found
    cases l with
    | zero =>
      cases found
      exact ⟨rfl, rfl⟩
    | succ l => cases found
  refine ⟨⟨rfl, rfl, List.Perm.refl _, ⟨fun l list found => ?_, _, rfl, rfl, rfl, rfl⟩,
    fun _ => nonnegative⟩,
    fun l list row _ found here => ?_⟩
  · obtain ⟨rfl, rfl⟩ := single l list found
    exact ⟨rfl, rfl⟩
  · obtain ⟨rfl, rfl⟩ := single l list found
    cases here
    exact ⟨trivial, rfl, fun _ => rfl, rfl⟩

theorem blockSize_one (config : Config) (positive : 0 < config.allocate.val)
    (nonnegative : 0 ≤ config.limit.val) :
    blockSize config [] = 1 ↔ config.allocate.val = 1 ∨ config.limit.val = 1 := by
  unfold blockSize
  rw [List.sum_nil]
  split <;> omega

/-- The first block makes a list as claimed unless it has only one item. -/
theorem begin_exact (config : Config) (positive : 0 < config.allocate.val)
    (nonnegative : 0 ≤ config.limit.val) :
    (Good config (begin config) ↔ blockSize config [] ≠ 1) ∧
    (blockSize config [] ≠ 1 → WorldInv config (begin config)) := by
  have size : blockSize config [] ≠ 0 := by
    unfold blockSize
    rw [List.sum_nil]
    split <;> omega
  obtain ⟨n, more⟩ := Nat.exists_eq_succ_of_ne_zero size
  have empty := unfilled_inv config nonnegative
  have room : Allocatable config ⟨[[]], [], []⟩ := by
    have := config.allocate.upper
    exact ⟨by show -2 ^ 31 ≤ ((0 : Nat) : Int) + _; omega, by show ((0 : Nat) : Int) + _ < 2 ^ 31; omega⟩
  obtain ⟨m, list, ran, found, shape, others, head, count, tail, links⟩ :=
    kAllocItems_refilled empty positive rfl more room
  have made : (begin config).code = some (m, none) := by
    show (kNewList config.allocate config.limit config.doTail).map void = _
    unfold kNewList
    rw [if_neg (by omega), if_neg (by omega)]
    exact congrArg (Option.map void) ran
  have spec : (begin config).spec = ⟨[blockItems 0 (n + 1)], [], [n + 1]⟩ := by
    show start config = _
    unfold start
    rw [more]
  obtain ⟨prev, _⟩ :=
    linkItems_links ⟨fun _ => none, fun _ => none⟩ 0 (n + 1) n.succ_pos 0 (by omega) (by omega)
  have filled : blockSize config [] ≠ 1 → WorldInv config (begin config) := by
    intro several
    obtain ⟨rest, next⟩ := blockRest_linked ⟨fun _ => none, fun _ => none⟩ 0 n
    obtain ⟨last, length⟩ := blockItems_ends 0 n
    rw [if_pos ⟨rfl, by omega⟩] at prev
    refine ⟨m, made, ?_⟩
    rw [spec]
    refine ⟨shape, fun l other row _ at_l at_row => ?_⟩
    cases l with
    | zero =>
      rw [found] at at_l
      cases at_l
      cases at_row
      refine ⟨?_, ?_, fun tracked => (tail tracked).trans last.symm, count.trans (by rw [length])⟩
      · rw [links, blockItems_succ]
        exact ⟨prev, next.trans (Option.or_none ..).symm, rest⟩
      · rw [head, blockItems_succ]
        rfl
    | succ l => cases at_row
  refine ⟨⟨?_, fun several => (filled several).good⟩, filled⟩
  rintro ⟨m', code, sound⟩ one
  rw [made] at code
  cases code
  obtain rfl : n = 0 := by omega
  have clear := (sound.row 0 list (blockItems 0 1) found (by rw [spec]; rfl)).first _ head
  rw [links] at clear
  rw [if_neg (by omega)] at prev
  cases clear.symm.trans prev

/-- A list and its stores are as claimed throughout a run if the first block has
several items, no list with items is moved to itself, and no counter overflows;
and only then. -/
theorem list_operations_iff (config : Config) (positive : 0 < config.allocate.val)
    (nonnegative : 0 ≤ config.limit.val) (events : List Event) :
    Always (step config) (Good config) (begin config) events ↔
      (config.allocate.val ≠ 1 ∧ config.limit.val ≠ 1) ∧
        Guarded (step config) (Permitted config) (begin config) events := by
  obtain ⟨first, inv⟩ := begin_exact config positive nonnegative
  have one := blockSize_one config positive nonnegative
  have runs : WorldInv config (begin config) →
      (Always (step config) (Good config) (begin config) events ↔
        Guarded (step config) (Permitted config) (begin config) events) := fun start =>
    always_iff_guarded_of_kept
      (fun w e next holds _ permitted taken => (world_step positive holds taken).1 permitted)
      (fun w e next holds _ taken =>
        ⟨(world_step positive holds taken).2,
          fun permitted => ((world_step positive holds taken).1 permitted).good⟩)
      start start.good
  constructor
  · intro always
    have several := first.mp (always_start always)
    exact ⟨⟨fun single => several (one.mpr (.inl single)),
      fun single => several (one.mpr (.inr single))⟩,
      (runs (inv several)).mp always⟩
  · rintro ⟨⟨allocate, limit⟩, guarded⟩
    have several : blockSize config [] ≠ 1 := fun single => (one.mp single).elim allocate limit
    exact (runs (inv several)).mpr guarded

def pairs : Config := ⟨⟨2, by decide, by decide⟩, .zero, true⟩

/-- Blocks of two items: both are taken and one comes back. -/
theorem list_operations_pairs :
    Always (step pairs) (Good pairs) (begin pairs) [.unlinkHead 0, .unlinkTail 0,
      .addTail 0 (0, 0)] ↔
      (pairs.allocate.val ≠ 1 ∧ pairs.limit.val ≠ 1) ∧
        Guarded (step pairs) (Permitted pairs) (begin pairs) [.unlinkHead 0, .unlinkTail 0,
          .addTail 0 (0, 0)] :=
  list_operations_iff pairs (by decide) (by decide) [.unlinkHead 0, .unlinkTail 0,
    .addTail 0 (0, 0)]

def singles : Config := ⟨⟨1, by decide, by decide⟩, .zero, false⟩

/-- In a new list of one item its prev points in front of the block. -/
theorem single_item_prev : ¬ Always (step singles) (Good singles) (begin singles) [] := by
  intro always
  have several := (begin_exact singles (by decide) (by decide)).1.mp (always_start always)
  exact several (by decide)

end CgminerT4.Guarantees.ListRepresentation
