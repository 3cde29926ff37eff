import CgminerT4.Guarantees.HashSort
import CgminerT4.Library.Runs
import CgminerT4.Source.StagedMemory

/-!
# Staged work in memory is the list of staged work

Read through its links, the table in memory is the list of StagedTable, and every
operation commutes with reading. For stamps that fit an int tv_sort is a total
order of the works by their second, so HASH_SORT after each push gives the list
that insertion sort gives; a work that comes again to the end of a second stays
behind the others of that second.
-/
namespace CgminerT4.Guarantees.StagedMemory
open Library.ByteString Library.MergeRuns Library.Runs Library.SignedInt Library.DoublyLinked Source
  Source.UtHash
  Source.WorkItem Source.WorkRoll Source.StagedMemory Guarantees.HashTables
open Source.StagedTable (Staged tvSort workRollable countRollable addSorted)

variable {α : Type} [DecidableEq α] (id : α → UInt32) (fuel : Nat)

/-! ## Reading the table -/

/-- The addresses HASH_ITER visits. -/
def contents (s : Heap α) : List α := ((hashIterAll (fun _ => false) fuel s.mem).map (·.2)).getD []

def view (s : Heap α) : Staged := ⟨(contents fuel s).map s.work, s.stagedRollable⟩

def PopResult.view : PopResult α → StagedTable.PopResult
  | .waits => .waits
  | .undefined => .undefined
  | .returned work next => .returned (work.map next.work) (StagedMemory.view fuel next)

/-- A time of day in seconds that an int can hold. -/
def Stamped (work : RollWork) : Prop := 0 ≤ work.tvStaged ∧ work.tvStaged < 2 ^ 31

/-- The table holds stamped works at these addresses. -/
structure Holds (s : Heap α) (order : List α) : Prop where
  represents : Represents (idKey id) s.mem order
  stamped : ∀ a ∈ order, Stamped (s.work a)

theorem Holds.contents {s : Heap α} {order : List α} (holds : Holds id s order)
    (enough : order.length ≤ fuel) :
    contents fuel s = order := by
  obtain ⟨out, visited, _⟩ :=
    hashIterAll_represents (idKey id) (fun _ => false) fuel s.mem order holds.represents enough
  rw [StagedMemory.contents, visited]
  rfl

theorem Holds.view {s : Heap α} {order : List α} (holds : Holds id s order)
    (enough : order.length ≤ fuel) :
    view fuel s = ⟨order.map s.work, s.stagedRollable⟩ := by
  rw [StagedMemory.view, holds.contents id fuel enough]

/-! ## Sorting -/

theorem tvSort_stamped {worka workb : RollWork} (stampA : Stamped worka) (stampB : Stamped workb) :
    tvSort worka workb = worka.tvStaged - workb.tvStaged := by
  obtain ⟨lowA, highA⟩ := stampA
  obtain ⟨lowB, highB⟩ := stampB
  exact Int.bmod_eq_of_le (by omega) (by omega)

theorem orders_tvSort {works : List RollWork}
    (stamped : ∀ work ∈ works, Stamped work) : Orders (below tvSort) works where
  trans := by
    intro a inA b inB c inC ab bc
    simp only [below, decide_eq_true_eq] at ab bc ⊢
    rw [tvSort_stamped (stamped _ inA) (stamped _ inB)] at ab
    rw [tvSort_stamped (stamped _ inB) (stamped _ inC)] at bc
    rw [tvSort_stamped (stamped _ inA) (stamped _ inC)]
    omega
  total := by
    intro a inA b inB
    simp only [below, Bool.or_eq_true, decide_eq_true_eq]
    rw [tvSort_stamped (stamped _ inA) (stamped _ inB),
      tvSort_stamped (stamped _ inB) (stamped _ inA)]
    omega

/-- Insertion sort and merge sort are the same stable sort. -/
theorem addSorted_mergeSort (works : List RollWork) (work : RollWork)
    (stamped : ∀ other ∈ works ++ [work], Stamped other) :
    addSorted works work = (works ++ [work]).mergeSort (below tvSort) := by
  have orders := orders_tvSort stamped
  have same :=
    StablySorted.unique _ orders (stablySorted_insertionSort _ _ orders)
      (stablySorted_mergeSort _ _ orders)
  rw [← same]
  simp only [addSorted, below, decide_eq_true_eq]

/-! ## The operations -/

/-- The operation on memory and the one on the list have the same outcome. -/
def Commutes (order : List α) (memory : Option (Heap α)) (list : Option Staged) : Prop :=
  (memory = none ∧ list = none) ∨ ∃ next order', memory = some next ∧
    list = some ⟨order'.map next.work, next.stagedRollable⟩ ∧ Holds id next order' ∧
      order'.length ≤ order.length + 1

theorem hashPush_commutes (frozen : Bool) (s : Heap α) (order : List α) (a : α) (content : RollWork)
    (holds : Holds id s order) (fresh : a ∉ order) (stamp : Stamped content)
    (enough : order.length + 3 ≤ fuel) :
    Commutes id order (hashPush id fuel frozen s a content)
      ((StagedTable.hashPush frozen ⟨order.map s.work, s.stagedRollable⟩ content).map (·.1)) := by
  obtain ⟨work, workDef⟩ : ∃ work, work = Function.update s.work a content := ⟨_, rfl⟩
  have others : order.map work = order.map s.work := by
    refine List.map_congr_left fun b member => ?_
    rw [workDef]
    exact Function.update_of_ne (by rintro rfl; exact fresh member) _ _
  have here : work a = content := by
    rw [workDef]
    exact Function.update_self ..
  have mapped : (order ++ [a]).map work = order.map s.work ++ [content] := by
    rw [List.map_append, others, List.map_singleton, here]
  have stamped : ∀ other ∈ order.map s.work ++ [content], Stamped other := by
    intro other member
    rcases List.mem_append.mp member with old | new
    · obtain ⟨b, inOrder, rfl⟩ := List.mem_map.mp old
      exact holds.stamped b inOrder
    · exact List.mem_singleton.mp new ▸ stamp
  have stampedAt : ∀ b ∈ order ++ [a], Stamped (work b) := by
    intro b member
    refine stamped _ ?_
    rw [← mapped]
    exact List.mem_map_of_mem member
  unfold hashPush StagedTable.hashPush
  rw [← workDef]
  cases counted : countRollable s.stagedRollable content 1 with
  | none => exact .inl ⟨rfl, rfl⟩
  | some stagedRollable =>
    right
    rw [Option.bind_some, Option.map_some, Option.map_some]
    cases frozen with
    | true =>
      refine ⟨{ s with work, stagedRollable }, order, rfl, ?_,
        ⟨holds.represents, fun b member => ?_⟩, Nat.le_succ _⟩
      · rw [others]
        rfl
      · exact stampedAt b (List.mem_append_left _ member)
    | false =>
      obtain ⟨grown, added, heldGrown⟩ :=
        hashAdd_represents (idKey id) fuel s.mem order a holds.represents fresh (by omega)
      have compared : Orders (below fun a b => tvSort (work a) (work b)) (order ++ [a]) := by
        have orders : Orders (below tvSort) ((order ++ [a]).map work) :=
          orders_tvSort (by rw [mapped]; exact stamped)
        exact ⟨fun a inA b inB c inC =>
          orders.trans _ (List.mem_map_of_mem inA) _ (List.mem_map_of_mem inB) _
          (List.mem_map_of_mem inC),
            fun a inA b inB => orders.total _ (List.mem_map_of_mem inA) _ (List.mem_map_of_mem inB)⟩
      obtain ⟨out, sorted, heldOut⟩ :=
        hashSort_mergeSort (idKey id) (fun a b => tvSort (work a) (work b)) fuel grown
        (order ++ [a]) heldGrown (by rw [List.length_append, List.length_singleton]; omega) compared
      refine ⟨{ mem := out, work, stagedRollable }, _, ?_, ?_, ⟨heldOut, fun b member => ?_⟩, ?_⟩
      · rw [if_neg Bool.false_ne_true, added, Option.bind_some, sorted]
        rfl
      · have moved :=
          List.map_mergeSort (f := work) (l := order ++ [a])
            (r := below fun a b => tvSort (work a) (work b))
          (s := below tvSort) fun _ _ _ _ => rfl
        rw [moved, mapped, ← addSorted_mergeSort _ _ stamped]
        rfl
      · exact stampedAt b (List.mem_mergeSort.mp member)
      · rw [List.length_mergeSort, List.length_append, List.length_singleton]

omit [DecidableEq α] in
theorem findWork_follows (work : α → RollWork) (m : Memory α) (start : Option α) (rest : List α)
    (follows : Follows m.app.next start rest) (enough : rest.length ≤ fuel) :
    findWork work m fuel start = some (rest.find? fun a => !workRollable (work a)) := by
  induction rest generalizing fuel start with
  | nil =>
    cases follows
    cases fuel <;> rfl
  | cons a rest ih =>
    cases follows with
    | step following =>
      obtain ⟨fuel, rfl⟩ : ∃ n, fuel = n + 1 :=
        ⟨fuel - 1, by rw [List.length_cons] at enough; omega⟩
      rw [findWork, List.find?_cons]
      cases choice : !workRollable (work a) with
      | true => rfl
      | false => exact ih fuel _ following (Nat.le_of_succ_le_succ enough)

omit [DecidableEq α] in
/-- The table is read from its head on. -/
theorem represents_follows {m : Memory α} {key : α → Bytes} {order : List α}
    (held : Represents key m order) :
    Follows m.app.next m.head order := by
  rcases held with ⟨rfl, empty⟩ | ⟨tbl, held⟩
  · rw [empty]
    exact Follows.done
  · rw [held.head]
    exact held.linked.follows

omit [DecidableEq α] in
/-- The work hash_pop selects, and the list without it. -/
theorem selectWork_map (work : α → RollWork) (order : List α) (stagedRollable : CInt) :
    let chosen :=
  if Jansson.toInt order.length > stagedRollable.val then order.find? fun a =>
    !workRollable (work a)
      else order.head?
    (chosen = none ∧ StagedTable.selectWork ⟨order.map work, stagedRollable⟩ = none) ∨
      ∃ front a back, order = front ++ a :: back ∧ chosen = some a ∧
        StagedTable.selectWork ⟨order.map work, stagedRollable⟩ =
          some (work a, (front ++ back).map work) := by
  dsimp only
  rw [StagedTable.selectWork, List.length_map]
  split
  · cases search : order.find? fun a => !workRollable (work a) with
    | none =>
      refine .inl ⟨rfl, ?_⟩
      rw [List.find?_map]
      exact congrArg _ (congrArg _ search)
    | some a =>
      obtain ⟨here, front, back, split, before⟩ := List.find?_eq_some_iff_append.mp search
      refine .inr ⟨front, a, back, split, rfl, ?_⟩
      have erased : order.eraseP (fun a => !workRollable (work a)) = front ++ back := by
        rw [split, List.eraseP_append_right _ (by simpa using before),
          List.eraseP_cons_of_pos (p := fun a => !workRollable (work a)) here]
      rw [List.find?_map, List.eraseP_map, ← erased]
      exact congrArg (Option.map _) (congrArg (Option.map _) search)
  · cases order with
    | nil => exact .inl ⟨rfl, rfl⟩
    | cons a order => exact .inr ⟨[], a, order, rfl, rfl, rfl⟩

/-- hash_pop takes the same work from both. -/
theorem hashPop_view (blocking : Bool) (s : Heap α) (order : List α) (holds : Holds id s order)
    (enough : order.length ≤ fuel) :
    PopResult.view fuel (hashPop fuel blocking s) =
      StagedTable.hashPop blocking ⟨order.map s.work, s.stagedRollable⟩ ∧
      ∀ work next, hashPop fuel blocking s = .returned work next →
        ∃ order', Holds id next order' ∧ order'.length ≤ order.length := by
  have count := hashCount_represents (idKey id) s.mem order holds.represents
  have follows := represents_follows holds.represents
  have found := findWork_follows fuel s.work s.mem s.mem.head order follows enough
  have head : s.mem.head = order.head? := by
    generalize s.mem.head = start at follows
    cases follows with
    | done => rfl
    | step _ => rfl
  unfold hashPop StagedTable.hashPop
  rw [count, found, head]
  by_cases empty : order = []
  · subst empty
    rw [if_pos List.length_nil, if_pos List.map_nil]
    cases blocking with
    | true => exact ⟨rfl, fun _ _ returned => by cases returned⟩
    | false =>
      refine ⟨?_, ?_⟩
      · rw [if_neg Bool.false_ne_true, if_neg Bool.false_ne_true, PopResult.view,
          holds.view id fuel enough]
        rfl
      · intro work next returned
        cases returned
        exact ⟨[], holds, Nat.le_refl _⟩
  · rw [if_neg (fun none => empty (List.eq_nil_of_length_eq_zero none)),
      if_neg (fun none => empty (List.map_eq_nil_iff.mp none))]
    rw [← apply_ite some]
    rcases selectWork_map s.work order s.stagedRollable with ⟨none, noList⟩ | ⟨front, a, back,
      split, chosen, list⟩
    · rw [none, noList]
      exact ⟨rfl, fun _ _ returned => by cases returned⟩
    · obtain ⟨out, deleted, held⟩ :=
        hashDelete_represents (idKey id) s.mem front back a (split ▸ holds.represents)
      rw [chosen, list]
      simp only [Option.bind_some, deleted, Option.map_some]
      have shorter : (front ++ back).length ≤ order.length := by
        rw [split, List.length_append, List.length_append, List.length_cons]
        omega
      cases countRollable s.stagedRollable (s.work a) (-1) with
      | none => exact ⟨rfl, fun _ _ returned => by cases returned⟩
      | some stagedRollable =>
        have next : Holds id { s with mem := out, stagedRollable } (front ++ back) :=
          ⟨held, fun b member => holds.stamped b (by rw [split]; grind)⟩
        refine ⟨?_, ?_⟩
        · simp only [PopResult.view]
          rw [next.view id fuel (Nat.le_trans shorter enough)]
          rfl
        · intro work returnedNext returned
          cases returned
          exact ⟨front ++ back, next, shorter⟩

/-- An iteration whose body deletes leaves the list without these works. -/
theorem sweep_commutes (remove : RollWork → Bool) (s : Heap α) (order : List α)
    (holds : Holds id s order) (enough : order.length ≤ fuel) :
    Commutes id order ((hashIterAll (fun a => remove (s.work a)) fuel s.mem).map fun (mem, _) =>
      { s with mem })
      (some ⟨(order.map s.work).filter fun work => !remove work, s.stagedRollable⟩) := by
  obtain ⟨out, visited, held⟩ :=
    hashIterAll_represents (idKey id) (fun a => remove (s.work a)) fuel s.mem order
    holds.represents enough
  refine .inr ⟨{ s with mem := out }, _, by rw [visited]; rfl, ?_, ⟨held, fun a member => ?_⟩, ?_⟩
  · rw [List.filter_map]
    rfl
  · exact holds.stamped a (List.mem_filter.mp member).1
  · exact Nat.le_trans (List.length_filter_le _ _) (Nat.le_succ _)

/-! ## Runs -/

/-- A pushed work is stamped, and in no table. -/
def Admitted (s : Heap α) : Event α → Prop
  | .push _ a content => a ∉ contents fuel s ∧ Stamped content
  | .pop _ | .discardStale _ | .clearPoolWork _ => True

theorem step_commutes (s : Heap α) (order : List α) (event : Event α) (holds : Holds id s order)
    (admitted : Admitted fuel s event) (enough : order.length + 3 ≤ fuel) :
    Commutes id order (step id fuel s event)
      (StagedTable.step ⟨order.map s.work, s.stagedRollable⟩ event.listed) := by
  cases event with
  | push frozen a content =>
    obtain ⟨fresh, stamp⟩ := admitted
    rw [holds.contents id fuel (by omega)] at fresh
    exact hashPush_commutes id fuel frozen s order a content holds fresh stamp enough
  | pop blocking =>
    obtain ⟨same, kept⟩ := hashPop_view id fuel blocking s order holds (by omega)
    rw [step, Event.listed, StagedTable.step, ← same]
    cases popped : hashPop fuel blocking s with
    | waits => exact .inl ⟨rfl, rfl⟩
    | undefined => exact .inl ⟨rfl, rfl⟩
    | returned work next =>
      obtain ⟨order', holds', shorter⟩ := kept work next popped
      refine .inr ⟨next, order', rfl, ?_, holds', Nat.le_succ_of_le shorter⟩
      exact congrArg some (holds'.view id fuel (by omega))
  | discardStale stale => exact sweep_commutes id fuel stale s order holds (by omega)
  | clearPoolWork poolNo =>
    have swept :=
      sweep_commutes id fuel (fun work => decide (work.pool = poolNo)) s order holds (by omega)
    simp only [← decide_not] at swept
    exact swept

theorem run_commutes (s : Heap α) (order : List α) (events : List (Event α))
    (holds : Holds id s order) (admitted : Every (step id fuel) (Admitted fuel) s events)
    (enough : order.length + events.length + 2 ≤ fuel) :
    (run (step id fuel) s events).map (view fuel) =
        run StagedTable.step ⟨order.map s.work, s.stagedRollable⟩ (events.map Event.listed) ∧
      ∀ out, run (step id fuel) s events = some out →
        ∃ order', Holds id out order' ∧ order'.length ≤ fuel := by
  induction events generalizing s order with
  | nil =>
    refine ⟨congrArg some (holds.view id fuel (by omega)), fun out same => ?_⟩
    cases same
    exact ⟨order, holds, by omega⟩
  | cons event events ih =>
    rw [List.length_cons] at enough
    obtain ⟨now, later⟩ := admitted
    rw [List.map_cons, run, run]
    rcases step_commutes id fuel s order event holds now (by omega) with ⟨memory, list⟩ |
      ⟨next, order', memory, list, holds', longer⟩
    · rw [memory, list]
      exact ⟨rfl, fun out same => by cases same⟩
    · rw [memory, list]
      exact ih next order' holds' (later next memory) (by omega)

/-- No staged work, whatever the memory holds. -/
def noWork (mem : Memory α) (work : α → RollWork) : Heap α := ⟨noTable mem, work, .zero⟩

/-- A run on memory reads, wherever it has got, like the same run on the list,
and hash_pop takes the same work there; the one is undefined exactly where the
other is. -/
theorem staged_memory_refines (mem : Memory α) (work : α → RollWork) (events : List (Event α))
    (admitted : Every (step id fuel) (Admitted fuel) (noWork mem work) events)
    (enough : events.length + 2 ≤ fuel) :
    (run (step id fuel) (noWork mem work) events).map (view fuel) =
        run StagedTable.step StagedTable.emptyTable (events.map Event.listed) ∧
      ∀ s, run (step id fuel) (noWork mem work) events = some s → ∀ blocking,
        PopResult.view fuel (hashPop fuel blocking s) =
          StagedTable.hashPop blocking (view fuel s) := by
  obtain ⟨same, reached⟩ := run_commutes id fuel (noWork mem work) [] events
    ⟨.inl ⟨rfl, rfl⟩, fun a member => absurd member List.not_mem_nil⟩ admitted
      (by rw [List.length_nil]; omega)
  refine ⟨same, fun s ran blocking => ?_⟩
  obtain ⟨order, holds, short⟩ := reached s ran
  rw [holds.view id fuel short]
  exact (hashPop_view id fuel blocking s order holds short).1

instance (s : Heap α) : DecidablePred (Admitted fuel s)
  | .push _ a content =>
    inferInstanceAs (Decidable (a ∉ contents fuel s ∧ 0 ≤ content.tvStaged ∧
      content.tvStaged < 2 ^ 31))
  | .pop _ | .discardStale _ | .clearPoolWork _ => .isTrue trivial

/-- A work of some second. -/
def stagedAt (second rolltime : Int) : RollWork :=
  { makeWork with rolls := .zero, rolltime, clone := false, mandatory := false, tvStaged := second }

/-- Four works of three seconds, of which the later ones are pushed first. -/
def outOfOrder : List (Event Nat) :=
  [.push false 7 (stagedAt 5 60), .push false 8 (stagedAt 3 0), .push false 9 (stagedAt 5 0),
    .push false 6 (stagedAt 4 60), .discardStale (fun work => work.tvStaged = 4),
    .push false 5 (stagedAt 3 60), .pop false]

/-- The work of the third second that cannot be rolled goes first, and the others stay by
their second. -/
theorem staged_memory_refines_pop :
    (run (step UInt32.ofNat 10) (noWork blank fun _ => stagedAt 0 0) outOfOrder).map (view 10) =
      some ⟨[stagedAt 3 60, stagedAt 5 60, stagedAt 5 0], ⟨3, by decide, by decide⟩⟩ := by
  have same :=
    (staged_memory_refines UInt32.ofNat 10 blank (fun _ => stagedAt 0 0) outOfOrder
      (by decide +kernel)
    (by decide)).1
  exact same.trans (by decide +kernel)

end CgminerT4.Guarantees.StagedMemory
