import Mathlib.Data.List.Induction
import Mathlib.Data.List.Perm.Basic
import Mathlib.Data.List.Sort

/-!
# Sorting by merging runs

A list cut into runs of one length, but for a shorter last one, becomes a list of
runs twice as long when neighbouring runs are merged. When one run is left it is
the list in order, with equivalent elements in the order they had.
-/
namespace CgminerT4.Library.MergeRuns

variable {α : Type*} (le : α → α → Bool)

/-- Merge each run with the one behind it. -/
def mergePairs : List (List α) → List (List α)
  | a :: b :: rest => List.merge a b le :: mergePairs rest
  | rest => rest

/-- All runs but the last have `w` elements, and the last has some. -/
def FullRuns (w : Nat) : List (List α) → Prop
  | [] => True
  | [run] => 0 < run.length ∧ run.length ≤ w
  | run :: next :: rest => run.length = w ∧ FullRuns w (next :: rest)

/-- Elements that may stand in either order. -/
def alike (c a : α) : Bool := le c a && le a c

/-- The result of a stable sort. -/
structure StablySorted (l out : List α) : Prop where
  perm : out.Perm l
  sorted : out.Pairwise (le · ·)
  stable : ∀ c ∈ l, out.filter (alike le c) = l.filter (alike le c)

/-- A total and transitive comparison of the elements of a list. -/
structure Orders (l : List α) : Prop where
  trans : ∀ a ∈ l, ∀ b ∈ l, ∀ c ∈ l, le a b → le b c → le a c
  total : ∀ a ∈ l, ∀ b ∈ l, le a b || le b a

theorem mergePairs_perm (runs : List (List α)) :
    (mergePairs le runs).flatten.Perm runs.flatten := by
  induction runs using List.twoStepInduction with
  | nil => exact List.Perm.refl _
  | singleton run => exact List.Perm.refl _
  | cons_cons a b rest ih _ =>
    rw [mergePairs, List.flatten_cons, List.flatten_cons, List.flatten_cons, ← List.append_assoc]
    exact (List.merge_perm_append le).append ih

theorem length_mergePairs (runs : List (List α)) :
    (mergePairs le runs).length = (runs.length + 1) / 2 := by
  induction runs using List.twoStepInduction with
  | nil => simp [mergePairs]
  | singleton run => simp [mergePairs]
  | cons_cons a b rest ih _ =>
    rw [mergePairs, List.length_cons, ih, List.length_cons, List.length_cons]
    omega

theorem mergePairs_full (w : Nat) (runs : List (List α)) (full : FullRuns w runs) :
    FullRuns (2 * w) (mergePairs le runs) := by
  induction runs using List.twoStepInduction with
  | nil => trivial
  | singleton run => exact ⟨full.1, Nat.le_trans full.2 (by omega)⟩
  | cons_cons a b rest ih _ =>
    obtain ⟨first, second⟩ := full
    rw [mergePairs]
    cases rest with
    | nil =>
      obtain ⟨some, short⟩ := second
      refine ⟨?_, ?_⟩ <;> rw [List.length_merge] <;> omega
    | cons c rest =>
      obtain ⟨both, others⟩ := second
      have behind := ih others
      have head : ∃ run rest', mergePairs le (c :: rest) = run :: rest' := by
        cases rest with
        | nil => exact ⟨c, [], rfl⟩
        | cons d rest => exact ⟨_, _, rfl⟩
      obtain ⟨run, rest', shape⟩ := head
      rw [shape] at behind ⊢
      exact ⟨by rw [List.length_merge]; omega, behind⟩

variable {le}

theorem Orders.refl {l : List α} (orders : Orders le l) {a : α} (member : a ∈ l) :
    le a a = true := by
  simpa using orders.total a member a member

theorem Orders.subset {l part : List α} (orders : Orders le l) (inside : part ⊆ l) :
    Orders le part where
  trans := fun a memberA b memberB c memberC =>
    orders.trans a (inside memberA) b (inside memberB) c (inside memberC)
  total := fun a memberA b memberB => orders.total a (inside memberA) b (inside memberB)

/-- Elements outside the list go behind it. -/
theorem Orders.extend {l : List α} (orders : Orders le l) :
    ∃ all : α → α → Bool, (∀ a b c, all a b → all b c → all a c) ∧ (∀ a b, all a b || all b a) ∧
      ∀ a ∈ l, ∀ b ∈ l, le a b = all a b := by
  classical
  refine ⟨fun a b => decide (b ∉ l ∨ (a ∈ l ∧ b ∈ l ∧ le a b = true)), ?_, ?_, ?_⟩
  · intro a b c ab bc
    simp only [decide_eq_true_eq] at ab bc ⊢
    rcases bc with out | ⟨memberB, memberC, bc⟩
    · exact .inl out
    · rcases ab with out | ⟨memberA, _, ab⟩
      · exact absurd memberB out
      · exact .inr ⟨memberA, memberC, orders.trans a memberA b memberB c memberC ab bc⟩
  · intro a b
    simp only [Bool.or_eq_true, decide_eq_true_eq]
    by_cases memberA : a ∈ l
    · by_cases memberB : b ∈ l
      · rcases Bool.or_eq_true_iff.mp (orders.total a memberA b memberB) with ab | ba
        · exact .inl (.inr ⟨memberA, memberB, ab⟩)
        · exact .inr (.inr ⟨memberB, memberA, ba⟩)
      · exact .inl (.inl memberB)
    · exact .inr (.inl memberA)
  · intro a memberA b memberB
    rw [Bool.eq_iff_iff]
    simp only [decide_eq_true_eq]
    constructor
    · exact fun ab => .inr ⟨memberA, memberB, ab⟩
    · rintro (out | ⟨_, _, ab⟩)
      · exact absurd memberB out
      · exact ab

theorem merge_congr {all : α → α → Bool} {xs ys : List α}
    (same : ∀ a ∈ xs, ∀ b ∈ ys, le a b = all a b) :
    List.merge xs ys le = List.merge xs ys all := by
  have mapped := List.map_merge (f := id) same
  rwa [List.map_id, List.map_id, List.map_id] at mapped

variable (le)

theorem mergePairs_sorted (runs : List (List α)) (orders : Orders le runs.flatten)
    (sorted : ∀ run ∈ runs, run.Pairwise (le · ·)) : ∀ run ∈ mergePairs le runs,
      run.Pairwise (le · ·) := by
  induction runs using List.twoStepInduction with
  | nil => exact sorted
  | singleton run => exact sorted
  | cons_cons a b rest ih _ =>
    rw [mergePairs]
    intro run member
    rcases List.mem_cons.mp member with rfl | member
    · have both : Orders le (a ++ b) := orders.subset (by simp)
      obtain ⟨all, trans, total, same⟩ := both.extend
      have agree : ∀ x ∈ a, ∀ y ∈ b, le x y = all x y :=
        fun x memberX y memberY =>
          same x (List.mem_append_left b memberX) y (List.mem_append_right a memberY)
      have sortedAll : ∀ part, part ⊆ a ++ b → part.Pairwise (le · ·) →
          part.Pairwise (all · ·) := by
        intro part inside ordered
        exact ordered.imp_of_mem fun memberX memberY le =>
          same _ (inside memberX) _ (inside memberY) ▸ le
      have merged :=
        List.pairwise_merge trans total a b
          (sortedAll a (List.subset_append_left a b) (sorted a (by simp)))
        (sortedAll b (List.subset_append_right a b) (sorted b (by simp)))
      rw [merge_congr agree]
      have inside : List.merge a b all ⊆ a ++ b := (List.merge_perm_append all).subset
      exact merged.imp_of_mem fun memberX memberY all =>
        (same _ (inside memberX) _ (inside memberY)).symm ▸ all
    · exact ih (orders.subset (by simp)) (fun r inside => sorted r (by simp [inside])) run member

/-- In a merge the alike elements of the first run stand before those of the second. -/
theorem filter_merge (c : α) (xs ys : List α) (orders : Orders le (c :: (xs ++ ys)))
    (sortedXs : xs.Pairwise (le · ·)) :
    (List.merge xs ys le).filter (alike le c) =
      xs.filter (alike le c) ++ ys.filter (alike le c) := by
  induction xs generalizing ys with
  | nil => rw [List.nil_merge, List.filter_nil, List.nil_append]
  | cons x xs ihX =>
    obtain ⟨least, rest⟩ := List.pairwise_cons.mp sortedXs
    induction ys with
    | nil => rw [List.merge_right, List.filter_nil, List.append_nil]
    | cons y ys ihY =>
      rw [List.cons_merge_cons]
      split
      · rw [List.filter_cons, List.filter_cons, ihX (y :: ys) (orders.subset (by grind)) rest]
        split <;> rfl
      · next above =>
        rw [List.filter_cons, ihY (orders.subset (by grind))]
        split
        · next same =>
          -- an element alike to `y` cannot stand in a run that begins behind `y`
          have none : (x :: xs).filter (alike le c) = [] := by
            refine List.filter_eq_nil_iff.mpr fun a member both => above ?_
            obtain ⟨cy, yc⟩ := Bool.and_eq_true_iff.mp same
            obtain ⟨ca, ac⟩ := Bool.and_eq_true_iff.mp both
            have below : le x c = true := by
              rcases List.mem_cons.mp member with rfl | member
              · exact ac
              · exact orders.trans x (by simp) a (by simp [member]) c (by simp) (least a member) ac
            exact orders.trans x (by simp) c (by simp) y (by simp) below cy
          rw [none, List.nil_append, List.nil_append, List.filter_cons, if_pos same]
        · next differs => rw [List.filter_cons_of_neg differs]

theorem filter_mergePairs (c : α) (runs : List (List α)) (orders : Orders le (c :: runs.flatten))
    (sorted : ∀ run ∈ runs, run.Pairwise (le · ·)) :
    (mergePairs le runs).flatten.filter (alike le c) = runs.flatten.filter (alike le c) := by
  induction runs using List.twoStepInduction with
  | nil => rfl
  | singleton run => rfl
  | cons_cons a b rest ih _ =>
    rw [mergePairs, List.flatten_cons, List.filter_append,
      filter_merge le c a b (orders.subset (by grind)) (sorted a (by simp)),
      ih (orders.subset (by grind)) fun r inside => sorted r (by simp [inside])]
    simp only [List.flatten_cons, List.filter_append, List.append_assoc]

/-- A sort that keeps every part that was in order is stable. -/
theorem stablySorted_of_sublists {l out : List α} (orders : Orders le l) (perm : out.Perm l)
    (sorted : out.Pairwise (le · ·))
    (kept : ∀ part : List α, part.Pairwise (le · ·) → part.Sublist l →
      part.Sublist out) : StablySorted le l out where
  perm := perm
  sorted := sorted
  stable := by
    intro c memberC
    have ordered : (l.filter (alike le c)).Pairwise (le · ·) := by
      refine List.pairwise_of_forall_mem_list fun a memberA b memberB => ?_
      obtain ⟨inA, alikeA⟩ := List.mem_filter.mp memberA
      obtain ⟨inB, alikeB⟩ := List.mem_filter.mp memberB
      obtain ⟨_, ac⟩ := Bool.and_eq_true_iff.mp alikeA
      obtain ⟨cb, _⟩ := Bool.and_eq_true_iff.mp alikeB
      exact orders.trans a inA c memberC b inB ac cb
    have part := (kept _ ordered List.filter_sublist).filter (alike le c)
    simp only [List.filter_filter, Bool.and_self] at part
    exact (part.eq_of_length (perm.filter _).length_eq.symm).symm

/-- There is one stable sort. -/
theorem StablySorted.unique {l first second : List α} (orders : Orders le l)
    (one : StablySorted le l first) (two : StablySorted le l second) : first = second := by
  have perm := one.perm.trans two.perm.symm
  have inside : first ⊆ l := one.perm.subset
  have stable : ∀ c ∈ l, first.filter (alike le c) = second.filter (alike le c) :=
    fun c member => (one.stable c member).trans (two.stable c member).symm
  have sortedFirst := one.sorted
  have sortedSecond := two.sorted
  clear one two
  induction first generalizing second with
  | nil => exact perm.symm.eq_nil.symm
  | cons a first ih =>
    cases second with
    | nil => exact perm.eq_nil
    | cons b second =>
      obtain ⟨leastA, restA⟩ := List.pairwise_cons.mp sortedFirst
      obtain ⟨leastB, restB⟩ := List.pairwise_cons.mp sortedSecond
      have inA : a ∈ l := inside List.mem_cons_self
      have inB : b ∈ l := inside (perm.symm.subset List.mem_cons_self)
      -- both heads are least, so each is alike to the other and comes first of its kind
      have ab : le a b = true := by
        rcases List.mem_cons.mp (perm.symm.subset List.mem_cons_self) with rfl | member
        · exact orders.refl inA
        · exact leastA b member
      have ba : le b a = true := by
        rcases List.mem_cons.mp (perm.subset List.mem_cons_self) with rfl | member
        · exact orders.refl inA
        · exact leastB a member
      have heads := stable a inA
      rw [List.filter_cons_of_pos (by simp [alike, orders.refl inA]),
        List.filter_cons_of_pos (by simp [alike, ab, ba])]
        at heads
      obtain ⟨rfl, _⟩ := List.cons.inj heads
      rw [ih (List.Perm.cons_inv perm) (fun _ member => inside (List.mem_cons_of_mem a member))
        (fun c member => ?_)
        restA restB]
      have both := stable c member
      rw [List.filter_cons, List.filter_cons] at both
      split at both
      · exact (List.cons.inj both).2
      · exact both

theorem stablySorted_mergeSort (l : List α) (orders : Orders le l) :
    StablySorted le l (l.mergeSort le) := by
  obtain ⟨all, trans, total, same⟩ := orders.extend
  have equal : l.mergeSort le = l.mergeSort all := by
    have mapped := List.map_mergeSort (f := id) same
    rwa [List.map_id, List.map_id] at mapped
  have perm : (l.mergeSort all).Perm l := List.mergeSort_perm l all
  rw [equal]
  refine stablySorted_of_sublists le orders perm ?_ ?_
  · exact (List.pairwise_mergeSort trans total l).imp_of_mem
      fun memberX memberY all => (same _ (perm.subset memberX) _ (perm.subset memberY)).symm ▸ all
  · intro part ordered inside
    refine List.sublist_mergeSort trans total
      (ordered.imp_of_mem fun memberX memberY le => ?_) inside
    exact same _ (inside.subset memberX) _ (inside.subset memberY) ▸ le

theorem stablySorted_insertionSort (l : List α) (orders : Orders le l) :
    StablySorted le l (l.insertionSort (le · ·)) := by
  obtain ⟨all, trans, total, same⟩ := orders.extend
  have : IsTrans α (all · ·) := ⟨trans⟩
  have : Std.Total (fun a b => all a b = true) := ⟨fun a b => by simpa using total a b⟩
  have equal : l.insertionSort (le · ·) = l.insertionSort (all · ·) := by
    have mapped := List.map_insertionSort (r := (le · ·)) (s := (all · ·)) id l
      fun a memberA b memberB => by rw [same a memberA b memberB]; rfl
    rwa [List.map_id, List.map_id] at mapped
  have perm : (l.insertionSort (all · ·)).Perm l := List.perm_insertionSort (all · ·) l
  rw [equal]
  refine stablySorted_of_sublists le orders perm ?_ ?_
  · exact (List.pairwise_insertionSort (all · ·) l).imp_of_mem
      fun memberX memberY all => (same _ (perm.subset memberX) _ (perm.subset memberY)).symm ▸ all
  · intro part ordered inside
    refine List.sublist_insertionSort (ordered.imp_of_mem fun memberX memberY le => ?_) inside
    exact same _ (inside.subset memberX) _ (inside.subset memberY) ▸ le

/-- Single elements as runs. -/
theorem singles_full (l : List α) : FullRuns 1 (l.map fun a => [a]) := by
  induction l with
  | nil => trivial
  | cons a l ih =>
    cases l with
    | nil => exact ⟨Nat.one_pos, Nat.le_refl 1⟩
    | cons b l => exact ⟨rfl, ih⟩

theorem singles_flatten (l : List α) : (l.map fun a => [a]).flatten = l := by
  rw [← List.flatMap_def, List.flatMap_singleton']

theorem FullRuns.tail {w : Nat} {run : List α} {rest : List (List α)}
    (full : FullRuns w (run :: rest)) :
    FullRuns w rest := by
  cases rest with
  | nil => trivial
  | cons next rest => exact full.2

end CgminerT4.Library.MergeRuns
