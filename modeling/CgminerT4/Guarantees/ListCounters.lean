import CgminerT4.Guarantees.ListTransfers
import CgminerT4.Guarantees.ListRefill

/-!
# The counters of the items ever added

Adding an item counts it, taking one leaves the counter as it is, and an
operation on one list does not touch another. A counter that has no room ends
the operation.
-/
namespace CgminerT4.Guarantees.ListCounters
open Source.Klist Library.DoublyLinked Library.SignedInt
open Guarantees.ListRows Guarantees.ListInvariant Guarantees.ListTransfers Guarantees.ListRefill

/-- Only this list is changed, and the number of items ever added to it by so many. -/
def Counts (m m' : Memory) (l : Nat) (more : Int) : Prop :=
  ∃ list list', m.lists[l]? = some list ∧ m'.lists = m.lists.set l list' ∧
    list'.countUp.val = list.countUp.val + more

/-- The counter of the list itself. -/
theorem Counts.here {m m' : Memory} {l : Nat} {more : Int} (counts : Counts m m' l more)
    {list : KList} (found : m.lists[l]? = some list) :
    ∃ list', m'.lists[l]? = some list' ∧ list'.countUp.val = list.countUp.val + more := by
  obtain ⟨old, new, found', set, count⟩ := counts
  rw [found] at found'
  cases found'
  obtain ⟨inside, _⟩ := List.getElem?_eq_some_iff.mp found
  exact ⟨new, by rw [set, List.getElem?_set_self inside], count⟩

/-- The other lists are as they were. -/
theorem Counts.other {m m' : Memory} {l k : Nat} {more : Int} (counts : Counts m m' l more)
    (apart : l ≠ k) :
    m'.lists[k]? = m.lists[k]? := by
  obtain ⟨_, _, _, set, _⟩ := counts
  rw [set, List.getElem?_set_ne apart]

theorem setPrevOf_lists {m m' : Memory} {p value : Option Addr}
    (ran : m.setPrevOf p value = some m') :
    m'.lists = m.lists := by
  cases p with
  | none =>
    cases ran
    rfl
  | some a => exact setPrev_lists ran

theorem setNextOf_lists {m m' : Memory} {p value : Option Addr}
    (ran : m.setNextOf p value = some m') :
    m'.lists = m.lists := by
  cases p with
  | none =>
    cases ran
    rfl
  | some a => exact setNext_lists ran

theorem clear_lists {m m' : Memory} {item : Addr} (ran : m.clear item = some m') :
    m'.lists = m.lists := by
  obtain ⟨m1, first, second⟩ := Option.bind_eq_some_iff.mp ran
  exact (setNext_lists second).trans (setPrev_lists first)

theorem taken_countUp {list list' : KList} (ran : list.taken = some list') :
    list'.countUp = list.countUp := by
  obtain ⟨count, _, rest⟩ := Option.bind_eq_some_iff.mp ran
  cases rest
  rfl

/-- An addition that has a result counts one more. -/
theorem added_countUp {list list' : KList} (ran : list.added = some list') :
    list'.countUp.val = list.countUp.val + 1 := by
  obtain ⟨count, _, rest⟩ := Option.bind_eq_some_iff.mp ran
  obtain ⟨countUp, added, rest⟩ := Option.bind_eq_some_iff.mp rest
  cases rest
  exact CInt.add_eq_some _ _ _ added

theorem kAddHead_counts {m m' : Memory} {l : Nat} {item : Addr}
    (ran : kAddHead m l item = some m') : Counts m m' l 1 := by
  obtain ⟨list, found, ran⟩ := Option.bind_eq_some_iff.mp ran
  obtain ⟨m1, first, ran⟩ := Option.bind_eq_some_iff.mp ran
  obtain ⟨m2, second, ran⟩ := Option.bind_eq_some_iff.mp ran
  obtain ⟨m3, third, ran⟩ := Option.bind_eq_some_iff.mp ran
  obtain ⟨list', added, ran⟩ := Option.bind_eq_some_iff.mp ran
  cases ran
  have count := added_countUp added
  refine ⟨list, list', found, ?_, count⟩
  show m3.lists.set l list' = _
  rw [setPrevOf_lists third, setNext_lists second, setPrev_lists first]

/-- An item that is taken is not counted. -/
theorem counts_of_taken {m m' : Memory} {l : Nat} {list list' : KList}
    (found : m.lists[l]? = some list) (same : m'.lists = m.lists)
    (count : list'.countUp = list.countUp) :
    Counts m { m' with lists := m'.lists.set l list' } l 0 := by
  refine ⟨list, list', found, ?_, ?_⟩
  · rw [same]
  · rw [count, Int.add_zero]

theorem takeHead_counts {m m' : Memory} {l : Nat} {list : KList} {item : Addr}
    {returned : Option Addr} (found : m.lists[l]? = some list) (head : list.head = some item)
    (ran : takeHead m l = some (m', returned)) :
    Counts m m' l 0 := by
  unfold takeHead at ran
  rw [found, Option.bind_eq_bind, Option.bind_some] at ran
  simp only [head] at ran
  obtain ⟨next, _, ran⟩ := Option.bind_eq_some_iff.mp ran
  obtain ⟨m1, first, ran⟩ := Option.bind_eq_some_iff.mp ran
  obtain ⟨m2, second, ran⟩ := Option.bind_eq_some_iff.mp ran
  obtain ⟨list', taken, ran⟩ := Option.bind_eq_some_iff.mp ran
  cases ran
  have count := taken_countUp taken
  exact counts_of_taken found ((clear_lists second).trans (setPrevOf_lists first)) count

theorem kUnlinkHead_counts {m m' : Memory} {l : Nat} {list : KList} {item : Addr}
    {returned : Option Addr} (found : m.lists[l]? = some list) (head : list.head = some item)
    (ran : kUnlinkHead m l = some (m', returned)) :
    Counts m m' l 0 := by
  unfold kUnlinkHead at ran
  rw [found, Option.bind_eq_bind, Option.bind_some, head] at ran
  exact takeHead_counts found head ran

theorem kUnlinkTail_counts {m m' : Memory} {l : Nat} {list : KList} {item : Addr}
    {returned : Option Addr} (found : m.lists[l]? = some list) (tail : list.tail = some item)
    (ran : kUnlinkTail m l = some (m', returned)) :
    Counts m m' l 0 := by
  unfold kUnlinkTail at ran
  rw [found, Option.bind_eq_bind, Option.bind_some] at ran
  split at ran
  · cases ran
  · simp only [tail] at ran
    obtain ⟨prev, _, ran⟩ := Option.bind_eq_some_iff.mp ran
    obtain ⟨m1, first, ran⟩ := Option.bind_eq_some_iff.mp ran
    obtain ⟨m2, second, ran⟩ := Option.bind_eq_some_iff.mp ran
    obtain ⟨list', taken, ran⟩ := Option.bind_eq_some_iff.mp ran
    cases ran
    have count := taken_countUp taken
    exact counts_of_taken found ((clear_lists second).trans (setNextOf_lists first)) count

/-- Taking from the K_LIST leaves its stores alone, whether it allocates or not. -/
theorem kUnlinkHead_other {m m' : Memory} {returned : Option Addr}
    (ran : kUnlinkHead m 0 = some (m', returned)) {k : Nat} (store : 0 ≠ k) :
    m'.lists[k]? = m.lists[k]? := by
  have taking (m1 : Memory) (taken : takeHead m1 0 = some (m', returned)) :
      m'.lists[k]? = m1.lists[k]? := by
    obtain ⟨list, found, _⟩ := Option.bind_eq_some_iff.mp taken
    cases head : list.head with
    | none =>
      rw [takeHead_empty found head] at taken
      cases taken
      rfl
    | some item => exact (takeHead_counts found head taken).other store
  obtain ⟨list, found, ran⟩ := Option.bind_eq_some_iff.mp ran
  split at ran
  · obtain ⟨m1, allocated, ran⟩ := Option.bind_eq_some_iff.mp ran
    rw [taking m1 ran]
    unfold kAllocItems at allocated
    rw [found, Option.bind_eq_bind, Option.bind_some] at allocated
    split at allocated
    · cases allocated
    · split at allocated
      · cases allocated
        rfl
      · obtain ⟨size, _, allocated⟩ := Option.bind_eq_some_iff.mp allocated
        obtain ⟨total, _, allocated⟩ := Option.bind_eq_some_iff.mp allocated
        cases allocated
        exact List.getElem?_set_ne store
  · exact taking m ran

end CgminerT4.Guarantees.ListCounters
