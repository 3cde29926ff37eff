import Mathlib.Data.List.Induction
import Mathlib.Data.List.Nodup
import Mathlib.Logic.Function.Basic

/-!
# Doubly linked lists in a store of links

Every cell of a type has a link to the one before it and one behind it. A
segment is a row of cells linked in both directions, and each way of changing a
list is a few writes at the ends of segments.
-/
namespace CgminerT4.Library.DoublyLinked

structure Links (α : Type*) where
  prev : α → Option α
  next : α → Option α

variable {α : Type*}

/-- The cells are linked in this order between a cell in front and one behind. -/
def Segment (h : Links α) : Option α → List α → Option α → Prop
  | _, [], _ => True
  | before, a :: cells, after =>
    h.prev a = before ∧ h.next a = cells.head?.or after ∧ Segment h (some a) cells after

/-- A whole list. -/
def Linked (h : Links α) (cells : List α) : Prop := Segment h none cells none

/-- Following a link from a cell visits these cells and comes to an end. -/
inductive Follows (link : α → Option α) : Option α → List α → Prop
  | done : Follows link none []
  | step {a : α} {cells : List α} (rest : Follows link (link a) cells) :
    Follows link (some a) (a :: cells)

theorem Follows.congr {link link' : α → Option α} {start : Option α} {cells : List α}
    (follows : Follows link start cells)
    (same : ∀ a ∈ cells, link' a = link a) : Follows link' start cells := by
  induction follows with
  | done => exact .done
  | step _ ih =>
    refine .step ?_
    rw [same _ List.mem_cons_self]
    exact ih fun b member => same b (List.mem_cons_of_mem _ member)

theorem Segment.frame {h h' : Links α} {before after : Option α} {cells : List α}
    (segment : Segment h before cells after)
    (same : ∀ a ∈ cells, h'.prev a = h.prev a ∧
      h'.next a = h.next a) : Segment h' before cells after := by
  induction cells generalizing before with
  | nil => trivial
  | cons a cells ih =>
    obtain ⟨prev, next, rest⟩ := segment
    obtain ⟨samePrev, sameNext⟩ := same a List.mem_cons_self
    exact ⟨samePrev.trans prev, sameNext.trans next,
      ih rest fun b member => same b (List.mem_cons_of_mem a member)⟩

theorem segment_append (h : Links α) (before after : Option α) (front back : List α) :
    Segment h before (front ++ back) after ↔
      Segment h before front (back.head?.or after) ∧
        Segment h (front.getLast?.or before) back after := by
  induction front generalizing before with
  | nil => simp [Segment]
  | cons a front ih =>
    have ends : ((a :: front).getLast?.or before) = front.getLast?.or (some a) := by
      rw [List.getLast?_cons]
      cases front.getLast? <;> rfl
    have starts : (front ++ back).head?.or after = front.head?.or (back.head?.or after) := by
      rw [List.head?_append, Option.or_assoc]
    rw [List.cons_append, Segment, Segment, ih, ends, starts]
    constructor
    · rintro ⟨prev, next, first, second⟩
      exact ⟨⟨prev, next, first⟩, second⟩
    · rintro ⟨⟨prev, next, first⟩, second⟩
      exact ⟨prev, next, first, second⟩

theorem segment_single (h : Links α) (before after : Option α) (a : α) :
    Segment h before [a] after ↔ h.prev a = before ∧ h.next a = after := by
  unfold Segment
  rw [List.head?_nil, Option.none_or]
  exact ⟨fun ⟨prev, next, _⟩ => ⟨prev, next⟩, fun ⟨prev, next⟩ => ⟨prev, next, trivial⟩⟩

theorem Segment.follows {h : Links α} {before : Option α} {cells : List α}
    (segment : Segment h before cells none) :
    Follows h.next cells.head? cells := by
  induction cells generalizing before with
  | nil => exact .done
  | cons a cells ih =>
    obtain ⟨_, next, rest⟩ := segment
    rw [Option.or_none] at next
    refine .step ?_
    rw [next]
    exact ih rest

theorem Segment.follows_back {h : Links α} {after : Option α} {cells : List α}
    (segment : Segment h none cells after) :
    Follows h.prev cells.getLast? cells.reverse := by
  induction cells using List.reverseRecOn generalizing after with
  | nil => exact .done
  | append_singleton cells a ih =>
    obtain ⟨front, last⟩ := (segment_append h none after cells [a]).mp segment
    obtain ⟨prev, _⟩ := (segment_single h _ after a).mp last
    rw [List.getLast?_concat, List.reverse_append, List.reverse_singleton, List.singleton_append]
    refine .step ?_
    rw [prev, Option.or_none]
    exact ih front

/-- The ends of a segment, by their links. -/
theorem Segment.parts {h : Links α} {before after : Option α} {front back : List α} {a : α}
    (segment : Segment h before (front ++ a :: back) after) :
    h.prev a = front.getLast?.or before ∧ h.next a = back.head?.or after ∧
      Segment h before front (some a) ∧ Segment h (some a) back after := by
  obtain ⟨first, prev, next, second⟩ := (segment_append h before after front (a :: back)).mp segment
  rw [List.head?_cons, Option.some_or] at first
  exact ⟨prev, next, first, second⟩

/-- Two stores that agree outside the cells of a list. -/
def SameOff (cells : List α) (h h' : Links α) : Prop :=
  ∀ a, a ∉ cells → h'.prev a = h.prev a ∧ h'.next a = h.next a

theorem SameOff.segment {h h' : Links α} {changed : List α} (same : SameOff changed h h')
    {before after : Option α} {cells : List α} (segment : Segment h before cells after)
    (apart : ∀ a ∈ cells, a ∉ changed) :
    Segment h' before cells after :=
  segment.frame fun a member => same a (apart a member)

theorem head_ne {cells : List α} {b : α} (out : b ∉ cells) : cells.head? ≠ some b :=
  fun same => out (List.mem_of_head? same)

theorem getLast_ne {cells : List α} {b : α} (out : b ∉ cells) : cells.getLast? ≠ some b :=
  fun same => out (List.mem_of_getLast? same)

/-! ## Rows of cells -/

/-- One row apart from the others, and the same with another row in its place. -/
theorem split_rows {rows : List (List α)} {l : Nat} {row : List α} (here : rows[l]? = some row) :
    ∃ rest, rows.flatten.Perm (row ++ rest) ∧ (∀ new, (rows.set l new).flatten.Perm (new ++ rest)) ∧
      ∀ (k : Nat) other, k ≠ l → rows[k]? = some other → ∀ a ∈ other, a ∈ rest := by
  induction rows generalizing l with
  | nil => cases here
  | cons first rows ih =>
    cases l with
    | zero =>
      cases here
      refine ⟨rows.flatten, List.Perm.refl _, fun new => List.Perm.refl _,
        fun k other apart at_k a member => ?_⟩
      cases k with
      | zero => exact absurd rfl apart
      | succ k => exact List.mem_flatten.mpr ⟨other, List.mem_of_getElem? at_k, member⟩
    | succ l =>
      obtain ⟨rest, whole, replaced, others⟩ := ih here
      refine ⟨first ++ rest, ?_, fun new => ?_, fun k other apart at_k a member => ?_⟩
      · exact (whole.append_left first).trans (List.perm_append_comm_assoc ..)
      · exact ((replaced new).append_left first).trans (List.perm_append_comm_assoc ..)
      · cases k with
        | zero =>
          cases at_k
          exact List.mem_append_left rest member
        | succ k =>
          exact List.mem_append_right first
            (others k other (fun same => apart (by rw [same])) at_k a member)

/-! ## Writes -/

section
variable [DecidableEq α]

def Links.setPrev (h : Links α) (a : α) (value : Option α) : Links α :=
  { h with prev := Function.update h.prev a value }

def Links.setNext (h : Links α) (a : α) (value : Option α) : Links α :=
  { h with next := Function.update h.next a value }

/-- A write to a cell that may be missing. -/
def Links.setPrevOf (h : Links α) (cell value : Option α) : Links α :=
  cell.elim h fun a => h.setPrev a value

def Links.setNextOf (h : Links α) (cell value : Option α) : Links α :=
  cell.elim h fun a => h.setNext a value

def Links.clear (h : Links α) (a : α) : Links α := (h.setPrev a none).setNext a none

@[simp] theorem setPrev_next (h : Links α) (a : α) (value : Option α) :
    (h.setPrev a value).next = h.next := rfl

@[simp] theorem setNext_prev (h : Links α) (a : α) (value : Option α) :
    (h.setNext a value).prev = h.prev := rfl

@[simp] theorem setPrev_self (h : Links α) (a : α) (value : Option α) :
    (h.setPrev a value).prev a = value := by
  unfold Links.setPrev
  exact Function.update_self ..

@[simp] theorem setNext_self (h : Links α) (a : α) (value : Option α) :
    (h.setNext a value).next a = value := by
  unfold Links.setNext
  exact Function.update_self ..

theorem setPrev_other (h : Links α) (a b : α) (value : Option α) (other : b ≠ a) :
    (h.setPrev a value).prev b = h.prev b := by
  unfold Links.setPrev
  exact Function.update_of_ne other ..

theorem setNext_other (h : Links α) (a b : α) (value : Option α) (other : b ≠ a) :
    (h.setNext a value).next b = h.next b := by
  unfold Links.setNext
  exact Function.update_of_ne other ..

@[simp] theorem setPrevOf_next (h : Links α) (cell value : Option α) :
    (h.setPrevOf cell value).next = h.next := by
  cases cell <;> rfl

@[simp] theorem setNextOf_prev (h : Links α) (cell value : Option α) :
    (h.setNextOf cell value).prev = h.prev := by
  cases cell <;> rfl

theorem setNext_setPrevOf (h : Links α) (cell value : Option α) (a : α) (value' : Option α) :
    (h.setPrevOf cell value).setNext a value' = (h.setNext a value').setPrevOf cell value := by
  cases cell <;> rfl

theorem setPrevOf_other (h : Links α) (cell value : Option α) (b : α) (other : cell ≠ some b) :
    (h.setPrevOf cell value).prev b = h.prev b := by
  cases cell with
  | none => rfl
  | some a => exact setPrev_other h a b value fun same => other (by rw [same])

theorem setNextOf_other (h : Links α) (cell value : Option α) (b : α) (other : cell ≠ some b) :
    (h.setNextOf cell value).next b = h.next b := by
  cases cell with
  | none => rfl
  | some a => exact setNext_other h a b value fun same => other (by rw [same])

theorem setNextOf_congr {h h' : Links α} (cell value : Option α) {b : α}
    (same : h'.next b = h.next b) :
    (h'.setNextOf cell value).next b = (h.setNextOf cell value).next b := by
  by_cases target : cell = some b
  · subst target
    exact (setNext_self h' b value).trans (setNext_self h b value).symm
  · rw [setNextOf_other h' cell value b target, setNextOf_other h cell value b target, same]

theorem setPrevOf_congr {h h' : Links α} (cell value : Option α) {b : α}
    (same : h'.prev b = h.prev b) :
    (h'.setPrevOf cell value).prev b = (h.setPrevOf cell value).prev b := by
  by_cases target : cell = some b
  · subst target
    exact (setPrev_self h' b value).trans (setPrev_self h b value).symm
  · rw [setPrevOf_other h' cell value b target, setPrevOf_other h cell value b target, same]

theorem relink_front {h : Links α} {before after : Option α} {cells : List α}
    (segment : Segment h before cells after) (distinct : cells.Nodup) (value : Option α) :
    Segment (h.setPrevOf cells.head? value) value cells after := by
  cases cells with
  | nil => trivial
  | cons a cells =>
    obtain ⟨_, next, rest⟩ := segment
    obtain ⟨out, _⟩ := List.nodup_cons.mp distinct
    refine ⟨setPrev_self h a value, next, rest.frame fun b member => ⟨?_, rfl⟩⟩
    exact setPrev_other h a b value fun same => out (same ▸ member)

theorem relink_back {h : Links α} {before after : Option α} {cells : List α}
    (segment : Segment h before cells after) (distinct : cells.Nodup) (value : Option α) :
    Segment (h.setNextOf cells.getLast? value) before cells value := by
  rcases List.eq_nil_or_concat cells with rfl | ⟨front, a, rfl⟩
  · trivial
  · rw [List.concat_eq_append] at segment distinct ⊢
    obtain ⟨first, last⟩ := (segment_append h before after front [a]).mp segment
    obtain ⟨prev, _⟩ := (segment_single h _ after a).mp last
    have out : a ∉ front :=
      fun member => List.disjoint_of_nodup_append distinct member List.mem_cons_self
    rw [List.getLast?_concat]
    refine (segment_append _ before value front [a]).mpr ⟨first.frame fun b member => ⟨rfl, ?_⟩, ?_⟩
    · exact setNext_other h a b value fun same => out (same ▸ member)
    · exact (segment_single _ _ value a).mpr ⟨prev, setNext_self h a value⟩

/-! ## Operations -/

/-- Put a cell between the two that follow each other, or at an end. -/
def Links.insert (h : Links α) (before : Option α) (a : α) (after : Option α) : Links α :=
  (((h.setPrev a before).setNext a after).setNextOf before (some a)).setPrevOf after (some a)

/-- Take out a cell with its neighbours. -/
def Links.remove (h : Links α) (before : Option α) (a : α) (after : Option α) : Links α :=
  ((h.setNextOf before after).setPrevOf after before).clear a

/-- Connect the end of a list to the start of another. -/
def Links.join (h : Links α) (last first : Option α) : Links α :=
  (h.setNextOf last first).setPrevOf first last

theorem Linked.insert {h : Links α} (front back : List α) {a : α}
    (linked : Linked h (front ++ back)) (distinct : (front ++ a :: back).Nodup) :
    Linked (h.insert front.getLast? a back.head?) (front ++ a :: back) := by
  obtain ⟨first, second⟩ := (segment_append h none none front back).mp linked
  obtain ⟨distinctFront, distinctBack, apart⟩ := List.nodup_append'.mp distinct
  obtain ⟨outBack, distinctBack⟩ := List.nodup_cons.mp distinctBack
  have outFront : a ∉ front := fun member => apart member List.mem_cons_self
  refine (segment_append _ none none front (a :: back)).mpr ⟨?_, ?_, ?_, ?_⟩
  · refine (relink_back first distinctFront (some a)).frame fun b member => ?_
    have other : b ≠ a := fun same => outFront (same ▸ member)
    have away : b ∉ back := fun inBack => apart member (List.mem_cons_of_mem a inBack)
    unfold Links.insert
    refine ⟨?_, ?_⟩
    · rw [setPrevOf_other _ _ _ b (head_ne away), setNextOf_prev, setNext_prev,
        setPrev_other h a b _ other, setNextOf_prev]
    · rw [setPrevOf_next]
      exact setNextOf_congr _ _ ((setNext_other _ a b _ other).trans rfl)
  · unfold Links.insert
    rw [setPrevOf_other _ _ _ a (head_ne outBack), setNextOf_prev, setNext_prev, setPrev_self,
      Option.or_none]
  · unfold Links.insert
    rw [setPrevOf_next, setNextOf_other _ _ _ a (getLast_ne outFront), setNext_self, Option.or_none]
  · refine (relink_front second distinctBack (some a)).frame fun b member => ?_
    have other : b ≠ a := fun same => outBack (same ▸ member)
    have away : b ∉ front := fun inFront => apart inFront (List.mem_cons_of_mem a member)
    unfold Links.insert
    refine ⟨setPrevOf_congr _ _ ?_, ?_⟩
    · rw [setNextOf_prev, setNext_prev, setPrev_other h a b _ other]
    · rw [setPrevOf_next, setPrevOf_next, setNextOf_other _ _ _ b (getLast_ne away),
        setNext_other _ a b _ other, setPrev_next]

/-- The cell to remove may have any link in front while nothing stands before it. -/
theorem Linked.remove {h : Links α} (front back : List α) {a : α}
    (first : Segment h none front (some a)) (second : Segment h (some a) back none)
    (distinct : (front ++ a :: back).Nodup) :
    Linked (h.remove front.getLast? a back.head?) (front ++ back) := by
  obtain ⟨distinctFront, distinctBack, apart⟩ := List.nodup_append'.mp distinct
  obtain ⟨outBack, distinctBack⟩ := List.nodup_cons.mp distinctBack
  have outFront : a ∉ front := fun member => apart member List.mem_cons_self
  refine (segment_append _ none none front back).mpr ⟨?_, ?_⟩
  · rw [Option.or_none]
    refine (relink_back first distinctFront back.head?).frame fun b member => ?_
    have other : b ≠ a := fun same => outFront (same ▸ member)
    have away : b ∉ back := fun inBack => apart member (List.mem_cons_of_mem a inBack)
    unfold Links.remove Links.clear
    refine ⟨?_, ?_⟩
    · rw [setNext_prev, setPrev_other _ a b _ other, setPrevOf_other _ _ _ b (head_ne away)]
    · rw [setNext_other _ a b _ other, setPrev_next, setPrevOf_next]
  · rw [Option.or_none]
    refine (relink_front second distinctBack front.getLast?).frame fun b member => ?_
    have other : b ≠ a := fun same => outBack (same ▸ member)
    have away : b ∉ front := fun inFront => apart inFront (List.mem_cons_of_mem a member)
    unfold Links.remove Links.clear
    refine ⟨?_, ?_⟩
    · rw [setNext_prev, setPrev_other _ a b _ other]
      exact setPrevOf_congr _ _ (by rw [setNextOf_prev])
    · rw [setNext_other _ a b _ other, setPrev_next, setPrevOf_next, setPrevOf_next,
        setNextOf_other _ _ _ b (getLast_ne away)]

theorem Linked.join {h : Links α} {front back : List α} (first : Linked h front)
    (second : Linked h back) (distinct : (front ++ back).Nodup) :
    Linked (h.join front.getLast? back.head?) (front ++ back) := by
  obtain ⟨distinctFront, distinctBack, apart⟩ := List.nodup_append'.mp distinct
  refine (segment_append _ none none front back).mpr ⟨?_, ?_⟩
  · rw [Option.or_none]
    refine (relink_back first distinctFront back.head?).frame fun b member => ?_
    unfold Links.join
    exact ⟨setPrevOf_other _ _ _ b (head_ne (apart member)), by rw [setPrevOf_next]⟩
  · rw [Option.or_none]
    refine (relink_front second distinctBack front.getLast?).frame fun b member => ?_
    have away : b ∉ front := fun inFront => apart inFront member
    unfold Links.join
    refine ⟨setPrevOf_congr _ _ (by rw [setNextOf_prev]), ?_⟩
    rw [setPrevOf_next, setPrevOf_next, setNextOf_other _ _ _ b (getLast_ne away)]

theorem sameOff_insert (h : Links α) (front back : List α) (a : α) :
    SameOff (front ++ a :: back) h (h.insert front.getLast? a back.head?) := by
  intro b out
  have awayFront : b ∉ front := fun member => out (List.mem_append_left _ member)
  have awayBack : b ∉ back :=
    fun member => out (List.mem_append_right _ (List.mem_cons_of_mem a member))
  have other : b ≠ a := fun same => out (List.mem_append_right _ (same ▸ List.mem_cons_self))
  unfold Links.insert
  refine ⟨?_, ?_⟩
  · rw [setPrevOf_other _ _ _ b (head_ne awayBack), setNextOf_prev, setNext_prev,
      setPrev_other h a b _ other]
  · rw [setPrevOf_next, setNextOf_other _ _ _ b (getLast_ne awayFront), setNext_other _ a b _ other,
      setPrev_next]

theorem sameOff_remove (h : Links α) (front back : List α) (a : α) :
    SameOff (front ++ a :: back) h (h.remove front.getLast? a back.head?) := by
  intro b out
  have awayFront : b ∉ front := fun member => out (List.mem_append_left _ member)
  have awayBack : b ∉ back :=
    fun member => out (List.mem_append_right _ (List.mem_cons_of_mem a member))
  have other : b ≠ a := fun same => out (List.mem_append_right _ (same ▸ List.mem_cons_self))
  unfold Links.remove Links.clear
  refine ⟨?_, ?_⟩
  · rw [setNext_prev, setPrev_other _ a b _ other, setPrevOf_other _ _ _ b (head_ne awayBack),
      setNextOf_prev]
  · rw [setNext_other _ a b _ other, setPrev_next, setPrevOf_next,
      setNextOf_other _ _ _ b (getLast_ne awayFront)]

theorem sameOff_join (h : Links α) (front back : List α) :
    SameOff (front ++ back) h (h.join front.getLast? back.head?) := by
  intro b out
  have awayFront : b ∉ front := fun member => out (List.mem_append_left _ member)
  have awayBack : b ∉ back := fun member => out (List.mem_append_right _ member)
  unfold Links.join
  refine ⟨?_, ?_⟩
  · rw [setPrevOf_other _ _ _ b (head_ne awayBack), setNextOf_prev]
  · rw [setPrevOf_next, setNextOf_other _ _ _ b (getLast_ne awayFront)]

/-- Connect the neighbours of a cell with each other; the cell keeps its links. -/
def Links.unlink (h : Links α) (a : α) : Links α :=
  let h := h.setNextOf (h.prev a) (h.next a)
  h.setPrevOf (h.next a) (h.prev a)

theorem unlink_eq {h : Links α} {front back : List α} {a : α}
    (linked : Linked h (front ++ a :: back)) (distinct : (front ++ a :: back).Nodup) :
    h.unlink a = (h.setNextOf front.getLast? back.head?).setPrevOf back.head? front.getLast? := by
  obtain ⟨prev, next, _, _⟩ := Segment.parts linked
  rw [Option.or_none] at prev next
  have out : a ∉ front :=
    fun member => (List.nodup_append'.mp distinct).2.2 member List.mem_cons_self
  unfold Links.unlink
  dsimp only
  rw [setNextOf_other _ _ _ a (by rw [prev]; exact getLast_ne out), setNextOf_prev, prev, next]

theorem Linked.unlink {h : Links α} {front back : List α} {a : α}
    (linked : Linked h (front ++ a :: back)) (distinct : (front ++ a :: back).Nodup) :
    Linked (h.unlink a) (front ++ back) := by
  obtain ⟨_, _, first, second⟩ := Segment.parts linked
  refine (Linked.remove front back first second distinct).frame fun b member => ?_
  have other : b ≠ a := by
    rintro rfl
    exact (List.nodup_middle.mp distinct).notMem member
  rw [unlink_eq linked distinct]
  unfold Links.remove Links.clear
  exact ⟨by rw [setNext_prev, setPrev_other _ a b _ other], by rw [setNext_other _ a b _ other,
    setPrev_next]⟩

theorem sameOff_unlink {h : Links α} {front back : List α} {a : α}
    (linked : Linked h (front ++ a :: back)) (distinct : (front ++ a :: back).Nodup) :
    SameOff (front ++ a :: back) h (h.unlink a) := by
  intro b out
  have awayFront : b ∉ front := fun member => out (List.mem_append_left _ member)
  have awayBack : b ∉ back :=
    fun member => out (List.mem_append_right _ (List.mem_cons_of_mem a member))
  rw [unlink_eq linked distinct]
  exact ⟨by rw [setPrevOf_other _ _ _ b (head_ne awayBack), setNextOf_prev],
    by rw [setPrevOf_next, setNextOf_other _ _ _ b (getLast_ne awayFront)]⟩

end

end CgminerT4.Library.DoublyLinked
