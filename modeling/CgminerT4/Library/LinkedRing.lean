import CgminerT4.Library.DoublyLinked

/-!
# Doubly linked rings

A ring is a segment whose last cell is linked to its first. A ring is known by its
first cell, from which its last one is a link away, so that two rings are made one by
four writes and the first cell leaves by two.
-/
namespace CgminerT4.Library.LinkedRing
open DoublyLinked

variable {α : Type*}

def Ring (h : Links α) (cells : List α) : Prop := Segment h cells.getLast? cells cells.head?

theorem ring_nil (h : Links α) : Ring h [] := trivial

theorem ring_single (h : Links α) (a : α) : Ring h [a] ↔ h.prev a = some a ∧ h.next a = some a :=
  segment_single h (some a) (some a) a

theorem Ring.frame {h h' : Links α} {cells changed : List α} (ring : Ring h cells)
    (same : SameOff changed h h') (apart : ∀ a ∈ cells, a ∉ changed) : Ring h' cells :=
  same.segment ring apart

/-- The last cell is behind the link of the first. -/
theorem Ring.prev_head {h : Links α} {a : α} {cells : List α} (ring : Ring h (a :: cells)) :
    h.prev a = (a :: cells).getLast? := ring.1

theorem Ring.next_head {h : Links α} {a b : α} {cells : List α} (ring : Ring h (a :: b :: cells)) :
    h.next a = some b := ring.2.1

theorem Ring.next_alone {h : Links α} {a : α} (ring : Ring h [a]) : h.next a = some a := ring.2.1

variable [DecidableEq α]

/-- The end of each row is connected to the start of the other. -/
def joined (h : Links α) (first second : List α) : Links α :=
  (((h.setPrevOf second.head? first.getLast?).setNextOf first.getLast? second.head?).setNextOf
    second.getLast? first.head?).setPrevOf first.head? second.getLast?

/-- The rows may be linked to anything at their ends before. -/
theorem ring_joined {h : Links α} {first second : List α} {before after before' after' : Option α}
    (front : Segment h before first after) (back : Segment h before' second after')
    (filled : first ≠ []) (filled' : second ≠ []) (distinct : (first ++ second).Nodup) :
    Ring (joined h first second) (first ++ second) := by
  obtain ⟨distinctFirst, distinctSecond, apart⟩ := List.nodup_append'.mp distinct
  have ends : (first ++ second).getLast? = second.getLast? := by
    rw [List.getLast?_append, Option.or_of_isSome (List.getLast?_isSome.mpr filled')]
  have starts : (first ++ second).head? = first.head? := by
    rw [List.head?_append, Option.or_of_isSome (List.isSome_head?.mpr filled)]
  unfold Ring
  rw [ends, starts]
  refine (segment_append _ _ _ first second).mpr ⟨?_, ?_⟩
  · rw [Option.or_of_isSome (List.isSome_head?.mpr filled')]
    have linked :=
      relink_back (relink_front front distinctFirst second.getLast?) distinctFirst second.head?
    refine linked.frame fun b member => ?_
    have away : b ∉ second := fun inSecond => apart member inSecond
    unfold joined
    refine ⟨?_, ?_⟩
    · rw [setNextOf_prev]
      exact setPrevOf_congr _ _ (by
        rw [setNextOf_prev, setNextOf_prev, setPrevOf_other h second.head? _ b (head_ne away)])
    · rw [setPrevOf_next, setNextOf_other _ second.getLast? _ b (getLast_ne away)]
      exact setNextOf_congr _ _ (by rw [setPrevOf_next, setPrevOf_next])
  · rw [Option.or_of_isSome (List.getLast?_isSome.mpr filled)]
    have linked :=
      relink_back (relink_front back distinctSecond first.getLast?) distinctSecond first.head?
    refine linked.frame fun b member => ?_
    have away : b ∉ first := fun inFirst => apart inFirst member
    unfold joined
    refine ⟨?_, ?_⟩
    · rw [setPrevOf_other _ first.head? _ b (head_ne away), setNextOf_prev, setNextOf_prev,
        setNextOf_prev]
    · rw [setPrevOf_next]
      exact setNextOf_congr _ _ (setNextOf_other _ first.getLast? _ b (getLast_ne away))

theorem sameOff_joined (h : Links α) (first second : List α) :
    SameOff (first ++ second) h (joined h first second) := by
  intro b out
  have awayFirst : b ∉ first := fun member => out (List.mem_append_left _ member)
  have awaySecond : b ∉ second := fun member => out (List.mem_append_right _ member)
  unfold joined
  refine ⟨?_, ?_⟩
  · rw [setPrevOf_other _ _ _ b (head_ne awayFirst), setNextOf_prev, setNextOf_prev,
      setPrevOf_other _ _ _ b (head_ne awaySecond)]
  · rw [setPrevOf_next, setNextOf_other _ _ _ b (getLast_ne awaySecond),
      setNextOf_other _ _ _ b (getLast_ne awayFirst), setPrevOf_next]

/-- The cells behind the first closed to a ring of their own. -/
def closed (h : Links α) (cells : List α) : Links α :=
  (h.setPrevOf cells.head? cells.getLast?).setNextOf cells.getLast? cells.head?

theorem Ring.tail {h : Links α} {a : α} {cells : List α} (ring : Ring h (a :: cells))
    (distinct : (a :: cells).Nodup) :
    Ring (closed h cells) cells := by
  obtain ⟨_, _, rest⟩ := ring
  obtain ⟨_, distinctRest⟩ := List.nodup_cons.mp distinct
  exact relink_back (relink_front rest distinctRest cells.getLast?) distinctRest cells.head?

theorem sameOff_closed (h : Links α) (cells : List α) : SameOff cells h (closed h cells) := by
  intro b out
  unfold closed
  refine ⟨?_, ?_⟩
  · rw [setNextOf_prev, setPrevOf_other h _ _ b (head_ne out)]
  · rw [setNextOf_other _ _ _ b (getLast_ne out), setPrevOf_next]

end CgminerT4.Library.LinkedRing
