import Mathlib.Data.List.Infix

/-!
# The first place of a pattern

`dropInfix?` splits a list at the first place of a pattern. A reader that sees
the list through a window of the pattern's length finds the same place: when the
window holds something else its first element belongs to the front.
-/
namespace CgminerT4.Library.Pattern

variable {α : Type*} [BEq α] [LawfulBEq α]

/-- The pattern stands at the front. -/
theorem dropInfix?_here (pat rest : List α) : (pat ++ rest).dropInfix? pat = some ([], rest) := by
  rw [List.dropInfix?_eq_some_iff]
  exact ⟨⟨pat, rfl, BEq.rfl⟩, fun _ _ _ _ _ => Nat.zero_le _⟩

omit [LawfulBEq α] in
theorem dropInfix?_go (pat l acc : List α) :
    List.dropInfix?.go pat l acc = (l.dropInfix? pat).map fun found =>
      (acc.reverse ++ found.1, found.2) := by
  apply Option.ext
  rintro ⟨front, rest⟩
  rw [List.dropInfix?_go_eq_some_iff, Option.map_eq_some_iff]
  constructor
  · rintro ⟨before, rfl, place⟩
    exact ⟨(before, rest), List.dropInfix?_eq_some_iff.mpr place, rfl⟩
  · rintro ⟨⟨before, behind⟩, found, same⟩
    cases same
    exact ⟨before, rfl, List.dropInfix?_eq_some_iff.mp found⟩

/-- An element in front of the first place. -/
theorem dropInfix?_skip (pat l : List α) (a : α) (other : ¬ pat <+: a :: l) :
    (a :: l).dropInfix? pat = (l.dropInfix? pat).map fun found => (a :: found.1, found.2) := by
  have elsewhere : (a :: l).dropPrefix? pat = none := by
    cases stands : (a :: l).dropPrefix? pat with
    | none => rfl
    | some rest =>
      obtain ⟨front, same, equal⟩ := List.dropPrefix?_eq_some_iff.mp stands
      rw [eq_of_beq equal] at same
      exact absurd ⟨rest, same.symm⟩ other
  have next : (a :: l).dropInfix? pat = List.dropInfix?.go pat l [a] := by
    unfold List.dropInfix?
    rw [List.dropInfix?.go, elsewhere]
  rw [next, dropInfix?_go]
  rfl

theorem dropInfix?_split {pat l front rest : List α}
    (found : l.dropInfix? pat = some (front, rest)) :
    l = front ++ pat ++ rest := by
  obtain ⟨⟨middle, whole, same⟩, _⟩ := List.dropInfix?_eq_some_iff.mp found
  rw [← eq_of_beq same]
  exact whole

theorem dropInfix?_isSome (pat l : List α) : (l.dropInfix? pat).isSome = true ↔ pat <:+: l := by
  constructor
  · intro found
    obtain ⟨⟨front, rest⟩, place⟩ := Option.isSome_iff_exists.mp found
    exact ⟨front, rest, (dropInfix?_split place).symm⟩
  · intro inside
    induction l with
    | nil =>
      rw [List.infix_nil.mp inside]
      rfl
    | cons a l ih =>
      by_cases here : pat <+: a :: l
      · obtain ⟨rest, whole⟩ := here
        rw [← whole, dropInfix?_here]
        rfl
      · rw [dropInfix?_skip pat l a here, Option.isSome_map]
        exact ih ((List.infix_cons_iff.mp inside).resolve_left here)

/-- The place found is one of the pattern, and the first. -/
theorem dropInfix?_place {pat l front rest : List α}
    (found : l.dropInfix? pat = some (front, rest)) :
    pat <+: l.drop front.length ∧ ∀ j < front.length, ¬ pat <+: l.drop j := by
  constructor
  · rw [dropInfix?_split found, List.append_assoc, List.drop_left]
    exact List.prefix_append pat rest
  · rintro j before ⟨behind, stands⟩
    obtain ⟨_, first⟩ := List.dropInfix?_eq_some_iff.mp found
    have whole : l = l.take j ++ pat ++ behind := by
      rw [List.append_assoc, stands, List.take_append_drop]
    have place := first (l.take j) pat behind whole BEq.rfl
    rw [List.length_take] at place
    omega

theorem dropInfix?_eq_none_iff (pat l : List α) :
    l.dropInfix? pat = none ↔ ∀ i, ¬ pat <+: l.drop i := by
  rw [← Option.not_isSome_iff_eq_none, dropInfix?_isSome, ← not_exists, not_iff_not]
  constructor
  · rintro ⟨front, rest, whole⟩
    refine ⟨front.length, rest, ?_⟩
    rw [← whole, List.append_assoc, List.drop_left]
  · rintro ⟨i, stands⟩
    exact stands.isInfix.trans (List.drop_suffix i l).isInfix

/-- A full window that holds something else moves on by one. -/
theorem dropInfix?_slide (pat window rest : List α) (a : α)
    (full : (a :: window).length = pat.length) (other : a :: window ≠ pat) :
    (a :: window ++ rest).dropInfix? pat =
      ((window ++ rest).dropInfix? pat).map fun found => (a :: found.1, found.2) := by
  apply dropInfix?_skip
  rintro ⟨behind, whole⟩
  exact other (List.append_inj_left whole full.symm).symm

/-- Nothing that the pattern does not have stands early in a list without being
in front of the first place. -/
theorem dropInfix?_front (pat early rest : List α) (c : α) (absent : c ∉ pat)
    (near : early.length < pat.length) {front behind : List α}
    (found : (early ++ c :: rest).dropInfix? pat = some (front, behind)) : c ∈ front := by
  have whole := dropInfix?_split found
  have here : (front ++ pat ++ behind)[early.length]? = some c := by
    rw [← whole, List.getElem?_append_right (le_refl _), Nat.sub_self]
    rfl
  by_cases before : early.length < front.length
  · rw [List.append_assoc, List.getElem?_append_left before] at here
    exact List.mem_of_getElem? here
  · rw [List.append_assoc, List.getElem?_append_right (by omega),
      List.getElem?_append_left (by omega)] at here
    exact absurd (List.mem_of_getElem? here) absent

theorem dropInfix?_short (pat l : List α) (short : l.length ≤ pat.length) (other : l ≠ pat) :
    l.dropInfix? pat = none := by
  rw [← Option.not_isSome_iff_eq_none, dropInfix?_isSome]
  intro inside
  exact other (inside.eq_of_length_le short).symm

end CgminerT4.Library.Pattern
