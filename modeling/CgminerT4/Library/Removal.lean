import Mathlib.Data.List.Basic
import Mathlib.Data.List.Perm.Basic

/-!
# Removing elements from lists and moving them between lists

Looking an element up and deleting it, or splitting a list by a test, only
rearranges the elements. Stated as permutations, these facts serve counts,
lengths and freedom from repetition alike.
-/
namespace CgminerT4.Library.Removal

/-- The element found first and the list without it make up the list. -/
theorem perm_eraseP (p : α → Bool) (l : List α) (a : α) (found : l.find? p = some a) :
    l.Perm (a :: l.eraseP p) := by
  induction l with
  | nil => cases found
  | cons b rest ih =>
    by_cases hit : p b = true
    · rw [List.find?_cons_of_pos hit] at found
      rw [List.eraseP_cons_of_pos hit, Option.some.inj found]
    · rw [List.find?_cons_of_neg hit] at found
      rw [List.eraseP_cons_of_neg hit]
      exact ((ih found).cons b).trans (List.Perm.swap a b _)

/-- Deleting the element found first closes the gap it leaves. -/
theorem split_eraseP (p : α → Bool) (l : List α) (a : α) (found : l.find? p = some a) :
    ∃ front back, l = front ++ a :: back ∧ l.eraseP p = front ++ back := by
  induction l with
  | nil => cases found
  | cons b rest ih =>
    by_cases hit : p b = true
    · rw [List.find?_cons_of_pos hit] at found
      cases found
      exact ⟨[], rest, rfl, List.eraseP_cons_of_pos hit⟩
    · rw [List.find?_cons_of_neg hit] at found
      obtain ⟨front, back, parts, erased⟩ := ih found
      refine ⟨b :: front, back, ?_, ?_⟩
      · rw [parts, List.cons_append]
      · rw [List.eraseP_cons_of_neg hit, erased, List.cons_append]

theorem countP_eraseP (p q : α → Bool) (l : List α) (a : α) (found : l.find? p = some a) :
    l.countP q = (l.eraseP p).countP q + if q a = true then 1 else 0 := by
  rw [(perm_eraseP p l a found).countP_eq, List.countP_cons]

theorem perm_partition (p : α → Bool) (l : List α) :
    (l.filter p ++ l.filter (fun x => !p x)).Perm l := List.filter_append_perm p l

/-- Occurrences of a key before and after the first hit is deleted. -/
theorem count_map_eraseP [DecidableEq κ] (f : α → κ) (p : α → Bool) (l : List α) (a : α)
    (found : l.find? p = some a) (k : κ) :
    (l.map f).count k = ((l.eraseP p).map f).count k + if f a = k then 1 else 0 := by
  rw [((perm_eraseP p l a found).map f).count_eq, List.map_cons, List.count_cons]
  simp only [beq_iff_eq]

/-- The same among the elements that pass a test `q`, when the hit passes it. -/
theorem count_map_filter_eraseP [DecidableEq κ] (f : α → κ) (p q : α → Bool) (l : List α) (a : α)
    (found : l.find? p = some a) (passes : q a = true) (k : κ) :
    ((l.filter q).map f).count k =
      (((l.eraseP p).filter q).map f).count k + if f a = k then 1 else 0 := by
  have moved := (((perm_eraseP p l a found).filter q).map f).count_eq k
  rw [moved, List.filter_cons_of_pos passes, List.map_cons, List.count_cons]
  simp only [beq_iff_eq]

/-- Deleting a hit that fails the test `q` does not change what passes it. -/
theorem count_map_filter_eraseP_of_neg [DecidableEq κ] (f : α → κ) (p q : α → Bool) (l : List α)
    (a : α) (found : l.find? p = some a) (fails : q a = false) (k : κ) :
    ((l.filter q).map f).count k = (((l.eraseP p).filter q).map f).count k := by
  have moved := (((perm_eraseP p l a found).filter q).map f).count_eq k
  rw [moved, List.filter_cons_of_neg (by simp [fails])]

theorem count_map_eraseIdx [DecidableEq κ] (f : α → κ) (l : List α) (i : Nat) (a : α)
    (found : l[i]? = some a) (k : κ) :
    (l.map f).count k = ((l.eraseIdx i).map f).count k + if f a = k then 1 else 0 := by
  obtain ⟨inside, rfl⟩ := List.getElem?_eq_some_iff.mp found
  have moved := ((List.getElem_cons_eraseIdx_perm inside).map f).count_eq k
  rw [← moved, List.map_cons, List.count_cons]
  simp only [beq_iff_eq]

theorem count_map_partition [DecidableEq κ] (f : α → κ) (p : α → Bool) (l : List α) (k : κ) :
    (l.map f).count k =
      ((l.filter p).map f).count k + ((l.filter fun x => !p x).map f).count k := by
  rw [← ((perm_partition p l).map f).count_eq k, List.map_append, List.count_append]

end CgminerT4.Library.Removal
