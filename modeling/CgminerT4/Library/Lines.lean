import Mathlib.Data.List.Basic

/-!
# Text as terminated lines

A text over an alphabet with one separator is a sequence of lines, each closed
by the separator, and an unfinished rest. `unlines` writes lines, `lines` and
`unfinished` read a text back; on lines without separator they are inverse.
-/
namespace CgminerT4.Library.Lines

variable {α : Type*} (sep : α)

/-- Write each line followed by the separator. -/
def unlines (text : List (List α)) : List α := text.flatMap (· ++ [sep])

variable {sep}

@[simp] theorem unlines_nil : unlines sep [] = ([] : List α) := rfl

@[simp] theorem unlines_cons (line : List α) (text : List (List α)) :
    unlines sep (line :: text) = line ++ sep :: unlines sep text := by
  simp [unlines]

theorem unlines_append (front back : List (List α)) :
    unlines sep (front ++ back) = unlines sep front ++ unlines sep back := by
  simp [unlines]

variable [DecidableEq α] (sep)

/-- The lines a text closes, in order, the empty ones included. -/
def lines : List α → List (List α)
  | [] => []
  | a :: l =>
    if a = sep then [] :: lines l
    else match lines l with
      | [] => []
      | line :: more => (a :: line) :: more

/-- What follows the last separator. -/
def unfinished : List α → List α
  | [] => []
  | a :: l => if sep ∈ a :: l then unfinished l else a :: l

variable {sep}

@[simp] theorem lines_sep_cons (l : List α) : lines sep (sep :: l) = [] :: lines sep l := by
  simp [lines]

theorem lines_of_not_mem (l : List α) (absent : sep ∉ l) : lines sep l = [] := by
  induction l with
  | nil => rfl
  | cons a l ih =>
    rw [List.mem_cons, not_or] at absent
    rw [lines, if_neg (Ne.symm absent.1), ih absent.2]

theorem lines_append_sep (line rest : List α) (absent : sep ∉ line) :
    lines sep (line ++ sep :: rest) = line :: lines sep rest := by
  induction line with
  | nil => exact lines_sep_cons rest
  | cons a line ih =>
    rw [List.mem_cons, not_or] at absent
    rw [List.cons_append, lines, if_neg (Ne.symm absent.1), ih absent.2]

theorem unfinished_of_not_mem (l : List α) (absent : sep ∉ l) : unfinished sep l = l := by
  cases l with
  | nil => rfl
  | cons a l => rw [unfinished, if_neg absent]

theorem unfinished_append_sep (line rest : List α) :
    unfinished sep (line ++ sep :: rest) = unfinished sep rest := by
  induction line with
  | nil => rw [List.nil_append, unfinished, if_pos List.mem_cons_self]
  | cons a line ih => rw [List.cons_append, unfinished, if_pos (by simp), ih]

variable (sep) in
/-- A text is its first line, closed, and more, or has no separator. -/
theorem first_line (l : List α) :
    sep ∉ l ∨ ∃ line rest, sep ∉ line ∧ l = line ++ sep :: rest := by
  by_cases present : sep ∈ l
  · obtain ⟨line, rest, split, absent⟩ := List.eq_append_cons_of_mem present
    exact Or.inr ⟨line, rest, absent, split⟩
  · exact Or.inl present

/-- The first line of a text is determined, and so is what follows it. -/
theorem first_line_unique (line line' rest rest' : List α) (absent : sep ∉ line)
    (absent' : sep ∉ line') (same : line ++ sep :: rest = line' ++ sep :: rest') :
    line = line' ∧ rest = rest' := by
  have heads := congrArg (lines sep) same
  rw [lines_append_sep line rest absent, lines_append_sep line' rest' absent'] at heads
  obtain rfl := (List.cons.inj heads).1
  exact ⟨rfl, (List.cons.inj (List.append_cancel_left same)).2⟩

/-- Reading back what was written recovers the lines and the rest. -/
theorem lines_unlines (text : List (List α)) (rest : List α)
    (clean : ∀ line ∈ text, sep ∉ line) (open_end : sep ∉ rest) :
    lines sep (unlines sep text ++ rest) = text ∧
      unfinished sep (unlines sep text ++ rest) = rest := by
  induction text with
  | nil => exact ⟨lines_of_not_mem rest open_end, unfinished_of_not_mem rest open_end⟩
  | cons line text ih =>
    obtain ⟨read, left⟩ := ih fun other member => clean other (List.mem_cons_of_mem _ member)
    have absent := clean line List.mem_cons_self
    rw [unlines_cons, List.append_assoc, List.cons_append]
    exact ⟨by rw [lines_append_sep line _ absent, read], by rw [unfinished_append_sep, left]⟩

variable (sep) in
/-- Every text is its lines and its rest, and neither contains the separator. -/
theorem unlines_lines (l : List α) :
    unlines sep (lines sep l) ++ unfinished sep l = l ∧ sep ∉ unfinished sep l ∧
      ∀ line ∈ lines sep l, sep ∉ line := by
  induction size : l.length using Nat.strongRecOn generalizing l with
  | ind n ih =>
    rcases first_line sep l with absent | ⟨line, rest, absent, rfl⟩
    · rw [lines_of_not_mem l absent, unfinished_of_not_mem l absent]
      exact ⟨rfl, absent, by simp⟩
    · have shorter : rest.length < n := by
        rw [← size, List.length_append, List.length_cons]
        omega
      obtain ⟨joined, closed, clean⟩ := ih rest.length shorter rest rfl
      rw [lines_append_sep line rest absent, unfinished_append_sep]
      refine ⟨?_, closed, ?_⟩
      · rw [unlines_cons, List.append_assoc, List.cons_append, joined]
      · intro other member
        rcases List.mem_cons.mp member with rfl | later
        · exact absent
        · exact clean other later

end CgminerT4.Library.Lines
