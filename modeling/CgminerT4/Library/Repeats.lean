import Mathlib.Data.List.Basic

/-!
# A filter that remembers one key

The filter compares the key of every item with the key it saw last, from some
initial key on. A dropped item has the remembered key, so the key compared with
is always the key of the item just before. When the items it drops are all
repetitions of earlier ones is a question about neighbouring items only.
-/
namespace CgminerT4.Library.Repeats

variable {α κ : Type*} (key : α → κ)

/-- The key that the filter remembers after these items. -/
def lastKey (start : κ) (items : List α) : κ := (items.getLast?.map key).getD start

theorem lastKey_cons (start : κ) (a : α) (rest : List α) :
    lastKey key start (a :: rest) = lastKey key (key a) rest := by
  cases rest with
  | nil => rfl
  | cons b rest => simp [lastKey, List.getLast?_cons]

/-- What is dropped repeats something handled before it. -/
def DropsRepeats (same : α → α → Prop) (log : List (α × Bool)) : Prop :=
  ∀ before a after, log = before ++ (a, true) :: after → ∃ earlier ∈ before, same earlier.1 a

/-- The initial key is not mistaken for an item, and of two neighbours with one
key the later repeats the earlier or an item before it. -/
structure Telling (same : α → α → Prop) (start : κ) (items : List α) : Prop where
  first : ∀ a ∈ items.head?, key a ≠ start
  next : ∀ before a b after, items = before ++ a :: b :: after → key a = key b →
    ∃ earlier ∈ before ++ [a], same earlier b

variable [DecidableEq κ]

/-- Every item with whether it is dropped. -/
def screen : κ → List α → List (α × Bool)
  | _, [] => []
  | last, a :: rest =>
    if key a = last then (a, true) :: screen last rest else (a, false) :: screen (key a) rest

theorem screen_cons (last : κ) (a : α) (rest : List α) :
    screen key last (a :: rest) = (a, decide (key a = last)) :: screen key (key a) rest := by
  by_cases repeated : key a = last
  · simp [screen, repeated]
  · simp [screen, repeated]

theorem screen_items (last : κ) (items : List α) :
    (screen key last items).map Prod.fst = items := by
  induction items generalizing last with
  | nil => rfl
  | cons a rest ih => rw [screen_cons, List.map_cons, ih]

theorem screen_append (start : κ) (before after : List α) :
    screen key start (before ++ after) =
      screen key start before ++ screen key (lastKey key start before) after := by
  induction before generalizing start with
  | nil => rfl
  | cons a rest ih =>
    rw [List.cons_append, screen_cons, screen_cons, ih, lastKey_cons, List.cons_append]

/-- Any cut of the log is a cut of the items: what it says there compares with the item before. -/
theorem screen_at {start : κ} {items : List α} {before after : List (α × Bool)} {a : α}
    {dropped : Bool} (cut : screen key start items = before ++ (a, dropped) :: after) :
    items = before.map Prod.fst ++ a :: after.map Prod.fst ∧
      dropped = decide (key a = lastKey key start (before.map Prod.fst)) := by
  have listed : items = before.map Prod.fst ++ a :: after.map Prod.fst := by
    rw [← screen_items key start items, cut, List.map_append, List.map_cons]
  refine ⟨listed, ?_⟩
  rw [listed, screen_append, screen_cons] at cut
  have long : (screen key start (before.map Prod.fst)).length = before.length := by
    rw [← List.length_map Prod.fst, screen_items, List.length_map]
  obtain ⟨-, rest⟩ := List.append_inj cut long
  exact (congrArg Prod.snd (List.cons.inj rest).1).symm

/-- The filter drops only repetitions exactly when neighbours tell. -/
theorem dropsRepeats_iff (same : α → α → Prop) (start : κ) (items : List α) :
    DropsRepeats same (screen key start items) ↔ Telling key same start items := by
  constructor
  · intro drops
    constructor
    · intro a head taken
      obtain ⟨rest, rfl⟩ := List.head?_eq_some_iff.mp head
      obtain ⟨earlier, never, -⟩ :=
        drops [] a (screen key (key a) rest) (by rw [screen_cons]; simp [taken])
      cases never
    · rintro before a b after rfl alike
      have remembered : lastKey key start (before ++ [a]) = key a := by simp [lastKey]
      obtain ⟨earlier, handled, repeats⟩ := drops (screen key start (before ++ [a])) b
        (screen key (key b) after) (by
          rw [← List.singleton_append, ← List.append_assoc, screen_append, screen_cons, remembered]
          simp [alike])
      have item := List.mem_map_of_mem (f := Prod.fst) handled
      rw [screen_items] at item
      exact ⟨earlier.1, item, repeats⟩
  · intro telling before a after cut
    obtain ⟨listed, dropped⟩ := screen_at key cut
    have taken : key a = lastKey key start (before.map Prod.fst) := of_decide_eq_true dropped.symm
    rcases List.eq_nil_or_concat (before.map Prod.fst) with none_before | ⟨front, last, some_before⟩
    · rw [none_before] at listed taken
      exact absurd taken (telling.first a (by simp [listed]))
    · rw [some_before] at listed taken
      have alike : key last = key a := by simpa [lastKey] using taken.symm
      obtain ⟨item, handled, repeats⟩ :=
        telling.next front last a (after.map Prod.fst) (by simpa using listed) alike
      rw [← List.concat_eq_append, ← some_before] at handled
      obtain ⟨earlier, member, rfl⟩ := List.mem_map.mp handled
      exact ⟨earlier, member, repeats⟩

end CgminerT4.Library.Repeats
