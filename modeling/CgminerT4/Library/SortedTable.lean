import Mathlib.Data.List.Pairwise
import Mathlib.Order.Lattice

/-!
# Looking a value up in an increasing table

The floor of a value is the place of the greatest entry that is not above it. In
a strictly increasing table a value between two neighbours has the place of the
lower one, and every value from the first entry up to below the last one lies
between two neighbours.
-/
namespace CgminerT4.Library.SortedTable

variable {α : Type*} [LinearOrder α]

/-- `i` is the place of the greatest entry that is at most `v`. -/
def Floor (table : List α) (v : α) (i : Nat) : Prop :=
  ∃ entry, table[i]? = some entry ∧ entry ≤ v ∧ ∀ (j : Nat) (other : α), table[j]? = some other →
    other ≤ v → other ≤ entry

/-- `v` lies between the entries at `i` and `i + 1`. -/
def Between (table : List α) (v : α) (i : Nat) : Prop :=
  ∃ low high : α, table[i]? = some low ∧ table[i + 1]? = some high ∧ low ≤ v ∧ v < high

variable {table : List α}

theorem entry_lt (sorted : table.Pairwise (· < ·)) {i j : Nat} {low high : α} (before : i < j)
    (first : table[i]? = some low) (second : table[j]? = some high) : low < high := by
  obtain ⟨i_inside, rfl⟩ := List.getElem?_eq_some_iff.mp first
  obtain ⟨j_inside, rfl⟩ := List.getElem?_eq_some_iff.mp second
  exact List.pairwise_iff_getElem.mp sorted i j i_inside j_inside before

theorem place_le (sorted : table.Pairwise (· < ·)) {i j : Nat} {low high : α} (order : low ≤ high)
    (first : table[i]? = some low) (second : table[j]? = some high) : i ≤ j := by
  by_contra behind
  exact absurd (entry_lt sorted (by omega) second first) (not_lt.mpr order)

theorem floor_of_between (sorted : table.Pairwise (· < ·)) {v : α} {i : Nat}
    (between : Between table v i) :
    Floor table v i := by
  obtain ⟨low, high, at_low, at_high, lower, upper⟩ := between
  refine ⟨low, at_low, lower, fun j other at_other below => ?_⟩
  by_contra above
  -- an entry above `low` stands behind it, so not before its neighbour
  have behind : i < j := by
    by_contra before
    rcases Nat.lt_or_eq_of_le (Nat.not_lt.mp before) with earlier | same
    · exact above (le_of_lt (entry_lt sorted earlier at_other at_low))
    · rw [same, at_low] at at_other
      exact above (le_of_eq (Option.some.inj at_other).symm)
  rcases Nat.lt_or_eq_of_le (show i + 1 ≤ j by omega) with later | same
  · exact absurd (lt_of_le_of_lt below upper)
      (not_lt.mpr (le_of_lt (entry_lt sorted later at_high at_other)))
  · rw [← same, at_high] at at_other
    exact absurd (Option.some.inj at_other ▸ below) (not_le.mpr upper)

theorem floor_unique (sorted : table.Pairwise (· < ·)) {v : α} {i j : Nat} (first : Floor table v i)
    (second : Floor table v j) : i = j := by
  obtain ⟨entry, at_entry, below, greatest⟩ := first
  obtain ⟨other, at_other, other_below, other_greatest⟩ := second
  exact Nat.le_antisymm (place_le sorted (other_greatest i entry at_entry below) at_entry at_other)
    (place_le sorted (greatest j other at_other other_below) at_other at_entry)

theorem floor_mono (sorted : table.Pairwise (· < ·)) {v w : α} (order : v ≤ w) {i j : Nat}
    (first : Floor table v i) (second : Floor table w j) : i ≤ j := by
  obtain ⟨entry, at_entry, below, _⟩ := first
  obtain ⟨other, at_other, _, greatest⟩ := second
  exact place_le sorted (greatest i entry at_entry (le_trans below order)) at_entry at_other

/-- An entry is its own floor. -/
theorem floor_entry {i : Nat} {entry : α} (at_entry : table[i]? = some entry) :
    Floor table entry i :=
  ⟨entry, at_entry, le_refl entry, fun _ _ _ below => below⟩

/-- A value from the first entry on and below the last one lies between neighbours. -/
theorem between_exists {v first last : α} {n : Nat} (at_first : table[0]? = some first)
    (lower : first ≤ v) (at_last : table[n]? = some last) (upper : v < last) :
    ∃ i < n, Between table v i := by
  induction n generalizing last with
  | zero =>
    rw [at_first] at at_last
    exact absurd (Option.some.inj at_last ▸ lower) (not_le.mpr upper)
  | succ n ih =>
    obtain ⟨inside, _⟩ := List.getElem?_eq_some_iff.mp at_last
    have at_entry : table[n]? = some (table.get ⟨n, by omega⟩) := List.getElem?_eq_getElem _
    by_cases below : v < table.get ⟨n, by omega⟩
    · obtain ⟨i, short, between⟩ := ih at_entry below
      exact ⟨i, by omega, between⟩
    · exact ⟨n, by omega, _, last, at_entry, at_last, not_lt.mp below, upper⟩

end CgminerT4.Library.SortedTable
