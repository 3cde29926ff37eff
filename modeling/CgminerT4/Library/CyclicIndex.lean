import Mathlib.Data.Nat.Init

/-!
# Places in a cycle

The places below `n` in the order in which a cycle from `start` visits them:
`(start + j) % n` is the place after `j` steps, and `distance` the number of
steps to a place.
-/
namespace CgminerT4.Library.CyclicIndex

/-- The number of steps from `start` to `i`. -/
def distance (n start i : Nat) : Nat := (i + n - start) % n

variable {n start : Nat}

theorem place_eq (inside : start < n) (j : Nat) (short : j < n) :
    (start + j) % n = if start + j < n then start + j else start + j - n := by
  split
  · next before => exact Nat.mod_eq_of_lt before
  · next behind =>
    rw [Nat.mod_eq_sub_mod (by omega), Nat.mod_eq_of_lt (by omega)]

theorem distance_eq (inside : start < n) (i : Nat) (below : i < n) :
    distance n start i = if start ≤ i then i - start else i + n - start := by
  unfold distance
  split
  · next behind =>
      rw [show i + n - start = i - start + n by omega, Nat.add_mod_right,
        Nat.mod_eq_of_lt (by omega)]
  · next before => exact Nat.mod_eq_of_lt (by omega)

theorem distance_lt (positive : 0 < n) (start i : Nat) : distance n start i < n :=
  Nat.mod_lt _ positive

/-- The steps to a place lead to it. -/
theorem place_distance (inside : start < n) (i : Nat) (below : i < n) :
    (start + distance n start i) % n = i := by
  rw [place_eq inside _ (distance_lt (by omega) start i), distance_eq inside i below]
  split <;> split <;> omega

theorem distance_place (inside : start < n) (j : Nat) (short : j < n) :
    distance n start ((start + j) % n) = j := by
  rw [distance_eq inside _ (Nat.mod_lt _ (by omega)), place_eq inside j short]
  split <;> split <;> omega

/-- Distances from a place further on. -/
theorem distance_shift (inside : start < n) (d j : Nat) (first : d < n) (second : j < n) :
    distance n ((start + d) % n) ((start + j) % n) = if d ≤ j then j - d else n - d + j := by
  rw [distance_eq (Nat.mod_lt _ (by omega)) _ (Nat.mod_lt _ (by omega)), place_eq inside d first,
    place_eq inside j second]
  split <;> split <;> split <;> split <;> omega

theorem place_inj (inside : start < n) (i j : Nat) (first : i < n) (second : j < n)
    (same : (start + i) % n = (start + j) % n) : i = j := by
  rw [← distance_place inside i first, same, distance_place inside j second]

end CgminerT4.Library.CyclicIndex
