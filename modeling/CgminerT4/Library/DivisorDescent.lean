import Mathlib.Algebra.GCDMonoid.Multiset
import Mathlib.Algebra.GCDMonoid.Nat
import Mathlib.Data.Nat.Find

/-!
# Descending to a divisor of every number of a list

One pass that lowers a candidate to the next divisor of each number keeps only
the last number divided. Its result is the greatest end of a non-increasing
sequence of divisors, which may lie above the greatest common divisor.
-/
namespace CgminerT4.Library.DivisorDescent

def listGcd (numbers : List Nat) : Nat := Multiset.gcd (numbers : Multiset Nat)

theorem listGcd_dvd (numbers : List Nat) (n : Nat) (member : n ∈ numbers) : listGcd numbers ∣ n :=
  Multiset.gcd_dvd (Multiset.mem_coe.mpr member)

theorem dvd_listGcd (numbers : List Nat) (d : Nat)
    (divides : ∀ n ∈ numbers, d ∣ n) : d ∣ listGcd numbers :=
  Multiset.dvd_gcd.mpr fun n member => divides n (Multiset.mem_coe.mp member)

theorem listGcd_pair (a b : Nat) : listGcd [a, b] = Nat.gcd a b := by
  have front := listGcd_dvd [a, b] a (by simp)
  have back := listGcd_dvd [a, b] b (by simp)
  apply Nat.dvd_antisymm (Nat.dvd_gcd front back)
  apply dvd_listGcd
  simp [Nat.gcd_dvd_left, Nat.gcd_dvd_right]

/-- Choose a divisor of each number in turn, never above the one before;
`last` is the last choice, and `start` bounds the first. -/
inductive Descent : Nat → List Nat → Nat → Prop
  | done (last : Nat) : Descent last [] last
  | step {start d n last : Nat} {numbers : List Nat} (below : d ≤ start) (divides : d ∣ n)
      (rest : Descent d numbers last) : Descent start (n :: numbers) last

theorem Descent.le {start last : Nat} {numbers : List Nat} (choice : Descent start numbers last) :
    last ≤ start := by
  induction choice with
  | done last => exact Nat.le_refl last
  | step below _ _ ih => exact Nat.le_trans ih below

theorem descent_pair_iff (start a b last : Nat) :
    Descent start [a, b] last ↔ last ∣ b ∧ ∃ d, d ≤ start ∧ d ∣ a ∧ last ≤ d := by
  constructor
  · rintro (_ | ⟨below, divides, _ | ⟨lower, second, ⟨_⟩⟩⟩)
    exact ⟨second, _, below, divides, lower⟩
  · rintro ⟨second, d, below, divides, lower⟩
    exact .step below divides (.step lower second (.done last))

/-- The pass that always takes the greatest divisor. -/
def greedy : Nat → List Nat → Nat
  | candidate, [] => candidate
  | candidate, n :: numbers => greedy (Nat.findGreatest (fun d => d ∣ n) candidate) numbers

theorem findGreatest_dvd (n candidate : Nat) (positive : 0 < candidate) :
    Nat.findGreatest (fun d => d ∣ n) candidate ∣ n :=
  Nat.findGreatest_spec (P := fun d => d ∣ n) positive (Nat.one_dvd n)

theorem findGreatest_dvd_pos (n candidate : Nat) (positive : 0 < candidate) :
    0 < Nat.findGreatest (fun d => d ∣ n) candidate :=
  Nat.findGreatest_pos.mpr ⟨1, Nat.one_pos, positive, Nat.one_dvd n⟩

theorem greedy_descent (candidate : Nat) (numbers : List Nat) (positive : 0 < candidate) :
    Descent candidate numbers (greedy candidate numbers) := by
  induction numbers generalizing candidate with
  | nil => exact .done candidate
  | cons n numbers ih =>
    have rest := ih _ (findGreatest_dvd_pos n candidate positive)
    exact .step (Nat.findGreatest_le candidate) (findGreatest_dvd n candidate positive) rest

/-- No choice ends above the greedy one. -/
theorem descent_le_greedy {start candidate last : Nat} {numbers : List Nat}
    (choice : Descent start numbers last) (below : start ≤ candidate) :
    last ≤ greedy candidate numbers := by
  induction choice generalizing candidate with
  | done last => exact below
  | step lower divides _ ih => exact ih (Nat.le_findGreatest (Nat.le_trans lower below) divides)

/-- A common divisor can be chosen every time. -/
theorem descent_of_dvd (start d : Nat) (numbers : List Nat) (below : d ≤ start)
    (nonempty : numbers ≠ []) (divides : ∀ n ∈ numbers, d ∣ n) : Descent start numbers d := by
  induction numbers generalizing start with
  | nil => exact absurd rfl nonempty
  | cons n numbers ih =>
    have front := divides n List.mem_cons_self
    cases numbers with
    | nil => exact .step below front (.done d)
    | cons m numbers =>
      have behind : ∀ k ∈ m :: numbers, d ∣ k :=
        fun k member => divides k (List.mem_cons_of_mem n member)
      exact .step below front (ih d (Nat.le_refl d) (List.cons_ne_nil m numbers) behind)

/-- The pass ends at the greatest common divisor exactly if no choice ends above it. -/
theorem greedy_eq_listGcd_iff (start : Nat) (numbers : List Nat) (positive : 0 < start)
    (reaches : listGcd numbers ≤ start) (nonempty : numbers ≠ []) :
    greedy start numbers = listGcd numbers ↔
      ∀ last, Descent start numbers last → last ≤ listGcd numbers := by
  constructor
  · intro same last choice
    rw [← same]
    exact descent_le_greedy choice (Nat.le_refl start)
  · intro bounded
    have common :=
      descent_of_dvd start (listGcd numbers) numbers reaches nonempty (listGcd_dvd numbers)
    have above := descent_le_greedy common (Nat.le_refl start)
    exact Nat.le_antisymm (bounded _ (greedy_descent start numbers positive)) above

end CgminerT4.Library.DivisorDescent
