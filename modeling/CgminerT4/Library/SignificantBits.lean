import Mathlib.Algebra.GroupWithZero.Nat
import Mathlib.Data.Nat.Log

/-!
# Natural numbers in a floating-point format

A number is rounded to its `p` highest bits, a tie to the even significand. The
result is off by at most one unit in the last place.
-/
namespace CgminerT4.Library.SignificantBits

/-- The unit in the last place. -/
def ulp (p n : Nat) : Nat := 2 ^ (n.log2 + 1 - p)

def roundBits (p n : Nat) : Nat :=
  let rest := n % ulp p n
  if ulp p n < 2 * rest ∨ (ulp p n = 2 * rest ∧
    n / ulp p n % 2 = 1) then (n / ulp p n + 1) * ulp p n
  else n / ulp p n * ulp p n

example : roundBits 24 (2 ^ 24 - 1) = 2 ^ 24 - 1 ∧ roundBits 24 (2 ^ 24 + 1) = 2 ^ 24 := by
  decide +kernel

theorem roundBits_cases (p n : Nat) :
    roundBits p n = n - n % ulp p n ∨ roundBits p n = n - n % ulp p n + ulp p n := by
  have parts := Nat.div_add_mod n (ulp p n)
  have commuted := Nat.mul_comm (n / ulp p n) (ulp p n)
  unfold roundBits
  dsimp only
  split
  · right
    rw [Nat.add_mul, Nat.one_mul]
    omega
  · left
    omega

theorem le_roundBits (p n : Nat) : n ≤ roundBits p n + ulp p n := by
  have rest : n % ulp p n < ulp p n := Nat.mod_lt n (Nat.two_pow_pos _)
  rcases roundBits_cases p n with down | up
  · omega
  · omega

theorem roundBits_le (p n : Nat) : roundBits p n ≤ n + ulp p n := by
  rcases roundBits_cases p n with down | up
  · omega
  · omega

theorem ulp_le (p n k : Nat) (some : 0 < p) (bound : n < 2 ^ (p + k)) : ulp p n ≤ 2 ^ k := by
  have bits : n.log2 + 1 ≤ p + k := by
    by_cases zero : n = 0
    · rw [zero, Nat.log2_zero]
      omega
    · exact (Nat.log2_lt zero).mpr bound
  exact Nat.pow_le_pow_right (by decide) (by omega)

end CgminerT4.Library.SignificantBits
