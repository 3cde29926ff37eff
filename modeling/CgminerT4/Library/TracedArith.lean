import Mathlib.Algebra.GroupWithZero.Nat
import Mathlib.Algebra.Ring.Int.Defs
import Mathlib.Data.Int.Order.Basic

/-!
# Machine arithmetic beside unbounded arithmetic

A calculation carries its value together with the fact whether it was exact so
far: no result left its type and no divisor was 0. Results are wrapped as two's
complement, division truncates, and the two flags of consecutive steps add up.
-/
namespace CgminerT4.Library.TracedArith

structure Calc (α : Type*) where
  value : α
  exact : Bool
  deriving DecidableEq, Repr

namespace Calc

instance : Monad Calc where
  pure a := ⟨a, true⟩
  bind x f := ⟨(f x.value).value, x.exact && (f x.value).exact⟩

variable {α β : Type}

@[simp] theorem value_pure (a : α) : (pure a : Calc α).value = a := rfl

@[simp] theorem exact_pure (a : α) : (pure a : Calc α).exact = true := rfl

@[simp] theorem value_bind (x : Calc α) (f : α → Calc β) :
    (x >>= f).value = (f x.value).value := rfl

@[simp] theorem exact_bind (x : Calc α) (f : α → Calc β) :
    (x >>= f).exact = true ↔ x.exact = true ∧ (f x.value).exact = true := Bool.and_eq_true_iff

end Calc

/-- A result stored in an unsigned type. -/
def unsigned (bits : Nat) (n : Int) : Calc Int := ⟨n % 2 ^ bits, n % 2 ^ bits = n⟩

/-- A result stored in a signed type. -/
def signed (bits : Nat) (n : Int) : Calc Int := ⟨n.bmod (2 ^ bits), n.bmod (2 ^ bits) = n⟩

/-- Division, truncated towards 0. -/
def quotient (a b : Int) : Calc Int := ⟨a.tdiv b, b ≠ 0⟩

theorem unsigned_of_fits {bits : Nat} {n : Int} (nonnegative : 0 ≤ n) (fits : n < 2 ^ bits) :
    unsigned bits n = ⟨n, true⟩ := by
  unfold unsigned
  rw [Int.emod_eq_of_lt nonnegative fits]
  simp

theorem exact_unsigned_iff {bits : Nat} {n : Int} (nonnegative : 0 ≤ n) :
    (unsigned bits n).exact = true ↔ n < 2 ^ bits := by
  constructor
  · intro exact
    have same : n % 2 ^ bits = n := of_decide_eq_true exact
    rw [← same]
    exact Int.emod_lt_of_pos n (Int.pow_pos (by decide))
  · intro fits
    rw [unsigned_of_fits nonnegative fits]

theorem signed_of_fits {bits : Nat} {n : Int} (nonnegative : 0 ≤ n) (fits : n < 2 ^ bits) :
    signed (bits + 1) n = ⟨n, true⟩ := by
  have size : ((2 ^ (bits + 1) : Nat) : Int) = 2 * 2 ^ bits := by
    rw [Nat.pow_succ]
    push_cast
    omega
  have same : n.bmod (2 ^ (bits + 1)) = n := Int.bmod_eq_of_le_mul_two (by omega) (by omega)
  unfold signed
  rw [same]
  simp

theorem exact_signed_iff {bits : Nat} {n : Int} (nonnegative : 0 ≤ n) :
    (signed (bits + 1) n).exact = true ↔ n < 2 ^ bits := by
  constructor
  · intro exact
    have same : n.bmod (2 ^ (bits + 1)) = n := of_decide_eq_true exact
    have size : ((2 ^ (bits + 1) : Nat) : Int) = 2 * 2 ^ bits := by
      rw [Nat.pow_succ]
      push_cast
      omega
    have below := @Int.bmod_lt n (2 ^ (bits + 1)) (Nat.two_pow_pos _)
    rw [same, size] at below
    omega
  · intro fits
    rw [signed_of_fits nonnegative fits]

theorem quotient_of_pos {a b : Int} (nonnegative : 0 ≤ a) (positive : 0 < b) :
    quotient a b = ⟨a / b, true⟩ := by
  unfold quotient
  rw [Int.tdiv_eq_ediv_of_nonneg nonnegative, decide_eq_true (show b ≠ 0 by omega)]

theorem ediv_ne_zero_iff {a b : Int} (nonnegative : 0 ≤ a) (positive : 0 < b) :
    a / b ≠ 0 ↔ b ≤ a := by
  have least : 1 ≤ a / b ↔ 1 * b ≤ a := Int.le_ediv_iff_mul_le positive
  have := Int.ediv_nonneg nonnegative (le_of_lt positive)
  omega

end CgminerT4.Library.TracedArith
