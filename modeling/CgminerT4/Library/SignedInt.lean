import Mathlib.Algebra.GroupWithZero.Nat
import Mathlib.Algebra.Ring.Int.Defs

/-!
# The C type int

A value carries its range, and arithmetic that leaves the range, which C leaves
undefined, has no result. `wrap` is the conversion to int, and arithmetic on
machines that keep the lower bits.
-/
namespace CgminerT4.Library.SignedInt

structure CInt where
  val : Int
  lower : -2 ^ 31 ≤ val
  upper : val < 2 ^ 31
  deriving DecidableEq

namespace CInt

def zero : CInt := ⟨0, by decide, by decide⟩

def ofInt (n : Int) : Option CInt :=
  if range : -2 ^ 31 ≤ n ∧ n < 2 ^ 31 then some ⟨n, range.1, range.2⟩ else none

def add (a : CInt) (n : Int) : Option CInt := ofInt (a.val + n)

/-- The int with the same lower 32 bits. -/
def wrap (n : Int) : CInt :=
  ⟨n.bmod (2 ^ 32), by have := @Int.le_bmod n (2 ^ 32) (by decide); omega,
    by have := @Int.bmod_lt n (2 ^ 32) (by decide); omega⟩

@[simp] theorem val_zero : zero.val = 0 := rfl

theorem ext {a b : CInt} (same : a.val = b.val) : a = b := by
  cases a
  cases b
  cases same
  rfl

theorem ofInt_eq_some (n : Int) (a : CInt) (converted : ofInt n = some a) : a.val = n := by
  unfold ofInt at converted
  split at converted
  · cases converted
    rfl
  · cases converted

theorem add_eq_some (a b : CInt) (n : Int) (added : a.add n = some b) : b.val = a.val + n :=
  ofInt_eq_some (a.val + n) b added

theorem add_defined (a : CInt) (n : Int) (lower : -2 ^ 31 ≤ a.val + n)
    (upper : a.val + n < 2 ^ 31) :
    ∃ b, a.add n = some b ∧ b.val = a.val + n := by
  unfold add ofInt
  rw [dif_pos ⟨lower, upper⟩]
  exact ⟨_, rfl, rfl⟩

theorem wrap_val (n : Int) : (wrap n).val = (n + 2 ^ 31) % 2 ^ 32 - 2 ^ 31 := by
  show n.bmod (2 ^ 32) = (n + 2 ^ 31) % 2 ^ 32 - 2 ^ 31
  rw [Int.bmod_def]
  split <;> omega

/-- Inside the range nothing is lost. -/
theorem wrap_of_add (a b : CInt) (n : Int) (added : a.add n = some b) : wrap (a.val + n) = b := by
  have sum := add_eq_some a b n added
  have lower := b.lower
  have upper := b.upper
  apply ext
  rw [wrap_val, ← sum]
  omega

theorem add_zero (a : CInt) : a.add 0 = some a := by
  unfold add ofInt
  rw [dif_pos ⟨by have := a.lower; omega, by have := a.upper; omega⟩]
  simp

end CInt

end CgminerT4.Library.SignedInt
