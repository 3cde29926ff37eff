import Mathlib.Data.BitVec
import Mathlib.Tactic.Ring

/-!
# Windows of consecutive numbers on a ring of machine words

Two starting points on the ring of `w`-bit words are `step` apart when each is
at least `step` away from the other going upwards. The windows of `step` words
that begin there have then no word in common.
-/
namespace CgminerT4.Library.CyclicWindow

variable {w : Nat}

def Apart (step a b : BitVec w) : Prop := step ≤ a - b ∧ step ≤ b - a

theorem Apart.symm {step a b : BitVec w} (apart : Apart step a b) : Apart step b a :=
  ⟨apart.2, apart.1⟩

/-- Starting points whose windows lie one after the other without a wrap. -/
theorem apart_of_ordered {step a b : BitVec w} (ordered : a.toNat + step.toNat ≤ b.toNat)
    (inside : b.toNat + step.toNat ≤ 2 ^ w) : Apart step a b := by
  constructor
  · rw [BitVec.le_def, BitVec.toNat_sub]
    by_cases empty : step.toNat = 0
    · omega
    · rw [Nat.mod_eq_of_lt (by omega)]
      omega
  · have below : a ≤ b := by
      rw [BitVec.le_def]
      omega
    rw [BitVec.le_def, BitVec.toNat_sub_of_le below]
    omega

/-- The upward distance between the starts of two windows that meet is the
difference of the offsets where they meet. -/
theorem sub_of_meet {a b k l : BitVec w} (meet : a + k = b + l) : a - b = l - k := by
  have split : a - b = a + k - (b + k) := by ring
  rw [split, meet]
  ring

theorem windows_disjoint {step a b k l : BitVec w} (apart : Apart step a b) (first : k < step)
    (second : l < step) : a + k ≠ b + l := by
  intro meet
  obtain ⟨above, below⟩ := apart
  rw [BitVec.le_def] at above below
  rw [BitVec.lt_def] at first second
  rcases BitVec.le_total k l with ordered | ordered
  · rw [sub_of_meet meet, BitVec.toNat_sub_of_le ordered] at above
    omega
  · rw [sub_of_meet meet.symm, BitVec.toNat_sub_of_le ordered] at below
    omega

end CgminerT4.Library.CyclicWindow
