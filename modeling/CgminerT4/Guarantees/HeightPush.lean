import CgminerT4.Source.GbtTemplate

/-!
# The block height in the coinbase

A script number keeps the highest bit of its last byte for the sign, so k bytes
hold the heights below 2^(8k-1). ser_number changes from two bytes to three and
from three to four at other heights, and is minimal outside the two ranges
between.
-/
namespace CgminerT4.Guarantees.HeightPush
open Library.ByteString Source.GbtTemplate

/-- The bytes of ser_number that stay in the script. -/
def emitted (height : Nat) : Bytes := (serNumber height).1.take (serNumber height).2

/-- Room for a height and its sign. -/
def Holds (k height : Nat) : Prop := 1 ≤ k ∧ height < 2 ^ (8 * k - 1)

/-- The push of a height that BIP34 asks for. -/
def MinimalPush (height : Nat) (bytes : Bytes) : Prop :=
  ∃ k, Holds k height ∧ (∀ j, Holds j height → k ≤ j) ∧
    bytes = UInt8.ofNat k :: littleEndian k height

/-- The number of bytes that ser_number chooses. -/
def chosen (height : Nat) : Nat :=
  if height < 128 then 1 else if height < 16512 then 2 else if height < 2113664 then 3 else 4

theorem serNumber_chosen (height : Nat) (range : height < 2 ^ 31) :
    serNumber height = (UInt8.ofNat (chosen height) :: littleEndian 4 height,
      chosen height + 1) := by
  have value : (UInt32.ofInt height).toNat = height := by
    unfold UInt32.ofInt
    rw [Int.emod_eq_of_lt (by omega) (by omega),
      Int.toNat_natCast, UInt32.toNat_ofNat_of_lt' (show height < 2 ^ 32 by omega)]
  unfold serNumber chosen
  rw [value]
  have small : ∀ n : Nat, ((height : Int) < (n : Int)) ↔ height < n := fun n => Int.ofNat_lt
  have low := small 128
  have middle := small 16512
  have high := small 2113664
  push_cast at low middle high
  simp only [low, middle, high]

theorem emitted_chosen (height : Nat) (range : height < 2 ^ 31) :
    emitted height = UInt8.ofNat (chosen height) :: littleEndian (chosen height) height := by
  have few : chosen height ≤ 4 := by
    unfold chosen
    split
    · decide
    split
    · decide
    split <;> decide
  unfold emitted
  rw [serNumber_chosen height range, List.take_succ_cons, take_littleEndian _ _ _ few]

/-- A push is minimal if its size is. -/
theorem minimalPush_chosen (height : Nat) (range : height < 2 ^ 31) :
    MinimalPush height (emitted height) ↔ Holds (chosen height) height ∧ ∀ j,
      Holds j height → chosen height ≤ j := by
  rw [emitted_chosen height range]
  constructor
  · rintro ⟨k, holds, least, same⟩
    have lengths := congrArg List.length same
    rw [List.length_cons, List.length_cons, length_littleEndian, length_littleEndian,
      Nat.add_right_cancel_iff] at lengths
    rw [lengths]
    exact ⟨holds, least⟩
  · rintro ⟨holds, least⟩
    exact ⟨chosen height, holds, least, rfl⟩

/-- Fewer bytes do not hold what needs more. -/
theorem least_iff (k height : Nat) :
    (∀ j, Holds j height → k + 1 ≤ j) ↔ k = 0 ∨ 2 ^ (8 * k - 1) ≤ height := by
  constructor
  · intro least
    by_cases zero : k = 0
    · exact Or.inl zero
    · refine Or.inr (Nat.le_of_not_lt fun below => ?_)
      have shorter := least k ⟨by omega, below⟩
      omega
  · rintro (rfl | above) j ⟨positive, below⟩
    · exact positive
    · by_contra shorter
      have monotone : 2 ^ (8 * j - 1) ≤ 2 ^ (8 * k - 1) :=
        Nat.pow_le_pow_right (by decide) (by omega)
      omega

/-- The heights between the bounds of ser_number and those of script numbers get
one byte too many. -/
theorem minimal_push_iff (height : Fin (2 ^ 31)) :
    MinimalPush height (emitted height) ↔
      ¬ (16512 ≤ height.val ∧ height.val < 2 ^ 15) ∧
        ¬ (2113664 ≤ height.val ∧ height.val < 2 ^ 23) := by
  rw [minimalPush_chosen height height.isLt]
  have range := height.isLt
  generalize height.val = h at range
  unfold chosen
  split
  · rw [least_iff 0]
    unfold Holds
    omega
  split
  · rw [least_iff 1]
    unfold Holds
    omega
  split
  · rw [least_iff 2]
    unfold Holds
    omega
  · rw [least_iff 3]
    unfold Holds
    omega

/-- Three bytes for a height that fits two. -/
theorem height_push_padded : ¬ MinimalPush 16512 (emitted 16512) := by
  rintro ⟨k, _, least, same⟩
  have two := least 2 ⟨by decide, by decide⟩
  have bytes : emitted 16512 = [3, 0x80, 0x40, 0] := by decide +kernel
  rw [bytes] at same
  have lengths : 4 = (littleEndian k 16512).length + 1 := congrArg List.length same
  rw [length_littleEndian] at lengths
  omega

end CgminerT4.Guarantees.HeightPush
