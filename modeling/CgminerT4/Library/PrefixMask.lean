import Mathlib.Data.Nat.Bitwise
import Mathlib.Logic.Function.Basic
import Mathlib.Order.Fin.Basic

/-!
# Masks of the first bits of a byte array

The bits of an array are counted from the highest bit of its first byte on. Two arrays
agree on their first bits exactly when they are the same under the mask of these bits,
and a mask grows by one bit at a time.
-/
namespace CgminerT4.Library.PrefixMask

variable {k : Nat}

def bit (x : Fin k → UInt8) (n : Nat) : Bool :=
  if inside : n / 8 < k then (x ⟨n / 8, inside⟩).toNat.testBit (7 - n % 8) else false

def Agree (n : Nat) (x y : Fin k → UInt8) : Prop := ∀ i < n, bit x i = bit y i

instance (n : Nat) (x y : Fin k → UInt8) : Decidable (Agree n x y) := by
  unfold Agree
  infer_instance

theorem bit_byte (x : Fin k → UInt8) (j : Fin k) (i : Nat) (inside : i < 8) :
    bit x (8 * j + i) = (x j).toNat.testBit (7 - i) := by
  have byte : (8 * j + i) / 8 = j := by omega
  have place : (8 * (j : Nat) + i) % 8 = i := by omega
  unfold bit
  rw [dif_pos (byte.trans_lt j.isLt), place]
  exact congrArg (fun j => (x j).toNat.testBit (7 - i)) (Fin.ext byte)

theorem bit_outside (x : Fin k → UInt8) (n : Nat) (outside : k ≤ n / 8) : bit x n = false :=
  dif_neg (Nat.not_lt.mpr outside)

/-! ## One byte -/

/-- The byte with the `n` highest bits set, at most all of them. -/
def top (n : Nat) : UInt8 := UInt8.ofNat (256 - 2 ^ (8 - min n 8))

theorem testBit_top (n i : Nat) (inside : i < 8) :
    (top n).toNat.testBit i = decide (8 ≤ n + i) := by
  have small : ∀ n ≤ 8, ∀ i < 8, (top n).toNat.testBit i = decide (8 ≤ n + i) := by decide
  by_cases full : n ≤ 8
  · exact small n full i inside
  · have same : top n = top 8 := by
      unfold top
      rw [Nat.min_eq_right (by omega), Nat.min_self]
    rw [same, small 8 le_rfl i inside, decide_eq_decide]
    omega

theorem byte_ext (a b : UInt8) (same : ∀ i < 8, a.toNat.testBit i = b.toNat.testBit i) : a = b := by
  refine UInt8.toNat_inj.mp (Nat.eq_of_testBit_eq fun i => ?_)
  by_cases inside : i < 8
  · exact same i inside
  · have high : 2 ^ 8 ≤ 2 ^ i := Nat.pow_le_pow_right (by decide) (by omega)
    rw [Nat.testBit_lt_two_pow (a.toNat_lt.trans_le high),
      Nat.testBit_lt_two_pow (b.toNat_lt.trans_le high)]

theorem masked_byte_iff (n : Nat) (a b : UInt8) :
    a &&& top n = b &&& top n ↔
      ∀ i < 8, i < n → a.toNat.testBit (7 - i) = b.toNat.testBit (7 - i) := by
  constructor
  · intro same i inside taken
    have bits := congrArg (fun c => c.toNat.testBit (7 - i)) same
    simp only [UInt8.toNat_and, Nat.testBit_and, testBit_top n (7 - i) (by omega)] at bits
    rwa [decide_eq_true (by omega), Bool.and_true, Bool.and_true] at bits
  · intro same
    refine byte_ext _ _ fun i inside => ?_
    rw [UInt8.toNat_and, UInt8.toNat_and, Nat.testBit_and, Nat.testBit_and, testBit_top n i inside]
    by_cases taken : 8 ≤ n + i
    · have bits := same (7 - i) (by omega) (by omega)
      rw [Nat.sub_sub_self (by omega)] at bits
      rw [bits]
    · rw [decide_eq_false taken, Bool.and_false, Bool.and_false]

theorem top_succ (n : Nat) (inside : n < 8) :
    top (n + 1) = top n ||| UInt8.ofNat (1 <<< (7 - n)) := by
  have small : ∀ n < 8, top (n + 1) = top n ||| UInt8.ofNat (1 <<< (7 - n)) := by decide
  exact small n inside

/-! ## The whole array -/

/-- The first `n` bits. -/
def prefixMask (n : Nat) : Fin k → UInt8 := fun j => top (n - 8 * j)

theorem masked_eq_iff (n : Nat) (x y : Fin k → UInt8) :
    (∀ j, x j &&& prefixMask n j = y j &&& prefixMask n j) ↔ Agree n x y := by
  constructor
  · intro same i taken
    by_cases inside : i / 8 < k
    · have byte :=
        (masked_byte_iff _ _ _).mp (same ⟨i / 8, inside⟩) (i % 8) (by omega) (by dsimp only; omega)
      have place : 8 * (i / 8) + i % 8 = i := by omega
      rw [← bit_byte x _ _ (by omega), ← bit_byte y _ _ (by omega)] at byte
      dsimp only at byte
      rwa [place] at byte
    · rw [bit_outside x i (by omega), bit_outside y i (by omega)]
  · intro agree j
    refine (masked_byte_iff _ _ _).mpr fun i inside taken => ?_
    rw [← bit_byte x j i inside, ← bit_byte y j i inside]
    exact agree _ (by omega)

theorem prefixMask_zero : (prefixMask 0 : Fin k → UInt8) = fun _ => 0 := by
  funext j
  unfold prefixMask
  rw [Nat.zero_sub]
  rfl

/-- The mask of all bits. -/
theorem prefixMask_all : (prefixMask (8 * k) : Fin k → UInt8) = fun _ => 0xff := by
  funext j
  unfold prefixMask top
  rw [Nat.min_eq_right (by omega)]
  rfl

/-- The next bit is in byte `n / 8`. -/
theorem prefixMask_succ (n : Nat) :
    (prefixMask (n + 1) : Fin k → UInt8) = fun j : Fin k =>
      if (j : Nat) = n / 8 then prefixMask n j ||| UInt8.ofNat (1 <<< (7 - n % 8)) else
        prefixMask n j := by
  funext j
  unfold prefixMask
  split
  · rename_i byte
    have next : n + 1 - 8 * (j : Nat) = n % 8 + 1 := by omega
    have here : n - 8 * (j : Nat) = n % 8 := by omega
    rw [next, here]
    exact top_succ _ (by omega)
  · rename_i byte
    unfold top
    rcases Nat.lt_or_gt_of_ne byte with before | behind
    · rw [Nat.min_eq_right (by omega), Nat.min_eq_right (by omega)]
    · have next : n + 1 - 8 * (j : Nat) = 0 := by omega
      have here : n - 8 * (j : Nat) = 0 := by omega
      rw [next, here]

end CgminerT4.Library.PrefixMask
