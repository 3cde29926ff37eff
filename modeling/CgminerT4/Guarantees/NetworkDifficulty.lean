import CgminerT4.Source.SeenBlocks

/-!
# The difficulty of the network

The shift of set_blockdiff is at least eight, so the highest exponent gets the
numerator of the exponent below it. With the shift by 56 the constant leaves the
64 bits, and wider shifts have no value in C. For the exponents between, the
quotient is exact.
-/
namespace CgminerT4.Guarantees.NetworkDifficulty
open Library.ByteString Source.SeenBlocks

/-- Exponent and mantissa of the packed form. -/
def exponent (data : Buffer 128) : Nat := (data.get 72).toNat

def mantissa (data : Buffer 128) : Nat := ofLittleEndian ((data.bytes.drop 73).take 3).reverse

/-- The highest target over the one of the packed form. -/
def difficulty (data : Buffer 128) : ℚ := 0xFFFF * 256 ^ (0x1d - exponent data) / mantissa data

/-- The mask leaves the three bytes behind the exponent. -/
theorem diff32_eq_mantissa (data : Buffer 128) : diff32 data = mantissa data := by
  have word : (data.bytes.drop 72).take 4 = data.get 72 :: (data.bytes.drop 73).take 3 := by
    have inside : 72 < data.bytes.length := by
      rw [data.length_eq]
      decide
    rw [← List.getElem_cons_drop inside, List.take_succ_cons, Buffer.get,
      List.getD_eq_getElem?_getD, List.getElem?_eq_getElem inside, Option.getD_some]
  have size : ((data.bytes.drop 73).take 3).reverse.length = 3 := by
    rw [List.length_reverse, List.length_take, List.length_drop, data.length_eq]
    rfl
  have small := ofLittleEndian_lt ((data.bytes.drop 73).take 3).reverse
  rw [size] at small
  have mask : (0x00FFFFFF : Nat) = 2 ^ 24 - 1 := rfl
  unfold diff32 be32toh mantissa
  rw [word, List.reverse_cons, ofLittleEndian_append, size, mask, Nat.and_two_pow_sub_one_eq_mod]
  omega

theorem powdiff_eq (pow : UInt8) :
    powdiff pow = if pow.toNat ≤ 0x1c then 8 * (0x1d - pow.toNat) else 8 := by
  unfold powdiff
  dsimp only
  split <;> split <;> omega

/-- A shift below 64 is defined; its value is cut to the 64 bits. -/
theorem numerator_eq_some (pow : UInt8) (value : Nat) :
    (numerator pow).map BitVec.toNat = some value ↔
      powdiff pow < 64 ∧ 0xFFFF * 2 ^ powdiff pow % 2 ^ 64 = value := by
  unfold numerator
  by_cases defined : powdiff pow < 64
  · rw [if_pos defined, Option.map_some, BitVec.toNat_shiftLeft, Nat.shiftLeft_eq, Option.some_inj]
    exact ⟨fun same => ⟨defined, same⟩, And.right⟩
  · rw [if_neg defined, Option.map_none]
    exact ⟨nofun, fun reached => absurd reached.1 defined⟩

/-- Cutting to 64 bits and clamping the shift hurt outside six exponents. -/
theorem numerator_exact (pow : UInt8) (upper : pow.toNat ≤ 0x1d) :
    (numerator pow).map BitVec.toNat = some (0xFFFF * 256 ^ (0x1d - pow.toNat)) ↔
      0x17 ≤ pow.toNat ∧ pow.toNat ≤ 0x1c := by
  have base : (256 : Nat) = 2 ^ 8 := rfl
  rw [numerator_eq_some, powdiff_eq, base, ← Nat.pow_mul]
  constructor
  · rintro ⟨-, attained⟩
    constructor
    · by_contra low
      have wide : 2 ^ (8 * 7) ≤ 2 ^ (8 * (0x1d - pow.toNat)) :=
        Nat.pow_le_pow_right (by decide) (by omega)
      have cut := Nat.mod_lt (0xFFFF * 2 ^ (if pow.toNat ≤ 0x1c then 8 * (0x1d - pow.toNat) else 8))
        (show 0 < 2 ^ 64 by decide)
      rw [attained] at cut
      omega
    · by_contra high
      have top : pow.toNat = 0x1d := by omega
      rw [top] at attained
      revert attained
      decide
  · rintro ⟨lower, below⟩
    rw [if_pos below]
    have narrow : 2 ^ (8 * (0x1d - pow.toNat)) ≤ 2 ^ (8 * 6) :=
      Nat.pow_le_pow_right (by decide) (by omega)
    exact ⟨by omega, Nat.mod_eq_of_lt (by omega)⟩

/-- With a mantissa, the quotient is the difficulty just when the numerator is exact. -/
theorem ddiff_eq_iff (data : Buffer 128) (nonzero : mantissa data ≠ 0) :
    ddiff data = some (difficulty data) ↔
      (numerator (data.get 72)).map BitVec.toNat =
        some (0xFFFF * 256 ^ (0x1d - exponent data)) := by
  have positive : (mantissa data : ℚ) ≠ 0 := Nat.cast_ne_zero.mpr nonzero
  have whole : (0xFFFF * 256 ^ (0x1d - exponent data) : ℚ) =
      ((0xFFFF * 256 ^ (0x1d - exponent data) : Nat) : ℚ) := by
    push_cast
    rfl
  unfold ddiff difficulty
  cases numerator (data.get 72) with
  | none => exact ⟨nofun, nofun⟩
  | some shifted =>
    rw [Option.bind_some, Option.map_some, diff32_eq_mantissa, if_neg nonzero, Option.some_inj,
      div_left_inj' positive, whole, Nat.cast_inj, Option.some_inj]

theorem ddiff_eq_difficulty_iff (data : Buffer 128)
    (range : 3 ≤ exponent data ∧ exponent data ≤ 0x1d)
    (nonzero : 0 < mantissa data ∧ mantissa data < 2 ^ 23) :
    ddiff data = some (difficulty data) ↔ 0x17 ≤ exponent data ∧ exponent data ≤ 0x1c := by
  rw [ddiff_eq_iff data (by omega)]
  exact numerator_exact (data.get 72) range.2

/-- A header with this packed target and zeros elsewhere. -/
def packed (word : Bytes) (four : word.length = 4) : Buffer 128 :=
  ⟨List.replicate 72 0 ++ word ++ List.replicate 52 0, by simp [four]⟩

theorem ddiff_eq_difficulty_0x1703 :
    ddiff (packed [0x17, 0x03, 0x42, 0x19] rfl) =
      some (difficulty (packed [0x17, 0x03, 0x42, 0x19] rfl)) :=
  (ddiff_eq_difficulty_iff (packed [0x17, 0x03, 0x42, 0x19] rfl) (by decide) (by decide)).mpr
    (by decide)

/-- The target of difficulty one. -/
theorem ddiff_0x1d00ffff :
    exponent (packed [0x1d, 0x00, 0xff, 0xff] rfl) = 0x1d ∧
      mantissa (packed [0x1d, 0x00, 0xff, 0xff] rfl) = 0xffff ∧
      difficulty (packed [0x1d, 0x00, 0xff, 0xff] rfl) = 1 ∧
        ddiff (packed [0x1d, 0x00, 0xff, 0xff] rfl) = some 256 := by
  have size : exponent (packed [0x1d, 0x00, 0xff, 0xff] rfl) = 0x1d ∧
      mantissa (packed [0x1d, 0x00, 0xff, 0xff] rfl) = 0xffff := by decide
  have top : numerator ((packed [0x1d, 0x00, 0xff, 0xff] rfl).get 72) = some 0xffff00 := by decide
  refine ⟨size.1, size.2, ?_⟩
  unfold difficulty ddiff
  have cut : (0xffff00 : BitVec 64).toNat = 0xffff00 := rfl
  rw [diff32_eq_mantissa, size.1, size.2, top, Option.bind_some, if_neg (by decide), cut]
  norm_num

end CgminerT4.Guarantees.NetworkDifficulty
