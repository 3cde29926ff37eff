import CgminerT4.Source.Base58
import Mathlib.Data.Nat.ModEq
import Mathlib.Tactic.Ring

/-!
# The value of a Base58 string

Each character multiplies the number in the words by 58 and adds a digit, without
losing a carry between two words. The bytes written are the number modulo 2^200,
for every string whose length is an int.
-/
namespace CgminerT4.Guarantees.Base58Value
open Library.ByteString Source.Base58
open Source.Jansson (toInt toInt_of_lt)
open Source.WorkRoll (htobe32)

def alphabet : Bytes := ascii "123456789ABCDEFGHJKLMNPQRSTUVWXYZabcdefghijkmnopqrstuvwxyz"

/-- The number that a string is written for. -/
def base58Value (b58 : Bytes) : Nat := b58.foldl (fun value c => 58 * value + alphabet.idxOf c) 0

/-- The 25 bytes of a number, the most significant one first. -/
def bytes25 (n : Nat) : Bytes := (littleEndian 25 n).reverse

/-- The number in the words, the most significant one first. -/
def wordsValue : List UInt32 → Nat
  | [] => 0
  | word :: words => 2 ^ (32 * words.length) * word.toNat + wordsValue words

theorem wordsValue_lt (words : List UInt32) : wordsValue words < 2 ^ (32 * words.length) := by
  induction words with
  | nil => decide
  | cons word words ih =>
    have top : word.toNat + 1 ≤ 2 ^ 32 := word.toNat_lt
    have scaled := Nat.mul_le_mul_left (2 ^ (32 * words.length)) top
    rw [wordsValue, List.length_cons, Nat.mul_succ, Nat.pow_add]
    rw [Nat.mul_add, Nat.mul_one] at scaled
    omega

/-! ## Multiplying and adding -/

/-- The two parts of a product put together; a digit or a carry is below 58. -/
theorem multiplyWord_value (word c : UInt32) (small : c.toNat < 58) :
    (multiplyWord word c).1.toNat + 2 ^ 32 * (multiplyWord word c).2.toNat =
      word.toNat * 58 + c.toNat ∧
      (multiplyWord word c).2.toNat < 58 := by
  have range := word.toNat_lt
  have product : (word.toUInt64 * 58 + c.toUInt64).toNat = word.toNat * 58 + c.toNat := by
    rw [UInt64.toNat_add, UInt64.toNat_mul, UInt32.toNat_toUInt64, UInt32.toNat_toUInt64]
    have factor : (58 : UInt64).toNat = 58 := rfl
    rw [factor]
    omega
  have carry : (word.toNat * 58 + c.toNat) / 2 ^ 32 < 58 := by
    rw [Nat.div_lt_iff_lt_mul (by decide)]
    omega
  have low : (multiplyWord word c).1.toNat = (word.toNat * 58 + c.toNat) % 2 ^ 32 := by
    unfold multiplyWord
    dsimp only
    rw [UInt64.toNat_toUInt32, UInt64.toNat_and, product]
    have mask : (0xffffffff : UInt64).toNat = 2 ^ 32 - 1 := rfl
    rw [mask, Nat.and_two_pow_sub_one_eq_mod, Nat.mod_mod]
  have high : (multiplyWord word c).2.toNat = (word.toNat * 58 + c.toNat) / 2 ^ 32 := by
    unfold multiplyWord
    dsimp only
    rw [UInt64.toNat_toUInt32, UInt64.toNat_shiftRight, UInt64.toNat_and, product]
    have mask : (0x3f00000000 : UInt64).toNat = (2 ^ 6 - 1) <<< 32 := rfl
    have places : (32 : UInt64).toNat % 64 = 32 := rfl
    rw [mask, places, Nat.shiftRight_and_distrib, Nat.shiftLeft_shiftRight,
      Nat.and_two_pow_sub_one_eq_mod, Nat.shiftRight_eq_div_pow, Nat.mod_eq_of_lt (by omega),
      Nat.mod_eq_of_lt (by omega)]
  rw [low, high]
  exact ⟨Nat.mod_add_div _ _, carry⟩

/-- No carry between the words is lost. -/
theorem multiplyAdd_value (words : List UInt32) (c : UInt32) (small : c.toNat < 58) :
    (multiplyAdd words c).1.length = words.length ∧
      wordsValue (multiplyAdd words c).1 + 2 ^ (32 * words.length) * (multiplyAdd words c).2.toNat =
        58 * wordsValue words + c.toNat ∧ (multiplyAdd words c).2.toNat < 58 := by
  induction words with
  | nil =>
    refine ⟨rfl, ?_, small⟩
    show 0 + 2 ^ 0 * c.toNat = 58 * 0 + c.toNat
    omega
  | cons word words ih =>
    obtain ⟨length, value, carried⟩ := ih
    have turn : multiplyAdd (word :: words) c =
        ((multiplyWord word (multiplyAdd words c).2).1 :: (multiplyAdd words c).1,
          (multiplyWord word (multiplyAdd words c).2).2) := rfl
    obtain ⟨parts, next⟩ := multiplyWord_value word (multiplyAdd words c).2 carried
    rw [turn]
    refine ⟨by rw [List.length_cons, List.length_cons, length], ?_, next⟩
    rw [wordsValue, wordsValue, length, List.length_cons, Nat.mul_succ, Nat.pow_add]
    generalize 2 ^ (32 * words.length) = base at *
    calc base * (multiplyWord word (multiplyAdd words c).2).1.toNat +
          wordsValue (multiplyAdd words c).1 +
          base * 2 ^ 32 * (multiplyWord word (multiplyAdd words c).2).2.toNat
        = base * ((multiplyWord word (multiplyAdd words c).2).1.toNat +
            2 ^ 32 * (multiplyWord word (multiplyAdd words c).2).2.toNat) +
              wordsValue (multiplyAdd words c).1 := by ring
      _ = base * (word.toNat * 58 + (multiplyAdd words c).2.toNat) + wordsValue
        (multiplyAdd words c).1 := by rw [parts]
      _ = 58 * (base * word.toNat) + (wordsValue (multiplyAdd words c).1 +
        base * (multiplyAdd words c).2.toNat) := by ring
      _ = 58 * (base * word.toNat + wordsValue words) + c.toNat := by rw [value]; ring

/-! ## Strings -/

theorem alphabet_eq : alphabet =
    [0x31, 0x32, 0x33, 0x34, 0x35, 0x36, 0x37, 0x38, 0x39, 0x41, 0x42, 0x43, 0x44, 0x45, 0x46,
      0x47, 0x48, 0x4a, 0x4b, 0x4c, 0x4d, 0x4e, 0x50, 0x51, 0x52, 0x53, 0x54, 0x55, 0x56, 0x57,
      0x58, 0x59, 0x5a, 0x61, 0x62, 0x63, 0x64, 0x65, 0x66, 0x67, 0x68, 0x69, 0x6a, 0x6b, 0x6d,
      0x6e, 0x6f, 0x70, 0x71, 0x72, 0x73, 0x74, 0x75, 0x76, 0x77, 0x78, 0x79, 0x7a] := by
  unfold alphabet
  rw [ascii_eq]
  rfl

theorem digit_alphabet (c : UInt8) (member : c ∈ alphabet) :
    digit c = some (UInt32.ofNat (alphabet.idxOf c)) ∧ alphabet.idxOf c < 58 := by
  have size : alphabet.length = 58 := by rw [alphabet_eq]; rfl
  have small : alphabet.idxOf c < 58 := size ▸ List.idxOf_lt_length_of_mem member
  have table : ∀ i < 58, alphabet[i]?.bind digit = some (UInt32.ofNat i) := by
    rw [alphabet_eq]
    decide
  have entry := table (alphabet.idxOf c) small
  rw [List.getElem?_eq_getElem (List.idxOf_lt_length_of_mem member), List.getElem_idxOf] at entry
  exact ⟨entry, small⟩

theorem base58Value_foldl (b58 : Bytes) (value : Nat) :
    b58.foldl (fun value c => 58 * value + alphabet.idxOf c) value =
      58 ^ b58.length * value + base58Value b58 := by
  induction b58 generalizing value with
  | nil => simp [base58Value]
  | cons c b58 ih =>
    unfold base58Value
    rw [List.foldl_cons, List.foldl_cons, ih, ih (58 * 0 + alphabet.idxOf c), List.length_cons]
    ring

/-- The words hold the number modulo the power that seven words make up. -/
theorem addDigits_value (words : List UInt32) (b58 : Bytes) (alphabetic : ∀ c ∈ b58, c ∈ alphabet) :
    ∃ final, addDigits words b58 = some final ∧ final.length = words.length ∧
      wordsValue final ≡ 58 ^ b58.length * wordsValue words +
        base58Value b58 [MOD 2 ^ (32 * words.length)] := by
  induction b58 generalizing words with
  | nil =>
    refine ⟨words, rfl, rfl, ?_⟩
    show wordsValue words ≡ 58 ^ 0 * wordsValue words + 0 [MOD _]
    rw [Nat.pow_zero, Nat.one_mul]
    exact Nat.ModEq.refl _
  | cons c b58 ih =>
    obtain ⟨known, small⟩ := digit_alphabet c (alphabetic c List.mem_cons_self)
    have value : (UInt32.ofNat (alphabet.idxOf c)).toNat = alphabet.idxOf c :=
      UInt32.toNat_ofNat_of_lt' (show alphabet.idxOf c < 2 ^ 32 by omega)
    obtain ⟨length, scaled, _⟩ :=
      multiplyAdd_value words (UInt32.ofNat (alphabet.idxOf c)) (by rw [value]; exact small)
    obtain ⟨final, added, size, rest⟩ := ih (multiplyAdd words (UInt32.ofNat (alphabet.idxOf c))).1
      fun d member => alphabetic d (List.mem_cons_of_mem c member)
    refine ⟨final, ?_, size.trans length, ?_⟩
    · rw [addDigits, known]
      exact added
    · rw [length] at rest
      rw [value] at scaled
      have step : wordsValue (multiplyAdd words (UInt32.ofNat (alphabet.idxOf c))).1 ≡
          58 * wordsValue words + alphabet.idxOf c [MOD 2 ^ (32 * words.length)] := by
        rw [← scaled]
        exact (Nat.ModEq.refl _).symm.trans (by
          unfold Nat.ModEq
          rw [Nat.add_mul_mod_self_left])
      have total : 58 ^ (c :: b58).length * wordsValue words + base58Value (c :: b58) =
          58 ^ b58.length * (58 * wordsValue words + alphabet.idxOf c) + base58Value b58 := by
        have split := base58Value_foldl b58 (58 * 0 + alphabet.idxOf c)
        unfold base58Value at split ⊢
        rw [List.foldl_cons, split, List.length_cons]
        ring
      rw [total]
      exact rest.trans ((step.mul_left _).add_right _)

/-! ## Bytes -/

theorem ofLittleEndian_inj (a b : Bytes) (lengths : a.length = b.length)
    (same : ofLittleEndian a = ofLittleEndian b) :
    a = b := by
  induction a generalizing b with
  | nil => exact (List.eq_nil_of_length_eq_zero lengths.symm).symm
  | cons x a ih =>
    cases b with
    | nil => exact nomatch lengths
    | cons y b =>
      rw [ofLittleEndian, ofLittleEndian] at same
      rw [List.length_cons, List.length_cons, Nat.add_right_cancel_iff] at lengths
      have first := x.toNat_lt
      have second := y.toNat_lt
      have heads : x.toNat = y.toNat := by omega
      rw [UInt8.toNat_inj.mp heads, ih b lengths (by omega)]

theorem words_bytes (words : List UInt32) :
    (words.flatMap htobe32).length = 4 * words.length ∧
      ofLittleEndian (words.flatMap htobe32).reverse = wordsValue words := by
  induction words with
  | nil => exact ⟨rfl, rfl⟩
  | cons word words ih =>
    obtain ⟨length, value⟩ := ih
    have four : ofLittleEndian (htobe32 word).reverse = word.toNat := by
      unfold htobe32
      rw [List.reverse_reverse, ofLittleEndian_littleEndian]
      exact Nat.mod_eq_of_lt word.toNat_lt
    have base : 256 ^ (4 * words.length) = 2 ^ (32 * words.length) := by
      rw [show 256 = 2 ^ 8 by rfl, ← Nat.pow_mul]
      congr 1
      omega
    constructor
    · rw [List.flatMap_cons, List.length_append, length, List.length_cons,
        Source.WorkRoll.length_htobe32]
      omega
    · rw [List.flatMap_cons, List.reverse_append, ofLittleEndian_append, value, four,
        List.length_reverse, length, base, wordsValue, Nat.add_comm]

/-- The bytes of seven words are the number modulo 2^200. -/
theorem storeWords_bytes (words : List UInt32) (seven : words.length = 7) :
    storeWords words = bytes25 (wordsValue words) := by
  cases words with
  | nil => exact nomatch seven
  | cons word words =>
    rw [List.length_cons, Nat.add_right_cancel_iff] at seven
    obtain ⟨length, value⟩ := words_bytes words
    have below := wordsValue_lt words
    rw [seven] at length below
    have byte : (word &&& 0xff).toUInt8.toNat = word.toNat % 256 := by
      rw [UInt32.toNat_toUInt8, UInt32.toNat_and]
      have mask : (0xff : UInt32).toNat = 2 ^ 8 - 1 := rfl
      rw [mask, Nat.and_two_pow_sub_one_eq_mod, Nat.mod_mod]
    refine List.reverse_inj.mp ?_
    unfold bytes25
    rw [List.reverse_reverse]
    apply ofLittleEndian_inj
    · rw [storeWords, List.length_reverse, List.length_cons, length, length_littleEndian]
    · rw [ofLittleEndian_littleEndian, storeWords, List.reverse_cons, ofLittleEndian_append, value,
        List.length_reverse, length, ofLittleEndian, ofLittleEndian, byte, wordsValue, seven]
      have power : 256 ^ (4 * 6) = 2 ^ (32 * 6) := by norm_num
      have whole : 256 ^ 25 = 2 ^ (32 * 6) * 256 := by norm_num
      rw [power, whole, Nat.add_comm, Nat.mul_zero, Nat.add_zero,
        Nat.add_comm (2 ^ (32 * 6) * word.toNat)]
      generalize 2 ^ (32 * 6) = base at below ⊢
      rw [Nat.mod_mul, Nat.add_mul_mod_self_left, Nat.mod_eq_of_lt below,
        Nat.add_mul_div_left _ _ (by omega), Nat.div_eq_of_lt below, Nat.zero_add, Nat.add_comm]

/-- A string of fewer than 2^31 characters is decoded modulo 2^200, and no step
loses a carry between two words. -/
theorem b58tobin_value (b58 : Bytes) (alphabetic : ∀ c ∈ b58, c ∈ alphabet)
    (short : b58.length < 2 ^ 31) :
    b58tobin b58 = some (bytes25 (base58Value b58 % 2 ^ 200)) ∧
      ∀ (words : List UInt32) (c : UInt32), c.toNat < 58 →
        wordsValue (multiplyAdd words c).1 +
          2 ^ (32 * words.length) * (multiplyAdd words c).2.toNat =
          58 * wordsValue words + c.toNat := by
  refine ⟨?_, fun words c small => (multiplyAdd_value words c small).2.1⟩
  obtain ⟨final, added, size, value⟩ := addDigits_value (List.replicate 7 0) b58 alphabetic
  have zero : wordsValue (List.replicate 7 0) = 0 := by decide
  rw [zero, Nat.mul_zero, Nat.zero_add] at value
  unfold b58tobin
  rw [toInt_of_lt _ short, Int.toNat_natCast, List.take_length, added, Option.map_some,
    storeWords_bytes final size]
  congr 1
  unfold bytes25
  congr 1
  apply ofLittleEndian_inj
  · rw [length_littleEndian, length_littleEndian]
  · have power : 256 ^ 25 = 2 ^ 200 := by norm_num
    rw [ofLittleEndian_littleEndian, ofLittleEndian_littleEndian, power, Nat.mod_mod]
    exact value.of_dvd (pow_dvd_pow 2 (by decide))

theorem b58tobin_value_address : b58tobin (ascii "1BoatSLRHtKNngkdXEeobR76b53LETtpyT") =
      some (bytes25 (base58Value (ascii "1BoatSLRHtKNngkdXEeobR76b53LETtpyT") % 2 ^ 200)) ∧
    ∀ (words : List UInt32) (c : UInt32), c.toNat < 58 →
      wordsValue (multiplyAdd words c).1 + 2 ^ (32 * words.length) * (multiplyAdd words c).2.toNat =
        58 * wordsValue words + c.toNat :=
  b58tobin_value (ascii "1BoatSLRHtKNngkdXEeobR76b53LETtpyT") (by rw [alphabet_eq]; decide +kernel)
    (by decide +kernel)

theorem base58Value_odd (n : Nat) : base58Value (List.replicate (n + 1) 0x32) % 2 = 1 := by
  have one : alphabet.idxOf 0x32 = 1 := by decide +kernel
  unfold base58Value
  rw [List.replicate_succ', List.foldl_append, List.foldl_cons, List.foldl_nil, one]
  omega

/-- Of 2^31 characters none is decoded. -/
theorem long_string_lost : b58tobin (List.replicate (2 ^ 31) 0x32) ≠
    some (bytes25 (base58Value (List.replicate (2 ^ 31) 0x32) % 2 ^ 200)) := by
  have cut : toInt ((2 ^ 31 : Nat) : Int) = -2 ^ 31 := by decide
  have zeros : b58tobin (List.replicate (2 ^ 31) 0x32) = some (List.replicate 25 0) := by
    unfold b58tobin
    rw [List.length_replicate, cut]
    decide +kernel
  have odd := base58Value_odd (2 ^ 31 - 1)
  rw [Nat.sub_add_cancel (by decide)] at odd
  rw [zeros]
  intro same
  rw [Option.some.injEq] at same
  have numbers := congrArg (fun bytes => ofLittleEndian bytes.reverse) same
  unfold bytes25 at numbers
  rw [List.reverse_reverse, ofLittleEndian_littleEndian, List.reverse_replicate] at numbers
  have zero : ofLittleEndian (List.replicate 25 0) = 0 := by decide
  have power : 256 ^ 25 = 2 ^ 200 := by norm_num
  rw [zero, power, Nat.mod_mod] at numbers
  have halves : 2 ∣ 2 ^ 200 := by norm_num
  have even := Nat.mod_mod_of_dvd (base58Value (List.replicate (2 ^ 31) 0x32)) halves
  rw [← numbers] at even
  omega

end CgminerT4.Guarantees.Base58Value
