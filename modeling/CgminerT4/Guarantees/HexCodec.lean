import CgminerT4.Source.Hex
import CgminerT4.Source.PoolConfig

/-!
# Hexadecimal text in both directions

hex2bin accepts the strings of 2*len digits and writes what the pairs in front
of the first fault mean. __bin2hex takes its length as an int, so the two undo
each other for fewer than 2^31 bytes.
-/
namespace CgminerT4.Guarantees.HexCodec
open Library.ByteString Source.Hex
open Source.Jansson (toInt toInt_of_lt)
open Source.PoolConfig (lower)

def lowerDigits : Bytes := ascii "0123456789abcdef"

/-- A hexadecimal digit of either case. -/
def isHexDigit (c : UInt8) : Bool := lower c ∈ lowerDigits

def digitValue (c : UInt8) : Nat := lowerDigits.idxOf (lower c)

/-- The string is 2*len digits. -/
def Digits (s : Bytes) (len : Nat) : Prop := s.length = 2 * len ∧ s.all isHexDigit

/-- What a pair of digits means. -/
def pairValue (high low : UInt8) : UInt8 := UInt8.ofNat (16 * digitValue high + digitValue low)

/-- The bytes written are the values of the first pairs of digits. -/
def WritesPairs (s : Bytes) (len : Nat) (written : Bytes) : Prop :=
  written.length ≤ len ∧ ∀ i byte, written[i]? = some byte → ∃ high low, s[2 * i]? = some high ∧
    s[2 * i + 1]? = some low ∧ isHexDigit high ∧ isHexDigit low ∧ byte = pairValue high low

/-- The two functions on a string, a length and an array. -/
structure Codec (s : Bytes) (len : Nat) (b : Bytes) : Prop where
  accepts : (hex2bin s len).2 = true ↔ Digits s len
  reencodes : (hex2bin s len).2 = true → bin2hexLoop (hex2bin s len).1 len = s.map lower
  restores : hex2bin (bin2hexLoop b b.length) b.length = (b, true)
  writes : WritesPairs s len (hex2bin s len).1

/-! ## Digits -/

theorem lowerDigits_eq : lowerDigits =
    [0x30, 0x31, 0x32, 0x33, 0x34, 0x35, 0x36, 0x37, 0x38, 0x39, 0x61, 0x62, 0x63, 0x64, 0x65,
      0x66] := by
  unfold lowerDigits
  rw [ascii_eq]
  rfl

theorem hex2binTbl_digit (c : UInt8) :
    hex2binTbl c = if isHexDigit c then some (UInt8.ofNat (digitValue c)) else none := by
  have table : ∀ n : Fin 256, hex2binTbl (UInt8.ofNat n.val) =
      if isHexDigit (UInt8.ofNat n.val) then
        some (UInt8.ofNat (digitValue (UInt8.ofNat n.val))) else none := by
    unfold isHexDigit digitValue
    rw [lowerDigits_eq]
    decide +kernel
  have entry := table ⟨c.toNat, c.toNat_lt⟩
  simpa using entry

theorem digitValue_lt (c : UInt8) (digit : isHexDigit c) : digitValue c < 16 := by
  have inside := List.idxOf_lt_length_of_mem (of_decide_eq_true digit)
  have size : lowerDigits.length = 16 := by rw [lowerDigits_eq]; rfl
  rwa [size] at inside

/-- The nibbles of a digit pair put together, and its digits in lower case. -/
theorem nibbles_pair (high low : Nat) (above : high < 16) (below : low < 16) :
    UInt8.ofNat high <<< 4 ||| UInt8.ofNat low = UInt8.ofNat (16 * high + low) ∧
      UInt8.ofNat (16 * high + low) >>> 4 = UInt8.ofNat high ∧
        UInt8.ofNat (16 * high + low) &&& 0xf = UInt8.ofNat low := by
  have table : ∀ high low : Fin 16, UInt8.ofNat high.val <<< 4 ||| UInt8.ofNat low.val =
      UInt8.ofNat (16 * high.val + low.val) ∧
      UInt8.ofNat (16 * high.val + low.val) >>> 4 = UInt8.ofNat high.val ∧
      UInt8.ofNat (16 * high.val + low.val) &&& 0xf = UInt8.ofNat low.val := by
    decide +kernel
  exact table ⟨high, above⟩ ⟨low, below⟩

theorem hexDigit_value (c : UInt8) (digit : isHexDigit c) :
    hexDigit (UInt8.ofNat (digitValue c)) = lower c := by
  have table : ∀ d ∈ lowerDigits, hexDigit (UInt8.ofNat (lowerDigits.idxOf d)) = d := by
    rw [lowerDigits_eq]
    decide +kernel
  exact table (lower c) (of_decide_eq_true digit)

theorem validHex_digits (s : Bytes) : validHex s = s.all isHexDigit := by
  have same : (fun c => (hex2binTbl c).isSome) = isHexDigit := by
    funext c
    rw [hex2binTbl_digit]
    cases isHexDigit c <;> rfl
  unfold validHex
  rw [same]

/-! ## hex2bin -/

theorem hex2bin_pair (a b : UInt8) (rest : Bytes) (len : Nat) (high : isHexDigit a)
    (low : isHexDigit b) :
    hex2bin (a :: b :: rest) (len + 1) =
      (pairValue a b :: (hex2bin rest len).1, (hex2bin rest len).2) := by
  have joined := (nibbles_pair _ _ (digitValue_lt a high) (digitValue_lt b low)).1
  rw [hex2bin, hex2binTbl_digit, hex2binTbl_digit, if_pos high, if_pos low]
  dsimp only
  rw [joined]
  rfl

theorem accepts_iff (s : Bytes) (len : Nat) : (hex2bin s len).2 = true ↔ Digits s len := by
  unfold Digits
  rw [← validHex_digits]
  constructor
  · intro success
    exact ⟨(hex2bin_success s len success).1, validHex_of_hex2bin s len success⟩
  · rintro ⟨length, valid⟩
    rw [hex2bin_valid s len valid length]

theorem writes_pairs (s : Bytes) (len : Nat) : WritesPairs s len (hex2bin s len).1 := by
  refine ⟨length_hex2bin_le s len, ?_⟩
  fun_induction hex2bin s len with
  | case1 s =>
    intro i byte found
    cases found
  | case2 a b rest len nibble1 nibble2 h1 h2 ih =>
    intro i byte found
    rw [hex2binTbl_digit] at h1 h2
    have high : isHexDigit a = true := by
      by_contra bad
      rw [if_neg bad] at h2
      cases h2
    have low : isHexDigit b = true := by
      by_contra bad
      rw [if_neg bad] at h1
      cases h1
    cases i with
    | zero =>
      rw [if_pos low, Option.some.injEq] at h1
      rw [if_pos high, Option.some.injEq] at h2
      rw [List.getElem?_cons_zero, Option.some.injEq, ← h1, ← h2,
        (nibbles_pair _ _ (digitValue_lt a high) (digitValue_lt b low)).1] at found
      exact ⟨a, b, rfl, rfl, high, low, found.symm⟩
    | succ i =>
      rw [List.getElem?_cons_succ] at found
      exact ih i byte found
  | case3 =>
    intro i byte found
    cases found
  | case4 =>
    intro i byte found
    cases found

/-! ## Both directions -/

/-- The bytes of a string of digits are written in lower case. -/
theorem bin2hex_hex2bin (s : Bytes) (len : Nat) (digits : Digits s len) :
    bin2hex (hex2bin s len).1 = s.map lower := by
  obtain ⟨length, valid⟩ := digits
  induction len generalizing s with
  | zero =>
    have empty : s = [] := List.eq_nil_of_length_eq_zero (by omega)
    rw [empty]
    rfl
  | succ len ih =>
    match s, length, valid with
    | a :: b :: rest, length, valid =>
      rw [List.all_cons, List.all_cons, Bool.and_eq_true, Bool.and_eq_true] at valid
      obtain ⟨high, low, valid⟩ := valid
      rw [List.length_cons, List.length_cons] at length
      obtain ⟨_, upper, lowDigit⟩ := nibbles_pair _ _ (digitValue_lt a high) (digitValue_lt b low)
      rw [hex2bin_pair a b rest len high low, bin2hex, ih rest (by omega) valid]
      unfold pairValue
      rw [upper, lowDigit, hexDigit_value a high, hexDigit_value b low]
      rfl

theorem hex2bin_bin2hex (b : Bytes) : hex2bin (bin2hex b) b.length = (b, true) := by
  rw [hex2bin_valid (bin2hex b) b.length (validHex_bin2hex b) (length_bin2hex b), unhex_bin2hex]

/-- The int of a length is the length again only below 2^31. -/
theorem toInt_length (n : Nat) : (toInt n).toNat = n ↔ n < 2 ^ 31 := by
  constructor
  · intro same
    have below : toInt n < 2 ^ 31 := by
      have bound := Int.bmod_lt (x := n) (m := 2 ^ 32) (by decide)
      unfold toInt
      omega
    omega
  · intro small
    rw [toInt_of_lt n small, Int.toNat_natCast]

theorem length_bin2hexLoop (p : Bytes) (len : Nat) :
    (bin2hexLoop p len).length = 2 * min (toInt len).toNat p.length := by
  unfold bin2hexLoop
  rw [length_bin2hex, List.length_take]

/-- Too many bytes are not written. -/
theorem loop_short (p : Bytes) (long : 2 ^ 31 ≤ p.length) :
    (bin2hexLoop p p.length).length ≠ 2 * p.length := by
  have cut := (toInt_length p.length).not.mpr (by omega)
  have below : (toInt p.length).toNat < p.length := by
    have bound := Int.bmod_lt (x := p.length) (m := 2 ^ 32) (by decide)
    unfold toInt
    omega
  rw [length_bin2hexLoop]
  omega

theorem loop_whole (p : Bytes) (short : p.length < 2 ^ 31) :
    bin2hexLoop p p.length = bin2hex p := by
  unfold bin2hexLoop
  rw [(toInt_length p.length).mpr short, List.take_length]

/-- The codec works exactly for arrays of fewer than 2^31 bytes and for lengths
below 2^31 or with a string that is refused. -/
theorem codec_iff (s : Bytes) (len : Nat) (b : Bytes) :
    Codec s len b ↔ b.length < 2 ^ 31 ∧ (len < 2 ^ 31 ∨ ¬ Digits s len) := by
  have written : Digits s len → (hex2bin s len).1.length = len := by
    intro digits
    have success := (accepts_iff s len).mpr digits
    obtain ⟨_, bytes, size⟩ := hex2bin_success s len success
    rw [bytes, size]
  constructor
  · rintro ⟨accepts, reencodes, restores, _⟩
    constructor
    · by_contra long
      have success : (hex2bin (bin2hexLoop b b.length) b.length).2 = true := by rw [restores]
      exact loop_short b (by omega) (hex2bin_success _ _ success).1
    · by_contra neither
      rw [not_or, not_not] at neither
      obtain ⟨long, digits⟩ := neither
      have size := written digits
      have lengths := congrArg List.length (reencodes ((accepts_iff s len).mpr digits))
      have short := loop_short (hex2bin s len).1 (by omega)
      rw [size, lengths, List.length_map] at short
      exact short digits.1
  · rintro ⟨small, either⟩
    refine ⟨accepts_iff s len, fun success => ?_, ?_, writes_pairs s len⟩
    · have digits := (accepts_iff s len).mp success
      have size := written digits
      have short : (hex2bin s len).1.length < 2 ^ 31 := by
        rcases either with below | refused
        · omega
        · exact (refused digits).elim
      have whole := loop_whole (hex2bin s len).1 short
      rw [size] at whole
      rw [whole, bin2hex_hex2bin s len digits]
    · rw [loop_whole b small, hex2bin_bin2hex]

/-- An array of 2^31 zeros becomes the empty string. -/
theorem zeros_not_restored : ¬ Codec [] 0 (List.replicate (2 ^ 31) 0) := by
  rintro ⟨_, _, restores, _⟩
  have size : (List.replicate (2 ^ 31) (0 : UInt8)).length = 2 ^ 31 := List.length_replicate
  have success :
    (hex2bin (bin2hexLoop (List.replicate (2 ^ 31) 0) (List.replicate (2 ^ 31) (0 : UInt8)).length)
      (List.replicate (2 ^ 31) (0 : UInt8)).length).2 = true := by
    rw [restores]
  exact loop_short _ (Nat.le_of_eq size.symm) (hex2bin_success _ _ success).1

end CgminerT4.Guarantees.HexCodec
