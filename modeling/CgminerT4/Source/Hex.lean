import CgminerT4.Source.Jansson

/-!
# Hexadecimal text and allocations (util.c)

cgcalloc, and bin2hex, hex2bin, valid_hex and valid_ascii on NUL-free byte strings,
which is what a C string without its terminator is. hex2bin reports the bytes it wrote
next to its result, since callers use the buffer after a failure too. `unhex`
is the decoding of whole digit pairs that successful calls agree with.
-/
namespace CgminerT4.Source.Hex
open Library.ByteString

/-- align_len -/
def alignLen (len : Nat) : Nat := if len % 4 ≠ 0 then len + (4 - len % 4) else len

/-- _cgcalloc rounds up the size of each member, not that of the whole: `memb`
members of one byte take four times that. -/
def cgcalloc (memb size : Nat) : Bytes := List.replicate (memb * alignLen size) 0

theorem alignLen_one : alignLen 1 = 4 := rfl

theorem cgcalloc_bytes (memb : Nat) : cgcalloc memb 1 = List.replicate (memb * 4) 0 := rfl

/-- hex2bin_tbl: the value of a hexadecimal digit, none for -1. -/
def hex2binTbl (idx : UInt8) : Option UInt8 :=
  if 48 ≤ idx ∧ idx ≤ 57 then some (idx - 48)
  else if 65 ≤ idx ∧ idx ≤ 70 then some (idx - 55)
  else if 97 ≤ idx ∧ idx ≤ 102 then some (idx - 87)
  else none

def hexDigit (nibble : UInt8) : UInt8 := if nibble < 10 then 48 + nibble else 87 + nibble

def bin2hex : Bytes → Bytes
  | [] => []
  | b :: rest => hexDigit (b >>> 4) :: hexDigit (b &&& 0xf) :: bin2hex rest

/-- __bin2hex with its length, which the loop cuts to an int. -/
def bin2hexLoop (p : Bytes) (len : Nat) : Bytes := bin2hex (p.take (Jansson.toInt len).toNat)

/-- The bytes written to `p`, and whether exactly `len` bytes were decoded from
the whole string. -/
def hex2bin : Bytes → Nat → Bytes × Bool
  | hexstr, 0 => ([], hexstr.isEmpty)
  | a :: b :: rest, len + 1 =>
    match hex2binTbl a, hex2binTbl b with
    | some nibble1, some nibble2 =>
      ((nibble1 <<< 4 ||| nibble2) :: (hex2bin rest len).1, (hex2bin rest len).2)
    | _, _ => ([], false)
  | _, _ + 1 => ([], false)

def validHex (s : Bytes) : Bool := s.all fun c => (hex2binTbl c).isSome

def validAscii (s : Bytes) : Bool := s ≠ [] && s.all fun c => 32 ≤ c && c ≤ 126

/-- Decoding of the complete digit pairs at the front of a string. -/
def unhex : Bytes → Bytes
  | a :: b :: rest =>
    match hex2binTbl a, hex2binTbl b with
    | some nibble1, some nibble2 => (nibble1 <<< 4 ||| nibble2) :: unhex rest
    | _, _ => []
  | _ => []

/-- A successful call consumed the whole string and wrote its decoding. -/
theorem hex2bin_success (hexstr : Bytes) (len : Nat) (success : (hex2bin hexstr len).2 = true) :
    hexstr.length = 2 * len ∧ (hex2bin hexstr len).1 = unhex hexstr ∧
      (unhex hexstr).length = len := by
  fun_induction hex2bin hexstr len with
  | case1 hexstr =>
    have empty : hexstr = [] := by simpa using success
    subst empty
    exact ⟨rfl, rfl, rfl⟩
  | case2 a b rest len nibble1 nibble2 h1 h2 ih =>
    obtain ⟨length, bytes, size⟩ := ih success
    simp only [List.length_cons, unhex, h1, h2, length, bytes, size, and_self, and_true]
    omega
  | case3 => cases success
  | case4 => cases success

theorem length_hex2bin_le (hexstr : Bytes) (len : Nat) : (hex2bin hexstr len).1.length ≤ len := by
  fun_induction hex2bin hexstr len with
  | case1 hexstr => simp
  | case2 a b rest len nibble1 nibble2 h1 h2 ih => simpa using ih
  | case3 => simp
  | case4 => simp

/-- Valid digits of the right number are always decoded. -/
theorem hex2bin_valid (hexstr : Bytes) (len : Nat) (valid : validHex hexstr = true)
    (exactly : hexstr.length = 2 * len) : hex2bin hexstr len = (unhex hexstr, true) := by
  fun_induction hex2bin hexstr len with
  | case1 hexstr =>
    have empty : hexstr = [] := List.eq_nil_of_length_eq_zero (by omega)
    subst empty
    rfl
  | case2 a b rest len nibble1 nibble2 h1 h2 ih =>
    simp only [validHex, List.all_cons, Bool.and_eq_true] at valid
    simp only [List.length_cons] at exactly
    rw [ih valid.2.2 (by omega)]
    simp only [unhex, h1, h2]
  | case3 a b rest len invalid =>
    simp only [validHex, List.all_cons, Bool.and_eq_true, Option.isSome_iff_exists] at valid
    obtain ⟨⟨x, hx⟩, ⟨y, hy⟩, _⟩ := valid
    exact absurd hy (invalid x y hx)
  | case4 hexstr len short =>
    match hexstr, short with
    | [], _ => simp at exactly
    | [_], _ => simp only [List.length_singleton] at exactly; omega
    | a :: b :: rest, short => exact absurd rfl (short a b rest)

theorem nibbles_bin2hex (b : UInt8) :
    hex2binTbl (hexDigit (b >>> 4)) = some (b >>> 4) ∧
      hex2binTbl (hexDigit (b &&& 0xf)) = some (b &&& 0xf) ∧
      (b >>> 4) <<< 4 ||| (b &&& 0xf) = b := by
  have table : ∀ n : Fin 256, hex2binTbl (hexDigit (UInt8.ofNat n.val >>> 4)) =
      some (UInt8.ofNat n.val >>> 4) ∧
      hex2binTbl (hexDigit (UInt8.ofNat n.val &&& 0xf)) = some (UInt8.ofNat n.val &&& 0xf) ∧
      (UInt8.ofNat n.val >>> 4) <<< 4 ||| (UInt8.ofNat n.val &&& 0xf) = UInt8.ofNat n.val := by
    decide +kernel
  have entry := table ⟨b.toNat, b.toNat_lt⟩
  simpa using entry

/-- Decoding what bin2hex wrote gives the bytes back. -/
theorem unhex_bin2hex (p : Bytes) : unhex (bin2hex p) = p := by
  induction p with
  | nil => rfl
  | cons b rest ih =>
    obtain ⟨high, low, join⟩ := nibbles_bin2hex b
    simp only [bin2hex, unhex, high, low, join, ih]

theorem length_bin2hex (p : Bytes) : (bin2hex p).length = 2 * p.length := by
  induction p with
  | nil => rfl
  | cons b rest ih =>
    simp only [bin2hex, List.length_cons, ih]
    omega

theorem validHex_append (s t : Bytes) : validHex (s ++ t) = (validHex s && validHex t) :=
  List.all_append

theorem validHex_bin2hex (p : Bytes) : validHex (bin2hex p) = true := by
  induction p with
  | nil => rfl
  | cons b rest ih =>
    obtain ⟨high, low, _⟩ := nibbles_bin2hex b
    rw [validHex] at ih ⊢
    simp only [bin2hex, List.all_cons, high, low, ih, Option.isSome_some, Bool.and_self]

/-- Only whole strings of digits are decoded. -/
theorem validHex_of_hex2bin (hexstr : Bytes) (len : Nat) (success : (hex2bin hexstr len).2 = true) :
    validHex hexstr = true := by
  fun_induction hex2bin hexstr len with
  | case1 hexstr =>
    have empty : hexstr = [] := by simpa using success
    rw [empty]
    rfl
  | case2 a b rest len nibble1 nibble2 h1 h2 ih =>
    have tail := ih success
    rw [validHex] at tail ⊢
    simp only [List.all_cons, h1, h2, tail, Option.isSome_some, Bool.and_self]
  | case3 => cases success
  | case4 => cases success

/-- Whole pairs at the front are decoded by themselves. -/
theorem unhex_append (s t : Bytes) (n : Nat) (valid : validHex s = true)
    (pairs : s.length = 2 * n) :
    unhex (s ++ t) = unhex s ++ unhex t := by
  induction n generalizing s with
  | zero =>
    have empty : s = [] := List.eq_nil_of_length_eq_zero (by omega)
    rw [empty]
    rfl
  | succ n ih =>
    match s, valid, pairs with
    | a :: b :: rest, valid, pairs =>
      simp only [validHex, List.all_cons, Bool.and_eq_true, Option.isSome_iff_exists] at valid
      obtain ⟨⟨x, hx⟩, ⟨y, hy⟩, tail⟩ := valid
      rw [List.length_cons, List.length_cons] at pairs
      simp only [List.cons_append, unhex, hx, hy]
      rw [ih rest tail (by omega)]

theorem length_unhex (s : Bytes) (n : Nat) (valid : validHex s = true) (pairs : s.length = 2 * n) :
    (unhex s).length = n := by
  have decoded := hex2bin_valid s n valid pairs
  exact (hex2bin_success s n (by rw [decoded])).2.2

/-- Text that decodes to half as many bytes is digits throughout. -/
theorem valid_of_length_unhex (s : Bytes) (n : Nat) (decoded : (unhex s).length = n)
    (short : s.length ≤ 2 * n) :
    s.length = 2 * n ∧ validHex s = true := by
  fun_induction unhex s generalizing n with
  | case1 a b rest nibble1 nibble2 h1 h2 ih =>
    rw [List.length_cons] at decoded
    rw [List.length_cons, List.length_cons] at short ⊢
    obtain ⟨length, valid⟩ := ih (n - 1) (by omega) (by omega)
    refine ⟨by omega, ?_⟩
    rw [validHex] at valid ⊢
    simp only [List.all_cons, h1, h2, valid, Option.isSome_some, Bool.and_self]
  | case2 a b rest invalid =>
    simp only [List.length_nil] at decoded
    simp only [List.length_cons] at short
    omega
  | case3 s short_text =>
    simp only [List.length_nil] at decoded
    have empty : s = [] := List.eq_nil_of_length_eq_zero (by omega)
    rw [empty, ← decoded]
    exact ⟨rfl, rfl⟩

/-- The bytes written are the first ones of the decoding. -/
theorem hex2bin_fst (hexstr : Bytes) (len : Nat) :
    (hex2bin hexstr len).1 = (unhex hexstr).take len := by
  fun_induction hex2bin hexstr len with
  | case1 hexstr => rw [List.take_zero]
  | case2 a b rest len nibble1 nibble2 h1 h2 ih =>
    simp only [unhex, h1, h2, List.take_succ_cons, ih]
  | case3 a b rest len invalid =>
    rw [unhex]
    split
    · next x y hx hy => exact absurd hy (invalid x y hx)
    · rfl
  | case4 hexstr len short =>
    match hexstr, short with
    | [], _ => rfl
    | [_], _ => rfl
    | a :: b :: rest, short => exact absurd rfl (short a b rest)

/-- A pointer moved over whole pairs. -/
theorem unhex_drop (s : Bytes) (k : Nat) (valid : validHex s = true) (inside : 2 * k ≤ s.length) :
    unhex (s.drop (2 * k)) = (unhex s).drop k := by
  have pairs : (s.take (2 * k)).length = 2 * k := by rw [List.length_take, Nat.min_eq_left inside]
  have parts := validHex_append (s.take (2 * k)) (s.drop (2 * k))
  rw [List.take_append_drop, valid, eq_comm, Bool.and_eq_true] at parts
  have joined := unhex_append (s.take (2 * k)) (s.drop (2 * k)) k parts.1 pairs
  have size := length_unhex (s.take (2 * k)) k parts.1 pairs
  rw [List.take_append_drop] at joined
  rw [joined, List.drop_left' size]

end CgminerT4.Source.Hex
