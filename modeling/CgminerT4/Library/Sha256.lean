import CgminerT4.Library.ByteString
import CgminerT4.Library.IteratedHash
import Mathlib.Data.Nat.Prime.Basic

/-!
# SHA-256 (FIPS 180-4) on messages of bytes

The constants are the first 32 bits of the fractional parts of the roots of the
first primes, read off an integer root of the prime shifted up. The padding puts
the length of the message in bits, as a number of eight bytes, at the end of the
last block.
-/
namespace CgminerT4.Library.Sha256
open ByteString IteratedHash

/-- The greatest `r` of the form `start + i`, `i < 2 ^ bits`, whose power is at most `x`. -/
def rootFrom (n x : Nat) : Nat → Nat → Nat
  | 0, start => start
  | bits + 1, start =>
    if (start + 2 ^ bits) ^ n ≤ x then rootFrom n x bits (start + 2 ^ bits) else
      rootFrom n x bits start

theorem rootFrom_spec (n x bits start : Nat) (low : start ^ n ≤ x)
    (high : x < (start + 2 ^ bits) ^ n) :
    rootFrom n x bits start ^ n ≤ x ∧ x < (rootFrom n x bits start + 1) ^ n := by
  induction bits generalizing start with
  | zero => exact ⟨low, high⟩
  | succ bits ih =>
    rw [rootFrom]
    split
    · next below => exact ih _ below (by rwa [Nat.add_assoc, ← Nat.two_mul, ← Nat.pow_succ'])
    · next above => exact ih _ low (not_le.mp above)

/-- The first 32 bits of the fractional part of the `n`-th root of a number below 2^12. -/
def rootWord (n p : Nat) : UInt32 := UInt32.ofNat (rootFrom n (p * 2 ^ (32 * n)) 44 0)

/-- The root that `rootWord` takes the low bits of. -/
theorem rootWord_spec (n p : Nat) (positive : 1 ≤ n) (small : p < 2 ^ 12) :
    ∃ r : Nat, r ^ n ≤ p * 2 ^ (32 * n) ∧ p * 2 ^ (32 * n) < (r + 1) ^ n ∧
      rootWord n p = UInt32.ofNat r := by
  have wide : 2 ^ 12 * 2 ^ (32 * n) ≤ (0 + 2 ^ 44) ^ n := by
    rw [Nat.zero_add, ← Nat.pow_add, ← Nat.pow_mul]
    exact Nat.pow_le_pow_right (by decide) (by omega)
  have room : p * 2 ^ (32 * n) < 2 ^ 12 * 2 ^ (32 * n) :=
    Nat.mul_lt_mul_of_pos_right small (Nat.two_pow_pos _)
  obtain ⟨low, high⟩ := rootFrom_spec n (p * 2 ^ (32 * n)) 44 0
    (by rw [Nat.zero_pow (by omega)]; exact Nat.zero_le _) (by omega)
  exact ⟨_, low, high, rfl⟩

/-- There is only one such root. -/
theorem rootWord_eq {n p r : Nat} (positive : 1 ≤ n) (small : p < 2 ^ 12)
    (low : r ^ n ≤ p * 2 ^ (32 * n)) (high : p * 2 ^ (32 * n) < (r + 1) ^ n) :
    rootWord n p = UInt32.ofNat r := by
  obtain ⟨s, lowS, highS, word⟩ := rootWord_spec n p positive small
  have above : r < s + 1 := (Nat.pow_lt_pow_iff_left (by omega)).mp (Nat.lt_of_le_of_lt low highS)
  have below : s < r + 1 := (Nat.pow_lt_pow_iff_left (by omega)).mp (Nat.lt_of_le_of_lt lowS high)
  rw [word, show s = r by omega]

/-- The first 64 primes. -/
def primes : List Nat := (List.range 312).filter fun n => Nat.Prime n

/-- Below `b * b`, division by the numbers below `b` is enough. -/
theorem prime_iff_undivided {n b : Nat} (below : n < b * b) :
    Nat.Prime n ↔ 2 ≤ n ∧ ∀ m < b, 2 ≤ m → m < n → n % m ≠ 0 := by
  constructor
  · intro prime
    refine ⟨prime.two_le, fun m _ two less divides => ?_⟩
    rcases (Nat.dvd_prime prime).mp (Nat.dvd_of_mod_eq_zero divides) with one | same <;> omega
  · rintro ⟨two, undivided⟩
    refine Nat.prime_def_le_sqrt.mpr ⟨two, fun m twoM small divides => ?_⟩
    have square : m * m ≤ n := Nat.le_sqrt.mp small
    have less : m < n := Nat.lt_of_lt_of_le (Nat.lt_mul_self_iff.mpr twoM) square
    exact undivided m (Nat.mul_self_lt_mul_self_iff.mp (Nat.lt_of_le_of_lt square below)) twoM less
      (Nat.mod_eq_zero_of_dvd divides)

theorem primes_eq : primes =
    [2, 3, 5, 7, 11, 13, 17, 19, 23, 29, 31, 37, 41, 43, 47, 53, 59, 61, 67, 71, 73, 79, 83, 89, 97,
      101, 103,
      107, 109, 113, 127, 131, 137, 139, 149, 151, 157, 163, 167, 173, 179, 181, 191, 193, 197, 199,
        211, 223,
      227, 229, 233, 239, 241, 251, 257, 263, 269, 271, 277, 281, 283, 293, 307, 311] := by
  have tested : primes = (List.range 312).filter fun n => 2 ≤ n ∧ ∀ m < 18,
      2 ≤ m → m < n → n % m ≠ 0 :=
    List.filter_congr fun n member => decide_eq_decide.mpr
      (prime_iff_undivided (Nat.lt_trans (List.mem_range.mp member) (by decide)))
  rw [tested]
  decide +kernel

def k (t : Nat) : UInt32 := rootWord 3 (primes.getD t 0)

def rotr (n : Nat) (x : UInt32) : UInt32 := ⟨x.toBitVec.rotateRight n⟩

def ch (x y z : UInt32) : UInt32 := (x &&& y) ^^^ (~~~x &&& z)

def maj (x y z : UInt32) : UInt32 := (x &&& y) ^^^ (x &&& z) ^^^ (y &&& z)

def bigSigma0 (x : UInt32) : UInt32 := rotr 2 x ^^^ rotr 13 x ^^^ rotr 22 x

def bigSigma1 (x : UInt32) : UInt32 := rotr 6 x ^^^ rotr 11 x ^^^ rotr 25 x

def smallSigma0 (x : UInt32) : UInt32 := rotr 7 x ^^^ rotr 18 x ^^^ x >>> 3

def smallSigma1 (x : UInt32) : UInt32 := rotr 17 x ^^^ rotr 19 x ^^^ x >>> 10

/-- A hash value, or the eight working variables. -/
structure Words where
  a : UInt32
  b : UInt32
  c : UInt32
  d : UInt32
  e : UInt32
  f : UInt32
  g : UInt32
  h : UInt32
  deriving DecidableEq

def initial : Words :=
  let h (i : Nat) := rootWord 2 (primes.getD i 0)
  ⟨h 0, h 1, h 2, h 3, h 4, h 5, h 6, h 7⟩

/-- Word `t` of a block, most significant byte first. -/
def blockWord (block : Bytes) (t : Nat) : UInt32 :=
  UInt32.ofNat (ofLittleEndian ((block.drop (4 * t)).take 4).reverse)

/-- The message schedule. -/
def schedule (block : Bytes) (t : Nat) : UInt32 :=
  if t < 16 then blockWord block t
  else smallSigma1 (schedule block (t - 2)) + schedule block (t - 7) +
    smallSigma0 (schedule block (t - 15)) +
    schedule block (t - 16)

def step (v : Words) (kt wt : UInt32) : Words :=
  let t1 := v.h + bigSigma1 v.e + ch v.e v.f v.g + kt + wt
  let t2 := bigSigma0 v.a + maj v.a v.b v.c
  ⟨t1 + t2, v.a, v.b, v.c, v.d + t1, v.e, v.f, v.g⟩

def Words.add (v w : Words) : Words :=
  ⟨v.a + w.a, v.b + w.b, v.c + w.c, v.d + w.d, v.e + w.e, v.f + w.f, v.g + w.g, v.h + w.h⟩

def rounds (block : Bytes) (v : Words) (n : Nat) : Words :=
  (List.range n).foldl (fun v t => step v (k t) (schedule block t)) v

def compress (hash : Words) (block : Bytes) : Words := hash.add (rounds block hash 64)

/-- The `n` low bytes of a number, the most significant first. -/
def bigEndian (n x : Nat) : Bytes := (littleEndian n x).reverse

@[simp] theorem length_bigEndian (n x : Nat) : (bigEndian n x).length = n := by simp [bigEndian]

/-- The zeros between the bit behind the message and its length. -/
def zeros (length : Nat) : Nat := (119 - length % 64) % 64

/-- What follows a message of `length` bytes, with `bits` as its length in bits. -/
def paddingWith (length bits : Nat) : Bytes :=
  0x80 :: List.replicate (zeros length) 0 ++ bigEndian 8 bits

def padding (length : Nat) : Bytes := paddingWith length (8 * length)

def Words.bytes (v : Words) : Bytes :=
  [v.a, v.b, v.c, v.d, v.e, v.f, v.g, v.h].flatMap fun word => bigEndian 4 word.toNat

def sha256 (message : Bytes) : Bytes :=
  (absorb compress 64 initial (message ++ padding message.length)).bytes

theorem length_paddingWith (length bits : Nat) :
    (paddingWith length bits).length = 9 + zeros length := by
  simp only [paddingWith, List.length_append, List.length_cons, List.length_replicate,
    length_bigEndian]
  omega

/-- The padded message consists of complete blocks. -/
theorem padded_dvd (length bits : Nat) : 64 ∣ length + (paddingWith length bits).length := by
  rw [length_paddingWith, zeros]
  omega

/-- The padding is the shortest that does. -/
theorem zeros_minimal (length n : Nat) (complete : 64 ∣ length + 9 + n) : zeros length ≤ n := by
  rw [zeros]
  omega

@[simp] theorem length_bytes (v : Words) : v.bytes.length = 32 := by simp [Words.bytes]

theorem schedule_input (block : Bytes) (t : Nat) (input : t < 16) :
    schedule block t = blockWord block t := by
  rw [schedule, if_pos input]

theorem schedule_later (block : Bytes) (t : Nat) (later : 16 ≤ t) :
    schedule block t = smallSigma1 (schedule block (t - 2)) + schedule block (t - 7) +
      smallSigma0 (schedule block (t - 15)) + schedule block (t - 16) := by
  rw [schedule, if_neg (not_lt.mpr later)]

theorem rounds_succ (block : Bytes) (v : Words) (n : Nat) :
    rounds block v (n + 1) = step (rounds block v n) (k n) (schedule block n) := by
  rw [rounds, List.range_succ, List.foldl_append, List.foldl_cons, List.foldl_nil, rounds]

/-- A message may be hashed from any point at which complete blocks were absorbed. -/
theorem sha256_resume (front back : Bytes) (complete : 64 ∣ front.length) :
    sha256 (front ++ back) =
      (absorb compress 64 (absorb compress 64 initial front)
        (back ++ padding (front.length + back.length))).bytes := by
  rw [sha256, List.append_assoc, absorb_append compress 64 (by decide) _ _ _ complete,
    List.length_append]

end CgminerT4.Library.Sha256
