import Mathlib.Data.Nat.Bitwise
import Mathlib.Logic.Function.Basic

/-!
# Reflected cyclic redundancy checks

The bit-serial register of a reflected check: each bit of a message, the lowest of
a byte first, is added to the lowest bit of the register, which then moves down one
place and takes the polynomial when the sum was set. A register can be fed several
bits at once from a table, and a change of bits that fit into the register changes
the check.
-/
namespace CgminerT4.Library.Crc

variable {w : Nat}

def feedBit (poly crc : BitVec w) (bit : Bool) : BitVec w :=
  crc >>> 1 ^^^ if crc.getLsbD 0 ^^ bit then poly else 0#w

def feed (poly crc : BitVec w) (bits : List Bool) : BitVec w := bits.foldl (feedBit poly) crc

/-- The `k` lowest bits, the lowest first. -/
def lowBits {v : Nat} (k : Nat) (x : BitVec v) : List Bool := (List.range k).map x.getLsbD

/-- The check of a message of bytes. -/
def crc (poly init : BitVec w) (message : List UInt8) : BitVec w :=
  feed poly init (message.flatMap fun byte => lowBits 8 byte.toBitVec)

@[simp] theorem feed_nil (poly crc : BitVec w) : feed poly crc [] = crc := rfl

@[simp] theorem feed_cons (poly crc : BitVec w) (bit : Bool) (bits : List Bool) :
    feed poly crc (bit :: bits) = feed poly (feedBit poly crc bit) bits := rfl

theorem feed_append (poly crc : BitVec w) (front back : List Bool) :
    feed poly crc (front ++ back) = feed poly (feed poly crc front) back := List.foldl_append

theorem crc_cons (poly init : BitVec w) (byte : UInt8) (message : List UInt8) :
    crc poly init (byte :: message) =
      crc poly (feed poly init (lowBits 8 byte.toBitVec)) message := by
  rw [crc, List.flatMap_cons, feed_append, crc]

theorem crc_append (poly init : BitVec w) (front back : List UInt8) :
    crc poly init (front ++ back) = crc poly (crc poly init front) back := by
  rw [crc, List.flatMap_append, feed_append, crc, crc]

/-! ## Several bits at once -/

@[simp] theorem lowBits_zero (x : BitVec w) : lowBits 0 x = [] := rfl

theorem lowBits_succ (k : Nat) (x : BitVec w) :
    lowBits (k + 1) x = x.getLsbD 0 :: lowBits k (x >>> 1) := by
  rw [lowBits, List.range_succ_eq_map, List.map_cons, List.map_map, lowBits]
  congr 1
  refine List.map_congr_left fun i _ => ?_
  rw [Function.comp, BitVec.getLsbD_ushiftRight, Nat.add_comm]

theorem lowBits_add (j k : Nat) (x : BitVec w) :
    lowBits (j + k) x = lowBits j x ++ lowBits k (x >>> j) := by
  induction j generalizing x with
  | zero => rw [Nat.zero_add, lowBits_zero, List.nil_append, BitVec.ushiftRight_zero]
  | succ j ih =>
    rw [Nat.add_right_comm, lowBits_succ, lowBits_succ, ih, List.cons_append,
      ← BitVec.shiftRight_add, Nat.add_comm 1 j]

/-- Bits of a wider word. -/
theorem lowBits_congr {v : Nat} (k : Nat) (x : BitVec v) (y : BitVec w)
    (same : ∀ i < k, x.getLsbD i = y.getLsbD i) : lowBits k x = lowBits k y :=
  List.map_congr_left fun i inside => same i (List.mem_range.mp inside)

/-- One bit with the message already added to the register. -/
theorem feedBit_xor (poly crc x : BitVec w) :
    feedBit poly (crc ^^^ x) false = feedBit poly crc (x.getLsbD 0) ^^^ x >>> 1 := by
  unfold feedBit
  rw [BitVec.getLsbD_xor, Bool.xor_false, BitVec.ushiftRight_xor_distrib, BitVec.xor_assoc,
    BitVec.xor_comm (x >>> 1), ← BitVec.xor_assoc]

/-- Bits that are added to the register beforehand; what lies above them moves down. -/
theorem feed_added (poly crc x : BitVec w) (k : Nat) :
    feed poly (crc ^^^ x) (List.replicate k false) = feed poly crc (lowBits k x) ^^^ x >>> k := by
  induction k generalizing crc x with
  | zero => rw [List.replicate_zero, feed_nil, lowBits_zero, feed_nil, BitVec.ushiftRight_zero]
  | succ k ih =>
    rw [List.replicate_succ, feed_cons, feedBit_xor, ih, lowBits_succ, feed_cons,
      ← BitVec.shiftRight_add, Nat.add_comm 1 k]

/-- The step of a table: an entry depends on the lowest bits of the register and the
message alone. -/
theorem feed_table (poly crc x : BitVec w) (k : Nat) :
    feed poly crc (lowBits k x) = feed poly 0#w (lowBits k (crc ^^^ x)) ^^^ crc >>> k := by
  have added := feed_added poly crc x k
  have fromZero := feed_added poly 0#w (crc ^^^ x) k
  rw [BitVec.zero_xor, added, BitVec.ushiftRight_xor_distrib, ← BitVec.xor_assoc] at fromZero
  exact (BitVec.xor_left_inj _).mp fromZero

/-! ## Changes -/

/-- With the polynomial's highest coefficient set, a bit can be taken back. -/
theorem feedBit_injective (poly : BitVec w) (bit : Bool) (highest : poly.msb = true) :
    Function.Injective fun crc => feedBit poly crc bit := by
  intro a b same
  -- the highest bit of the new register tells whether the polynomial was added
  have top : ∀ crc : BitVec w, (feedBit poly crc bit).msb = (crc.getLsbD 0 ^^ bit) := by
    intro crc
    unfold feedBit
    rw [BitVec.msb_xor, BitVec.msb_ushiftRight, decide_eq_true Nat.one_pos, Bool.not_true,
      Bool.false_and, Bool.false_xor]
    cases crc.getLsbD 0 ^^ bit with
    | true => exact highest
    | false => exact BitVec.msb_zero
  have lowest : a.getLsbD 0 = b.getLsbD 0 := by
    have tops : (a.getLsbD 0 ^^ bit) = (b.getLsbD 0 ^^ bit) := by
      rw [← top a, ← top b]
      exact congrArg BitVec.msb same
    exact Bool.xor_left_inj.mp tops
  have rest : a >>> 1 = b >>> 1 := by
    unfold feedBit at same
    dsimp only at same
    rw [lowest] at same
    exact (BitVec.xor_left_inj _).mp same
  refine BitVec.eq_of_getLsbD_eq fun i _ => ?_
  cases i with
  | zero => exact lowest
  | succ i =>
    have bit := congrArg (fun x => x.getLsbD i) rest
    rwa [BitVec.getLsbD_ushiftRight, BitVec.getLsbD_ushiftRight, Nat.add_comm] at bit

theorem feed_injective (poly : BitVec w) (bits : List Bool) (highest : poly.msb = true) :
    Function.Injective fun crc => feed poly crc bits := by
  induction bits with
  | nil => exact fun _ _ same => same
  | cons bit bits ih => exact ih.comp (feedBit_injective poly bit highest)

/-- Two messages that differ in bits the register has room for. -/
theorem feed_lowBits_inj (poly crc x y : BitVec w) (k : Nat) (highest : poly.msb = true)
    (fitsX : x >>> k = 0#w) (fitsY : y >>> k = 0#w)
    (same : feed poly crc (lowBits k x) = feed poly crc (lowBits k y)) : x = y := by
  have addedX := feed_added poly crc x k
  have addedY := feed_added poly crc y k
  rw [fitsX, BitVec.xor_zero] at addedX
  rw [fitsY, BitVec.xor_zero] at addedY
  have registers : crc ^^^ x = crc ^^^ y := feed_injective poly _ highest (by
    dsimp only
    rw [addedX, addedY, same])
  exact (BitVec.xor_right_inj _).mp registers

theorem crc_injective (poly : BitVec w) (message : List UInt8) (highest : poly.msb = true) :
    Function.Injective fun init => crc poly init message := feed_injective poly _ highest

/-- A change of one byte changes the check. -/
theorem crc_byte_inj (poly init : BitVec w) (front back : List UInt8) (a b : UInt8)
    (wide : 8 ≤ w) (highest : poly.msb = true)
    (same : crc poly init (front ++ a :: back) = crc poly init (front ++ b :: back)) : a = b := by
  have bits : ∀ c : UInt8, lowBits 8 c.toBitVec = lowBits 8 (c.toBitVec.setWidth w) := by
    intro c
    refine lowBits_congr 8 _ _ fun i inside => ?_
    rw [BitVec.getLsbD_setWidth, decide_eq_true (by omega), Bool.true_and]
  have fits : ∀ c : UInt8, c.toBitVec.setWidth w >>> 8 = 0#w := by
    intro c
    refine BitVec.eq_of_getLsbD_eq fun i _ => ?_
    rw [BitVec.getLsbD_ushiftRight, BitVec.getLsbD_setWidth,
      BitVec.getLsbD_of_ge c.toBitVec _ (by omega), Bool.and_false, BitVec.getLsbD_zero]
  rw [crc_append, crc_append, crc_cons, crc_cons] at same
  have registers := crc_injective poly back highest same
  rw [bits a, bits b] at registers
  have words := feed_lowBits_inj poly _ _ _ 8 highest (fits a) (fits b) registers
  have bytes := congrArg (BitVec.setWidth 8) words
  rw [BitVec.setWidth_setWidth_of_le _ wide, BitVec.setWidth_setWidth_of_le _ wide,
    BitVec.setWidth_eq, BitVec.setWidth_eq] at bytes
  exact UInt8.toBitVec_inj.mp bytes

end CgminerT4.Library.Crc
