import Mathlib.Data.List.TakeWhile
import Mathlib.Tactic.Ring

/-!
# Iterated hash functions

A compression function is applied to the complete blocks of a message in order;
what is left of the message is its pending part. A message may be given in
pieces: the state after the blocks and the pending part together are all that a
later piece needs.
-/
namespace CgminerT4.Library.IteratedHash

variable {α σ : Type} (compress : σ → List α → σ) (width : Nat)

/-- The state after the first `n` blocks. -/
def absorbBlocks (s : σ) (message : List α) : Nat → σ
  | 0 => s
  | n + 1 => absorbBlocks (compress s (message.take width)) (message.drop width) n

/-- The state after all complete blocks. -/
def absorb (s : σ) (message : List α) : σ :=
  absorbBlocks compress width s message (message.length / width)

/-- The part behind the complete blocks. -/
def pending (message : List α) : List α := message.drop (message.length / width * width)

theorem absorbBlocks_add (s : σ) (message : List α) (m n : Nat) :
    absorbBlocks compress width s message (m + n) =
      absorbBlocks compress width (absorbBlocks compress width s message m)
        (message.drop (m * width)) n := by
  induction m generalizing s message with
  | zero => simp [absorbBlocks]
  | succ m ih =>
    rw [Nat.add_right_comm, absorbBlocks, ih, absorbBlocks, List.drop_drop, Nat.succ_mul,
      Nat.add_comm width]

/-- Blocks that lie in the front of a message. -/
theorem absorbBlocks_append (s : σ) (front back : List α) (n : Nat)
    (inside : n * width ≤ front.length) :
    absorbBlocks compress width s (front ++ back) n = absorbBlocks compress width s front n := by
  induction n generalizing s front with
  | zero => rfl
  | succ n ih =>
    rw [Nat.succ_mul] at inside
    rw [absorbBlocks, absorbBlocks, List.take_append_of_le_length (by omega),
      List.drop_append_of_le_length (by omega), ih _ _ (by rw [List.length_drop]; omega)]

theorem absorb_short (s : σ) (message : List α) (short : message.length < width) :
    absorb compress width s message = s := by
  rw [absorb, Nat.div_eq_of_lt short, absorbBlocks]

theorem pending_short (message : List α) (short : message.length < width) :
    pending width message = message := by
  rw [pending, Nat.div_eq_of_lt short, Nat.zero_mul, List.drop_zero]

theorem absorb_block (s : σ) (message : List α) (positive : 0 < width)
    (block : message.length = width) :
    absorb compress width s message = compress s message := by
  rw [absorb, block, Nat.div_self positive, absorbBlocks, absorbBlocks, ← block, List.take_length]

theorem length_pending (message : List α) :
    (pending width message).length = message.length % width := by
  rw [pending, List.length_drop, Nat.mod_eq_sub_div_mul]

/-- What is absorbed and what is pending make up the message. -/
theorem pending_suffix (message : List α) :
    message.take (message.length / width * width) ++ pending width message = message :=
  List.take_append_drop _ _

theorem blocks_dvd (message : List α) :
    width ∣ (message.take (message.length / width * width)).length := by
  rw [List.length_take, Nat.min_eq_left (Nat.div_mul_le_self _ _)]
  exact Nat.dvd_mul_left _ _

section
variable (positive : 0 < width)
include positive

/-- A message of complete blocks in front. -/
theorem absorb_append (s : σ) (front back : List α) (complete : width ∣ front.length) :
    absorb compress width s (front ++ back) =
      absorb compress width (absorb compress width s front) back := by
  obtain ⟨n, length⟩ := complete
  have count : front.length / width = n := by rw [length, Nat.mul_div_cancel_left n positive]
  have total : (front ++ back).length / width = n + back.length / width := by
    rw [List.length_append, length, Nat.add_comm, Nat.add_mul_div_left _ _ positive, Nat.add_comm]
  have bound : n * width = front.length := by rw [length, Nat.mul_comm]
  rw [absorb, total, absorbBlocks_add, absorbBlocks_append _ _ _ _ _ _ (Nat.le_of_eq bound),
    bound, List.drop_left, absorb, absorb, count]

theorem pending_append (front back : List α) (complete : width ∣ front.length) :
    pending width (front ++ back) = pending width back := by
  obtain ⟨n, length⟩ := complete
  have total : (front ++ back).length / width = n + back.length / width := by
    rw [List.length_append, length, Nat.add_comm, Nat.add_mul_div_left _ _ positive, Nat.add_comm]
  have bound : n * width = front.length := by rw [length, Nat.mul_comm]
  rw [pending, pending, total, Nat.add_mul, bound, ← List.drop_drop, List.drop_left]

theorem absorb_take_blocks (s : σ) (message : List α) :
    absorb compress width s (message.take (message.length / width * width)) =
      absorb compress width s message := by
  have bound : message.length / width * width ≤ message.length := Nat.div_mul_le_self _ _
  have length : (message.take (message.length / width * width)).length / width =
      message.length / width := by
    rw [List.length_take, Nat.min_eq_left bound, Nat.mul_div_cancel _ positive]
  have blocks :=
    absorbBlocks_append compress width s (message.take (message.length / width * width))
    (pending width message) (message.length / width)
      (by rw [List.length_take, Nat.min_eq_left bound])
  rw [pending_suffix] at blocks
  rw [absorb, length, ← blocks, absorb]

/-- A later piece goes behind the pending part. -/
theorem absorb_piece (s : σ) (message piece : List α) :
    absorb compress width s (message ++ piece) =
      absorb compress width (absorb compress width s message) (pending width message ++ piece) := by
  have parts : message ++ piece =
      message.take (message.length / width * width) ++ (pending width message ++ piece) := by
    rw [← List.append_assoc, pending_suffix]
  rw [parts, absorb_append compress width positive _ _ _ (blocks_dvd width message),
    absorb_take_blocks compress width positive]

theorem pending_piece (message piece : List α) :
    pending width (message ++ piece) = pending width (pending width message ++ piece) := by
  have parts : message ++ piece =
      message.take (message.length / width * width) ++ (pending width message ++ piece) := by
    rw [← List.append_assoc, pending_suffix]
  rw [parts, pending_append width positive _ _ (blocks_dvd width message)]

end

end CgminerT4.Library.IteratedHash
