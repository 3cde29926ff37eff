import CgminerT4.Library.JsonWriting
import Mathlib.Algebra.Order.Field.Rat
import Mathlib.Tactic.FieldSimp
import Mathlib.Tactic.Ring

/-!
# The number that a numeral names

Digits, a fraction and a power of ten name a rational number, whatever zeros it is
written with. The sign stands beside it, since it tells the two zeros apart.
-/
namespace CgminerT4.Library.DecimalNumber
open ByteString JsonText

def digitsValue (ds : Bytes) : Nat := ds.foldl (fun n c => 10 * n + (c.toNat - 0x30)) 0

def exponentValue : Bytes → Int
  | [] => 0
  | c :: ds =>
    if c = 0x2d then -digitsValue ds else if c = 0x2b then digitsValue ds else digitsValue (c :: ds)

/-- The number without its sign; a fraction begins with its point and a power with its letter. -/
def magnitude (front fraction power : Bytes) : ℚ :=
  digitsValue (front ++ fraction.drop 1) * 10 ^
    (exponentValue (power.drop 1) - (fraction.length - 1 : Nat))

/-- The letter of a power of ten. -/
def letter (c : UInt8) : Bool := c = 0x65 || c = 0x45

/-- Whether a numeral has a minus sign, and the number behind the sign. -/
def decimalNumber (s : Bytes) : Bool × ℚ :=
  let negative := decide (s.head? = some 0x2d)
  let s := if negative then s.drop 1 else s
  let behind := s.dropWhile digit
  (negative, magnitude (s.takeWhile digit) (behind.takeWhile fun c => !letter c)
    (behind.dropWhile fun c => !letter c))

/-! ## Parts -/

theorem letter_of_digit {c : UInt8} (found : digit c = true) : letter c = false := by
  obtain ⟨_, _, _, lower, upper, _⟩ := digit_range_of found
  rw [letter, decide_eq_false lower, decide_eq_false upper]
  rfl

theorem fraction_unlettered {sign front fraction power : Bytes}
    (parts : NumberParts sign front fraction power) :
    ∀ c ∈ fraction, (!letter c) = true := by
  intro c member
  rcases parts.fraction with rfl | ⟨ds, rfl, _, all⟩
  · cases member
  · rcases List.mem_cons.mp member with rfl | inside
    · decide
    · rw [letter_of_digit (List.all_eq_true.mp all c inside)]
      rfl

/-- No digit and no letter goes on where a fraction or a power begins. -/
theorem parts_behind {sign front fraction power : Bytes}
    (parts : NumberParts sign front fraction power) :
    (fraction ++ power).takeWhile digit = [] ∧ power.takeWhile (fun c => !letter c) = [] := by
  have noLetter : power.takeWhile (fun c => !letter c) = [] := by
    rcases parts.power with rfl | ⟨x, ds, rfl, _⟩ <;> rfl
  refine ⟨?_, noLetter⟩
  rcases parts.fraction with rfl | ⟨ds, rfl, _⟩
  · rcases parts.power with rfl | ⟨x, ds, rfl, _⟩ <;> rfl
  · rfl

theorem dropWhile_none {α : Type} {p : α → Bool} {l : List α} (none : l.takeWhile p = []) :
    l.dropWhile p = l := by
  have whole := List.takeWhile_append_dropWhile (p := p) (l := l)
  rw [none] at whole
  exact whole

/-- A numeral names the number of its parts. -/
theorem decimalNumber_parts {sign front fraction power : Bytes}
    (parts : NumberParts sign front fraction power) :
    decimalNumber (sign ++ front ++ fraction ++ power) =
      (decide (sign ≠ []), magnitude front fraction power) := by
  obtain ⟨noDigit, noLetter⟩ := parts_behind parts
  have inside := List.all_eq_true.mp parts.all
  have unlettered := fraction_unlettered parts
  have number (s : Bytes) (same : s = front ++ (fraction ++ power)) :
      magnitude (s.takeWhile digit) ((s.dropWhile digit).takeWhile fun c => !letter c)
        ((s.dropWhile digit).dropWhile fun c => !letter c) = magnitude front fraction power := by
    subst same
    rw [List.takeWhile_append_of_pos inside, List.dropWhile_append_of_pos inside, noDigit,
      dropWhile_none noDigit, List.takeWhile_append_of_pos unlettered,
      List.dropWhile_append_of_pos unlettered, noLetter, dropWhile_none noLetter, List.append_nil,
      List.append_nil]
  rcases parts.sign with rfl | rfl
  · obtain ⟨d, ds, rfl⟩ := List.exists_cons_of_ne_nil parts.filled
    have noMinus := (digit_range_of (inside d List.mem_cons_self)).1
    have positive : decide (([] ++ d :: ds ++ fraction ++ power).head? = some 0x2d) = false :=
      decide_eq_false fun minus => noMinus (Option.some.inj minus)
    unfold decimalNumber
    rw [positive]
    exact Prod.ext rfl (number _ (by simp only [List.nil_append, List.append_assoc]; rfl))
  · exact Prod.ext rfl (number _ (by rw [List.append_assoc]; rfl))

/-! ## Zeros that do not count -/

theorem digitsValue_zero (ds : Bytes) : digitsValue (ds ++ [0x30]) = 10 * digitsValue ds := by
  rw [digitsValue, List.foldl_append]
  rfl

theorem digitsValue_leading (ds : Bytes) :
    digitsValue (ds.dropWhile (· = 0x30)) = digitsValue ds := by
  induction ds with
  | nil => rfl
  | cons c ds ih =>
    by_cases zero : c = 0x30
    · subst zero
      exact ih
    · rw [List.dropWhile_cons_of_neg]
      exact fun found => zero (of_decide_eq_true found)

/-- A zero behind the point. -/
theorem magnitude_point (front power : Bytes) :
    magnitude front [0x2e, 0x30] power = magnitude front [] power := by
  unfold magnitude
  rw [show ([0x2e, 0x30] : Bytes).drop 1 = [0x30] from rfl, digitsValue_zero, List.drop_nil,
    List.append_nil]
  show ((10 * digitsValue front : Nat) : ℚ) * 10 ^ (exponentValue (power.drop 1) - 1) =
    digitsValue front * 10 ^ (exponentValue (power.drop 1) - 0)
  rw [zpow_sub_one₀ (by norm_num : (10 : ℚ) ≠ 0), Int.sub_zero]
  push_cast
  field_simp

/-- A power without its plus sign and its leading zeros. -/
theorem exponentValue_trim (x : UInt8) (ds : Bytes) (signed : x = 0x2b ∨ x = 0x2d)
    (all : ds.all digit) (nonzero : ∃ c ∈ ds, c ≠ 0x30) :
    exponentValue ((if x = 0x2d then [0x2d] else []) ++ ds.dropWhile (· = 0x30)) =
      exponentValue (x :: ds) := by
  rcases signed with rfl | rfl
  · obtain ⟨c, member, other⟩ := nonzero
    have filled : ds.dropWhile (· = 0x30) ≠ [] := fun empty =>
      other (of_decide_eq_true (List.dropWhile_eq_nil_iff.mp empty c member))
    obtain ⟨d, rest, behind⟩ := List.exists_cons_of_ne_nil filled
    have first : digit d = true := by
      have inside : d ∈ ds.dropWhile (· = 0x30) := behind ▸ List.mem_cons_self
      exact List.all_eq_true.mp all d ((List.dropWhile_sublist _).mem inside)
    obtain ⟨noMinus, noPlus, _⟩ := digit_range_of first
    rw [if_neg (by decide), List.nil_append, behind, exponentValue, if_neg noMinus, if_neg noPlus,
      ← behind, digitsValue_leading]
    rfl
  · show exponentValue (0x2d :: ds.dropWhile (· = 0x30)) = _
    rw [exponentValue, if_pos rfl, digitsValue_leading]
    rfl

theorem magnitude_power (front fraction : Bytes) {power power' : Bytes}
    (same : exponentValue (power.drop 1) = exponentValue (power'.drop 1)) :
    magnitude front fraction power = magnitude front fraction power' := by
  rw [magnitude, magnitude, same]

end CgminerT4.Library.DecimalNumber
