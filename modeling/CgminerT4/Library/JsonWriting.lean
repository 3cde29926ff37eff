import CgminerT4.Library.JsonForm
import CgminerT4.Library.JsonReading

/-!
# JSON texts that are read back

A number that is written is read up to what ends it, and white space in front of a
value or between the items does not count.
-/
namespace CgminerT4.Library.JsonText
open ByteString

/-! ## Numbers -/

/-- Nothing that continues a number stands in front. -/
def Ends (rest : Bytes) : Prop :=
  ∀ c t, rest = c :: t → digit c = false ∧ c ≠ 0x2e ∧ c ≠ 0x65 ∧ c ≠ 0x45

theorem digits_written (ds rest : Bytes) (filled : ds ≠ []) (all : ds.all digit)
    (ends : ∀ c t, rest = c :: t → digit c = false) :
    digits (ds ++ rest) = some (ds, rest) := by
  have inside := List.all_eq_true.mp all
  have noDigit : rest.takeWhile digit = [] := by
    cases rest with
    | nil => rfl
    | cons c t => exact List.takeWhile_cons_of_neg (by rw [ends c t rfl]; decide)
  have unread : rest.dropWhile digit = rest := by
    cases rest with
    | nil => rfl
    | cons c t => exact List.dropWhile_cons_of_neg (by rw [ends c t rfl]; decide)
  rw [digits, List.takeWhile_append_of_pos inside, List.dropWhile_append_of_pos inside, noDigit,
    unread, List.append_nil, if_neg filled]

theorem whole_written (ds rest : Bytes) (filled : ds ≠ []) (all : ds.all digit)
    (leading : ds.head? = some 0x30 → ds = [0x30])
    (ends : ∀ c t, rest = c :: t → digit c = false) : whole (ds ++ rest) = some (ds, rest) := by
  cases ds with
  | nil => exact absurd rfl filled
  | cons c ds =>
    rw [List.cons_append, whole]
    by_cases zero : c = 0x30
    · have single := (List.cons.inj (leading (congrArg some zero))).2
      rw [if_pos zero, single]
      rfl
    · rw [if_neg zero]
      exact digits_written (c :: ds) rest filled all ends

/-- The parts of a number as it is written. -/
structure NumberParts (sign front fraction power : Bytes) : Prop where
  sign : sign = [] ∨ sign = [0x2d]
  filled : front ≠ []
  all : front.all digit
  leading : front.head? = some 0x30 → front = [0x30]
  fraction : fraction = [] ∨ ∃ ds, fraction = 0x2e :: ds ∧ ds ≠ [] ∧ ds.all digit
  power : power = [] ∨ ∃ x ds, power = 0x65 :: (x ++ ds) ∧ (x = [] ∨ x = [0x2b] ∨ x = [0x2d]) ∧
    ds ≠ [] ∧ ds.all digit

theorem digit_range_of {c : UInt8} (found : digit c = true) :
    c ≠ 0x2d ∧ c ≠ 0x2b ∧ c ≠ 0x2e ∧ c ≠ 0x65 ∧ c ≠ 0x45 ∧ c ≠ 0 := by
  refine ⟨?_, ?_, ?_, ?_, ?_, ?_⟩ <;> rintro rfl <;> exact absurd found (by decide)

theorem power_written {sign front fraction power : Bytes}
    (parts : NumberParts sign front fraction power) (rest : Bytes)
    (ends : Ends rest) :
    JsonText.optional (fun c => c = 0x65 || c = 0x45) exponent (power ++ rest) =
      some (power, rest) := by
  rcases parts.power with rfl | ⟨x, ds, rfl, signed, filled, all⟩
  · refine optional_absent fun c t same => ?_
    obtain ⟨_, _, lower, upper⟩ := ends c t same
    rw [decide_eq_false lower, decide_eq_false upper]
    rfl
  · have read : digits (ds ++ rest) = some (ds, rest) :=
      digits_written ds rest filled all fun c t same => (ends c t same).1
    have power : exponent (x ++ ds ++ rest) = some (x ++ ds, rest) := by
      rcases signed with rfl | rfl | rfl
      · obtain ⟨d, ds, rfl⟩ := List.exists_cons_of_ne_nil filled
        obtain ⟨noMinus, noPlus, _⟩ := digit_range_of (List.all_eq_true.mp all d List.mem_cons_self)
        show exponent (d :: (ds ++ rest)) = _
        rw [exponent, decide_eq_false noPlus, decide_eq_false noMinus]
        exact read
      · show exponent (0x2b :: (ds ++ rest)) = _
        rw [exponent, read]
        rfl
      · show exponent (0x2d :: (ds ++ rest)) = _
        rw [exponent, read]
        rfl
    rw [List.cons_append, JsonText.optional, power]
    rfl

theorem fraction_written {sign front fraction power : Bytes}
    (parts : NumberParts sign front fraction power) (rest : Bytes)
    (ends : Ends rest) :
    JsonText.optional (· = 0x2e) digits (fraction ++ (power ++ rest)) =
      some (fraction, power ++ rest) := by
  have stops : ∀ c t, power ++ rest = c :: t → digit c = false ∧ c ≠ 0x2e := by
    intro c t same
    rcases parts.power with rfl | ⟨x, ds, rfl, _⟩
    · exact ⟨(ends c t same).1, (ends c t same).2.1⟩
    · obtain rfl := (List.cons.inj same).1
      decide
  rcases parts.fraction with rfl | ⟨ds, rfl, filled, all⟩
  · exact optional_absent fun c t same => decide_eq_false (stops c t same).2
  · have read : digits (ds ++ (power ++ rest)) = some (ds, power ++ rest) :=
      digits_written ds _ filled all fun c t same => (stops c t same).1
    rw [List.cons_append, JsonText.optional, read]
    rfl

/-- A number is read up to what ends it. -/
theorem number_written {sign front fraction power : Bytes}
    (parts : NumberParts sign front fraction power) (rest : Bytes)
    (ends : Ends rest) :
    number (sign ++ front ++ fraction ++ power ++ rest) =
      some (sign ++ front ++ fraction ++ power, rest) := by
  have stops : ∀ c t, fraction ++ (power ++ rest) = c :: t → digit c = false := by
    intro c t same
    rcases parts.fraction with rfl | ⟨ds, rfl, _⟩
    · rcases parts.power with rfl | ⟨x, ds, rfl, _⟩
      · exact (ends c t same).1
      · obtain rfl := (List.cons.inj same).1
        decide
    · obtain rfl := (List.cons.inj same).1
      decide
  have read :=
    whole_written front (fraction ++ (power ++ rest)) parts.filled parts.all parts.leading stops
  have first : numberFront (sign ++ (front ++ (fraction ++ (power ++ rest)))) =
      some (sign ++ front, fraction ++ (power ++ rest)) := by
    rcases parts.sign with rfl | rfl
    · obtain ⟨d, ds, same⟩ := List.exists_cons_of_ne_nil parts.filled
      have noMinus : d ≠ 0x2d :=
        (digit_range_of (List.all_eq_true.mp parts.all d
          (by rw [same]; exact List.mem_cons_self))).1
      rw [same] at read ⊢
      show numberFront (d :: (ds ++ (fraction ++ (power ++ rest)))) = _
      rw [numberFront, if_neg noMinus]
      exact read
    · show numberFront (0x2d :: (front ++ (fraction ++ (power ++ rest)))) = _
      rw [numberFront, if_pos rfl, read]
      rfl
  simp only [List.append_assoc] at first ⊢
  rw [number_eq, first, Option.bind_some, fraction_written parts rest ends, Option.bind_some,
    power_written parts rest ends, Option.bind_some]
  simp only [List.append_assoc]

theorem decimal_filled (n : Nat) : decimal n ≠ [] := by
  rw [decimal_nat]
  exact fun none => Nat.toDigits_ne_nil (List.map_eq_nil_iff.mp none)

theorem decimal_all (n : Nat) : (decimal n).all digit := by
  refine List.all_eq_true.mpr fun c member => ?_
  obtain ⟨lower, upper⟩ := decimal_digits n c member
  unfold digit
  rw [Bool.and_eq_true, decide_eq_true_iff, decide_eq_true_iff]
  exact ⟨UInt8.le_iff_toNat_le.mpr lower, UInt8.le_iff_toNat_le.mpr upper⟩

theorem decimal_leading (n : Nat) (zero : (decimal n).head? = some 0x30) : decimal n = [0x30] := by
  have read := JsonForm.whole_decimal n
  cases shape : decimal n with
  | nil => exact absurd shape (decimal_filled n)
  | cons c ds =>
    rw [shape] at zero read
    obtain rfl := Option.some.inj zero
    rw [whole, if_pos rfl] at read
    exact (Prod.mk.inj (Option.some.inj read)).1.symm

/-- The parts of an integer. -/
theorem decimal_parts (i : Int) :
    ∃ sign n, decimal i = sign ++ decimal (n : Nat) ∧ NumberParts sign (decimal (n : Nat)) [] [] ∧
    (sign = [] ∧ i = n ∨ sign = [0x2d] ∧ i = -n) := by
  have parts (sign : Bytes) (n : Nat) (signed : sign = [] ∨ sign = [0x2d]) :
      NumberParts sign (decimal (n : Nat)) [] [] :=
    ⟨signed, decimal_filled n, decimal_all n, decimal_leading n, .inl rfl, .inl rfl⟩
  cases i with
  | ofNat n => exact ⟨[], n, rfl, parts [] n (.inl rfl), .inl ⟨rfl, rfl⟩⟩
  | negSucc n =>
    exact ⟨[0x2d], n + 1, JsonForm.decimal_negSucc n, parts [0x2d] (n + 1) (.inr rfl),
      .inr ⟨rfl, rfl⟩⟩

/-! ## White space -/

theorem value_of_skip {s s' : Bytes} (n : Nat) (same : skip s = skip s') :
    value n s = value n s' := by
  cases n with
  | zero => rw [value, value]
  | succ n => rw [value, value, same]

theorem elements_of_skip {s s' : Bytes} (n : Nat) (same : skip s = skip s') :
    elements n s = elements n s' := by
  cases n with
  | zero => rw [elements, elements]
  | succ n => rw [elements_succ, elements_succ, value_of_skip n same]

theorem members_of_skip {s s' : Bytes} (n : Nat) (same : skip s = skip s') :
    members n s = members n s' := by
  cases n with
  | zero => rw [members, members]
  | succ n => rw [members_succ, members_succ, same]

end CgminerT4.Library.JsonText
