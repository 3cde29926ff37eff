import CgminerT4.Guarantees.JsonReads
import CgminerT4.Library.DecimalNumber
import CgminerT4.Source.JsonDump

/-!
# What jansson writes, it reads back

Every value within the limits of the reader is written completely, and reading the
text gives the same value again, whatever the flags of the writer are.
-/
namespace CgminerT4.Guarantees.JsonRoundTrip
open Library.ByteString Library.JsonText Library.DecimalNumber Source.JsonUtf Source.JsonLoad
  Source.JsonDump JsonReads

variable {R : Type}

/-! ## Strings -/

theorem utf8Iterate_char {e : Bytes} (char : IsChar e) (s : Bytes) :
    utf8Iterate (e ++ s) = some (code e, s) := by
  obtain ⟨u, tail, rfl, _⟩ := char.parts
  have first := IsChar.first char rfl
  unfold utf8Iterate
  rw [List.cons_append]
  dsimp only
  rw [first, if_neg (by simp)]
  by_cases several : tail = []
  · subst several
    rfl
  · have full := (checkFull_iff u tail _ several first).mpr ⟨char, rfl⟩
    have long := List.length_pos_iff.mpr several
    have take : (u :: tail ++ s).take (u :: tail).length = u :: tail := List.take_left' rfl
    have drop : (u :: tail ++ s).drop (u :: tail).length = s := List.drop_left' rfl
    rw [List.cons_append] at take drop
    rw [if_neg (by rw [List.length_cons]; omega),
      if_neg (by simp only [List.length_cons, List.length_append]; omega), take, drop, full]
    rfl

theorem hexValue_hexDigit : ∀ n : Fin 16, hexValue (hexDigit n) = some n.val := by decide

theorem hexDigit_value (n : Nat) (small : n < 16) : hexValue (hexDigit n) = some n :=
  hexValue_hexDigit ⟨n, small⟩

/-- The four digits of %04X are a code unit. -/
theorem codeUnit_hex4 (n : Nat) (small : n < 0x10000) :
    codeUnit (hexDigit (n / 4096 % 16)) (hexDigit (n / 256 % 16)) (hexDigit (n / 16 % 16))
      (hexDigit (n % 16)) = some n := by
  rw [codeUnit_of_values (hexDigit_value _ (Nat.mod_lt _ (by decide)))
    (hexDigit_value _ (Nat.mod_lt _ (by decide)))
    (hexDigit_value _ (Nat.mod_lt _ (by decide))) (hexDigit_value _ (Nat.mod_lt _ (by decide)))]
  congr 1
  omega

/-- An escape is read as the code point it is written for. -/
theorem escapeText_reads (n : Nat) (scalar : Scalar n) (s : Bytes) :
    text (escapeText n ++ s) = (text s).map (prepend (encode n)) := by
  unfold escapeText
  by_cases c1 : n = 0x5C
  · subst c1
    exact text_escape backslash 0x5C s rfl
  by_cases c2 : n = 0x22
  · subst c2
    exact text_escape quote 0x22 s rfl
  by_cases c3 : n = 0x08
  · subst c3
    exact text_escape 0x62 0x08 s rfl
  by_cases c4 : n = 0x0C
  · subst c4
    exact text_escape 0x66 0x0C s rfl
  by_cases c5 : n = 0x0A
  · subst c5
    exact text_escape 0x6E 0x0A s rfl
  by_cases c6 : n = 0x0D
  · subst c6
    exact text_escape 0x72 0x0D s rfl
  by_cases c7 : n = 0x09
  · subst c7
    exact text_escape 0x74 0x09 s rfl
  by_cases c8 : n = 0x2F
  · subst c8
    exact text_escape 0x2F 0x2F s rfl
  rw [if_neg c1, if_neg c2, if_neg c3, if_neg c4, if_neg c5, if_neg c6, if_neg c7, if_neg c8]
  by_cases plane : n < 0x10000
  · rw [if_pos plane]
    exact text_unit _ _ _ _ n s (codeUnit_hex4 n plane) scalar.2
  · rw [if_neg plane]
    have inside := scalar.1
    have high : 0xD800 ||| (((n - 0x10000) &&& 0xFFC00) >>> 10) =
        0xD800 + (n - 0x10000) / 1024 := by
      rw [and_shift _ 10 0xFFC00 10 rfl,
        Nat.mod_eq_of_lt (by omega : (n - 0x10000) / 2 ^ 10 < 2 ^ 10)]
      exact (Nat.two_pow_add_eq_or_of_lt (i := 10) (by omega : (n - 0x10000) / 2 ^ 10 < 2 ^ 10)
        54).symm
    have low : 0xDC00 ||| ((n - 0x10000) &&& 0x003FF) = 0xDC00 + (n - 0x10000) % 1024 := by
      rw [show (0x003FF : Nat) = 2 ^ 10 - 1 from rfl, and_low]
      exact (Nat.two_pow_add_eq_or_of_lt (i := 10) (Nat.mod_lt _ (by decide)) 55).symm
    have point :
        n = 0x10000 + (0xD800 + (n - 0x10000) / 1024 - 0xd800) * 0x400 + (0xDC00 +
        (n - 0x10000) % 1024 - 0xdc00) := by
      omega
    dsimp only
    rw [high, low]
    have pair :=
      text_pair _ _ _ _ _ _ _ _ _ _ s (codeUnit_hex4 (0xD800 + (n - 0x10000) / 1024) (by omega))
        ⟨by omega, by omega⟩
      (codeUnit_hex4 (0xDC00 + (n - 0x10000) % 1024) (by omega)) ⟨by omega, by omega⟩
    rw [← point] at pair
    exact pair

theorem hexDigit_nonzero (n : Nat) (small : n < 16) : hexDigit n ≠ 0 := by
  intro zero
  have value := hexDigit_value n small
  rw [zero] at value
  cases value

theorem hex4_nonzero (n : Nat) : 0 ∉ hex4 n := by
  intro member
  simp only [hex4, List.mem_cons, List.not_mem_nil, or_false] at member
  rcases member with zero | zero | zero | zero <;>
    exact hexDigit_nonzero _ (Nat.mod_lt _ (by decide)) zero.symm

theorem escapeText_nonzero (n : Nat) : 0 ∉ escapeText n := by
  unfold escapeText
  iterate 8
    split
    · decide
  split
  · exact fun member => (List.mem_append.mp member).elim (by decide) (hex4_nonzero n)
  · intro member
    simp only [List.mem_append] at member
    rcases member with ((front | first) | middle) | last
    · exact absurd front (by decide)
    · exact hex4_nonzero _ first
    · exact absurd middle (by decide)
    · exact hex4_nonzero _ last

/-- A code point that is written as it is. -/
theorem plain_of_kept {flags : DumpFlags} {e : Bytes} (char : IsChar e)
    (kept : needsEscape flags (code e) = false) : plain e := by
  unfold needsEscape at kept
  simp only [Bool.or_eq_false_iff, decide_eq_false_iff_not] at kept
  obtain ⟨⟨⟨⟨noBackslash, noQuote⟩, printable⟩, _⟩, _⟩ := kept
  have first : ∀ c, e.head? = some c → c < 0x80 → code e = c.toNat := by
    intro c front small
    obtain ⟨u, tail, rfl, _⟩ := char.parts
    obtain rfl := Option.some.inj front
    have length := IsChar.first char rfl
    rw [checkFirst_spec, if_pos small, List.length_cons] at length
    obtain rfl : tail = [] := List.eq_nil_of_length_eq_zero (by omega)
    rfl
  refine plain_of_char char (fun front => ?_) (fun front => ?_) fun c front control => ?_
  · exact noQuote (first quote front (by decide))
  · exact noBackslash (first backslash front (by decide))
  · refine printable ?_
    rw [first c front (UInt8.lt_trans control (by decide))]
    exact UInt8.lt_iff_toNat_lt.mp control

/-- The loops write the rest of a valid text completely, and it is read back. -/
theorem dumpChars_reads (flags : DumpFlags) (fuel : Nat) (run s : Bytes) (enough : s.length ≤ fuel)
    (valid : utf8 s) :
    ∃ out, dumpChars flags fuel run s = (run ++ out, true) ∧ (0 ∉ run → 0 ∉ run ++ out) ∧
      ∀ rest, text (out ++ quote :: rest) = some (s, rest) := by
  induction fuel generalizing run s with
  | zero =>
    obtain rfl := List.eq_nil_of_length_eq_zero (Nat.le_zero.mp enough)
    exact ⟨[], by rw [dumpChars, List.append_nil],
      fun unmarked => by rw [List.append_nil]; exact unmarked, text_quote⟩
  | succ fuel ih =>
    by_cases empty : s = []
    · subst empty
      exact ⟨[], by rw [dumpChars, List.append_nil],
        fun unmarked => by rw [List.append_nil]; exact unmarked, text_quote⟩
    · obtain ⟨e, t, char, rfl⟩ := char_of_utf8 valid empty
      rw [utf8_char char] at valid
      obtain ⟨u, tail, shape, _⟩ := char.parts
      have filled : e ++ t = u :: (tail ++ t) := by rw [shape, List.cons_append]
      have less : t.length ≤ fuel := by
        rw [filled, List.length_cons, List.length_append] at enough
        omega
      have step : dumpChars flags (fuel + 1) run (e ++ t) =
          if needsEscape flags (code e) then
            Dumped.andThen (run ++ escapeText (code e), true) (dumpChars flags fuel [] t)
          else dumpChars flags fuel (run ++ e) t := by
        have read := utf8Iterate_char char t
        have here : (e ++ t).take ((e ++ t).length - t.length) = e := by
          rw [List.length_append, Nat.add_sub_cancel, List.take_left' rfl]
        rw [filled] at read here ⊢
        rw [dumpChars, read]
        · dsimp only
          rw [here]
        · exact List.cons_ne_nil _ _
      rw [step]
      cases escapes : needsEscape flags (code e) with
      | true =>
        obtain ⟨out, written, nonzero, reads⟩ := ih [] t less valid
        rw [if_pos rfl, written]
        refine ⟨escapeText (code e) ++ out, ?_, fun unmarked member => ?_, fun rest => ?_⟩
        · rw [Dumped.andThen, if_pos rfl, List.append_assoc]
          rfl
        · rcases List.mem_append.mp member with inRun | inOut
          · exact unmarked inRun
          · rcases List.mem_append.mp inOut with inEscape | behind
            · exact escapeText_nonzero _ inEscape
            · exact nonzero List.not_mem_nil behind
        · rw [List.append_assoc, escapeText_reads _ char.encode_code.1, reads, char.encode_code.2]
          rfl
      | false =>
        obtain ⟨out, written, nonzero, reads⟩ := ih (run ++ e) t less valid
        have kept := plain_of_kept char escapes
        rw [if_neg Bool.false_ne_true, written]
        refine ⟨e ++ out, by rw [List.append_assoc], fun unmarked => ?_, fun rest => ?_⟩
        · rw [← List.append_assoc]
          refine nonzero fun member => ?_
          rcases List.mem_append.mp member with inRun | inChar
          · exact unmarked inRun
          · exact (kept 0 inChar).2.2 (by decide)
        · rw [List.append_assoc, text_plain e _ char kept, reads]
          rfl

/-- A string is written between quotes and read back. -/
theorem dumpString_reads (flags : DumpFlags) (s : Bytes) (valid : utf8 s) :
    ∃ out, dumpString flags s = (quote :: out ++ [quote], true) ∧ 0 ∉ quote :: out ++ [quote] ∧
      ∀ rest, text (out ++ quote :: rest) = some (s, rest) := by
  obtain ⟨out, written, nonzero, reads⟩ := dumpChars_reads flags s.length [] s (Nat.le_refl _) valid
  refine ⟨out, ?_, ?_, reads⟩
  · rw [dumpString, written]
    rfl
  · intro member
    simp only [List.cons_append, List.mem_cons, List.mem_append, List.not_mem_nil,
      or_false] at member
    rcases member with zero | inside | zero
    · exact absurd zero (by decide)
    · exact nonzero List.not_mem_nil inside
    · exact absurd zero (by decide)

/-! ## Numbers -/

theorem digits_value (l : List Char) (allDigits : ∀ c ∈ l, c.isDigit = true) (n : Nat) :
    (l.map fun c => UInt8.ofNat c.toNat).foldl (fun n c => 10 * n + (c.toNat - 0x30)) n =
      Nat.ofDigitChars 10 l n := by
  induction l generalizing n with
  | nil => rfl
  | cons c l ih =>
    obtain ⟨_, upper⟩ := digit_range c (allDigits c List.mem_cons_self)
    rw [List.map_cons, List.foldl_cons, UInt8.toNat_ofNat_of_lt' (show c.toNat < 2 ^ 8 by omega),
      ih (fun d member => allDigits d (List.mem_cons_of_mem c member)), Nat.ofDigitChars_cons]
    rfl

theorem decimal_value (n : Nat) :
    (decimal n).foldl (fun n c => 10 * n + (c.toNat - 0x30)) 0 = n := by
  rw [decimal_nat, digits_value (Nat.toDigits 10 n)
    (fun c => Nat.isDigit_of_mem_toDigits (by decide) (by decide)) 0,
    Nat.ofDigitChars_ten_toDigits]

theorem decimalValue_decimal (i : Int) : decimalValue (decimal i) = i := by
  obtain ⟨sign, n, written, parts, ⟨rfl, rfl⟩ | ⟨rfl, rfl⟩⟩ := decimal_parts i
  · obtain ⟨c, ds, same⟩ := List.exists_cons_of_ne_nil parts.filled
    have noMinus : c ≠ 0x2D :=
      (digit_range_of (List.all_eq_true.mp parts.all c (by rw [same]; exact List.mem_cons_self))).1
    have value := decimal_value n
    rw [same] at value ⊢
    rw [decimalValue, value]
    intro ds' front
    exact noMinus (List.cons.inj front).1
  · rw [written, List.cons_append, List.nil_append, decimalValue, decimal_value]

theorem decimal_plain (i : Int) : ∀ c ∈ decimal i, c ≠ 0x2E ∧ c ≠ 0x45 ∧ c ≠ 0x65 ∧ c ≠ 0 := by
  obtain ⟨sign, n, written, parts, _⟩ := decimal_parts i
  intro c member
  rw [written] at member
  rcases List.mem_append.mp member with front | inside
  · rcases parts.sign with rfl | rfl
    · cases front
    · rw [List.mem_singleton.mp front]
      decide
  · obtain ⟨_, _, noPoint, noLower, noUpper, nonzero⟩ :=
      digit_range_of (List.all_eq_true.mp parts.all c inside)
    exact ⟨noPoint, noUpper, noLower, nonzero⟩

theorem number_decimal_written (i : Int) (rest : Bytes) (ends : Ends rest) :
    number (decimal i ++ rest) = some (decimal i, rest) := by
  obtain ⟨sign, n, written, parts, _⟩ := decimal_parts i
  have read := number_written parts rest ends
  simp only [List.append_nil] at read
  rw [written, read]

theorem numberValue_decimal (strtod : Bytes → Option R) (flags : Flags) (i : Int)
    (asInteger : flags.decodeIntAsReal = false) (range : -2 ^ 63 ≤ i ∧ i < 2 ^ 63) :
    numberValue strtod flags (decimal i) = some (.integer i) := by
  have integral : ∀ c ∈ decimal i, c ≠ 0x2E ∧ c ≠ 0x45 ∧ c ≠ 0x65 := fun c member =>
    ⟨(decimal_plain i c member).1, (decimal_plain i c member).2.1, (decimal_plain i c member).2.2.1⟩
  rw [numberValue_integral asInteger integral, decimalValue_decimal, if_pos range]

/-- The form of %.17g for a finite number: an exponent has a sign, at least two digits and
is not zero. -/
structure RealText (s : Bytes) : Prop where
  form : ∃ sign front fraction power, s = sign ++ front ++ fraction ++ power ∧
    NumberParts sign front fraction power ∧
    (power = [] ∨ ∃ x ds, power = 0x65 :: x :: ds ∧ (x = 0x2B ∨ x = 0x2D) ∧ ds.all digit ∧ ∃ c ∈ ds,
      c ≠ 0x30)
  short : s.length + 3 < maxRealLength

/-- The exponent as it is written keeps its digits. -/
theorem trimExponent_parts (x : UInt8) (ds : Bytes) (all : ds.all digit)
    (nonzero : ∃ c ∈ ds, c ≠ 0x30) :
    ∃ x' ds', trimExponent (x :: ds) = x' ++ ds' ∧ (x' = [] ∨ x' = [0x2b] ∨ x' = [0x2d]) ∧
      ds' ≠ [] ∧ ds'.all digit := by
  refine ⟨if (x :: ds).head? = some 0x2D then [0x2D] else [], ds.dropWhile (· = 0x30),
    rfl, ?_, ?_, ?_⟩
  · split
    · exact .inr (.inr rfl)
    · exact .inl rfl
  · intro empty
    obtain ⟨c, member, other⟩ := nonzero
    exact other (of_decide_eq_true (List.dropWhile_eq_nil_iff.mp empty c member))
  · exact List.all_eq_true.mpr fun c member =>
      List.all_eq_true.mp all c ((List.dropWhile_sublist _).mem member)

/-- In front of the exponent stand a sign, digits and a point. -/
theorem parts_front {sign front fraction power : Bytes}
    (parts : NumberParts sign front fraction power) :
    ∀ c ∈ sign ++ front ++ fraction, c ≠ 0x65 ∧ c ≠ 0 ∧ (c = 0x2E → fraction ≠ []) := by
  have ofDigit {c : UInt8} (found : digit c = true) :
      c ≠ 0x65 ∧ c ≠ 0 ∧ (c = 0x2E → fraction ≠ []) := by
    obtain ⟨_, _, noPoint, noLower, _, nonzero⟩ := digit_range_of found
    exact ⟨noLower, nonzero, fun point => absurd point noPoint⟩
  intro c member
  rcases List.mem_append.mp member with before | inFraction
  · rcases List.mem_append.mp before with inSign | inFront
    · rcases parts.sign with rfl | rfl
      · cases inSign
      · rw [List.mem_singleton.mp inSign]
        exact ⟨by decide, by decide, fun point => absurd point (by decide)⟩
    · exact ofDigit (List.all_eq_true.mp parts.all c inFront)
  · rcases parts.fraction with rfl | ⟨ds, rfl, _, all⟩
    · cases inFraction
    · rcases List.mem_cons.mp inFraction with rfl | inside
      · exact ⟨by decide, by decide, fun _ => List.cons_ne_nil _ _⟩
      · exact ofDigit (List.all_eq_true.mp all c inside)

/-- jsonp_dtostr keeps the number of a text and gives it a point or an exponent. -/
theorem dtostr_parts {sign front fraction power : Bytes}
    (parts : NumberParts sign front fraction power)
    (signed : power = [] ∨ ∃ x ds, power = 0x65 :: x :: ds ∧ (x = 0x2B ∨ x = 0x2D) ∧ ds.all digit ∧
      ∃ c ∈ ds, c ≠ 0x30)
    (short : (sign ++ front ++ fraction ++ power).length + 3 < maxRealLength) :
    ∃ fraction' power', jsonpDtostr (sign ++ front ++ fraction ++ power) =
      some (sign ++ front ++ fraction' ++ power') ∧
      NumberParts sign front fraction' power' ∧ (fraction' ≠ [] ∨ power' ≠ []) ∧
      magnitude front fraction' power' = magnitude front fraction power := by
  have inFront := parts_front parts
  have long : ¬ (sign ++ front ++ fraction ++ power).length ≥ maxRealLength := by omega
  have room : ¬ (sign ++ front ++ fraction ++ power).length + 3 ≥ maxRealLength := by omega
  have noLetter : (sign ++ front ++ fraction).takeWhile (· ≠ 0x65) = sign ++ front ++ fraction ∧
      (sign ++ front ++ fraction).dropWhile (· ≠ 0x65) = [] := by
    refine ⟨List.takeWhile_eq_self_iff.mpr fun c member => ?_,
      List.dropWhile_eq_nil_iff.mpr fun c member => ?_⟩
    · exact decide_eq_true (inFront c member).1
    · exact decide_eq_true (inFront c member).1
  unfold jsonpDtostr
  rw [if_neg long]
  rcases signed with rfl | ⟨x, ds, rfl, signed, all, nonzero⟩
  · rw [List.append_nil] at room ⊢
    have unlettered : (sign ++ front ++ fraction).contains 0x65 = false := by
      rw [List.contains_eq_mem]
      exact decide_eq_false fun member => (inFront 0x65 member).1 rfl
    rcases parts.fraction with rfl | ⟨ds, rfl, filled, all⟩
    · have noPoint : (sign ++ front ++ []).contains 0x2E = false := by
        rw [List.contains_eq_mem]
        exact decide_eq_false fun member => (inFront 0x2E member).2.2 rfl rfl
      have drop : (sign ++ front ++ [] ++ [0x2E, 0x30]).dropWhile (· ≠ 0x65) = [] := by
        rw [List.dropWhile_append, noLetter.2]
        rfl
      refine ⟨[0x2E, 0x30], [], ?_, ?_, .inl (List.cons_ne_nil _ _), magnitude_point front []⟩
      · simp only [unlettered, noPoint, Bool.not_false, Bool.and_self, if_true, room, decide_false,
          Bool.and_false, if_neg Bool.false_ne_true, drop]
        rw [List.append_nil, List.append_nil]
      · exact ⟨parts.sign, parts.filled, parts.all, parts.leading,
          .inr ⟨[0x30], rfl, by decide, by decide⟩, .inl rfl⟩
    · have point : (sign ++ front ++ 0x2e :: ds).contains 0x2E = true := by
        rw [List.contains_eq_mem]
        exact decide_eq_true (by simp)
      refine ⟨0x2e :: ds, [], ?_, parts, .inl (List.cons_ne_nil _ _), rfl⟩
      simp only [point, Bool.not_true, Bool.false_and, if_neg Bool.false_ne_true, noLetter.2,
        List.append_nil]
  · obtain ⟨x', ds', trimmed, signed', filled', all'⟩ := trimExponent_parts x ds all nonzero
    have lettered : (sign ++ front ++ fraction ++ 0x65 :: x :: ds).contains 0x65 = true := by
      rw [List.contains_eq_mem]
      exact decide_eq_true (by simp)
    have drop : (sign ++ front ++ fraction ++ 0x65 :: x :: ds).dropWhile (· ≠ 0x65) =
        0x65 :: x :: ds := by
      rw [List.dropWhile_append, noLetter.2]
      rfl
    have take : (sign ++ front ++ fraction ++ 0x65 :: x :: ds).takeWhile (· ≠ 0x65) =
        sign ++ front ++ fraction := by
      rw [List.takeWhile_append_of_pos fun c member => decide_eq_true (inFront c member).1]
      exact List.append_nil _
    refine ⟨fraction, 0x65 :: trimExponent (x :: ds), ?_, ?_, .inr (List.cons_ne_nil _ _),
      magnitude_power front fraction ?_⟩
    · simp only [lettered, Bool.not_true, Bool.and_false, Bool.false_and, if_neg Bool.false_ne_true,
        drop, take]
    · rw [trimmed]
      exact ⟨parts.sign, parts.filled, parts.all, parts.leading, parts.fraction,
        .inr ⟨x', ds', rfl, signed', filled', all'⟩⟩
    · have sign : (if (x :: ds).head? = some 0x2D then [0x2D] else [] : Bytes) =
          if x = 0x2D then [0x2D] else [] := by
        simp only [List.head?_cons, Option.some.injEq]
      show exponentValue (trimExponent (x :: ds)) = exponentValue (x :: ds)
      rw [trimExponent, sign]
      exact exponentValue_trim x ds signed all nonzero

theorem number_parts {sign front fraction power : Bytes}
    (parts : NumberParts sign front fraction power) :
    number (sign ++ front ++ fraction ++ power) =
      some (sign ++ front ++ fraction ++ power, []) := by
  have read := number_written parts [] fun c t nothing => by cases nothing
  rw [List.append_nil] at read
  exact read

/-- No byte of a number is NUL. -/
theorem parts_nonzero {sign front fraction power : Bytes}
    (parts : NumberParts sign front fraction power) :
    0 ∉ sign ++ front ++ fraction ++ power := by
  intro member
  rcases List.mem_append.mp member with before | inPower
  · exact (parts_front parts 0 before).2.1 rfl
  · rcases parts.power with rfl | ⟨x, ds, rfl, signed, _, all⟩
    · cases inPower
    · rcases List.mem_cons.mp inPower with zero | inside
      · exact absurd zero (by decide)
      · rcases List.mem_append.mp inside with inSign | inDigits
        · rcases signed with rfl | rfl | rfl
          · cases inSign
          · exact absurd inSign (by decide)
          · exact absurd inSign (by decide)
        · exact (digit_range_of (List.all_eq_true.mp all 0 inDigits)).2.2.2.2.2 rfl

/-- A number with a fraction or an exponent shows it. -/
theorem parts_marked {sign front fraction power : Bytes}
    (parts : NumberParts sign front fraction power) (marked : fraction ≠ [] ∨ power ≠ []) :
    ∃ c ∈ sign ++ front ++ fraction ++ power, c = 0x2E ∨ c = 0x45 ∨ c = 0x65 := by
  rcases parts.fraction with rfl | ⟨ds, rfl, _⟩
  · rcases parts.power with rfl | ⟨x, ds, rfl, _⟩
    · exact absurd rfl (marked.resolve_left fun filled => filled rfl)
    · exact ⟨0x65, by simp, .inr (.inr rfl)⟩
  · exact ⟨0x2E, by simp, .inl rfl⟩

/-! ## White space -/

theorem indent_spaces (flags : DumpFlags) (depth : Nat) (separated : Bool) :
    (dumpIndent flags depth separated).all space = true ∧ 0 ∉ dumpIndent flags depth separated := by
  unfold dumpIndent
  split
  · constructor
    · rw [List.all_cons]
      exact List.all_eq_true.mpr fun c member => by rw [List.eq_of_mem_replicate member]; decide
    · intro member
      rcases List.mem_cons.mp member with zero | inside
      · exact absurd zero (by decide)
      · exact absurd (List.eq_of_mem_replicate inside) (by decide)
  · split <;> decide

/-- White space and then a comma or a bracket end a number. -/
theorem ends_space (w : Bytes) (c : UInt8) (t : Bytes) (spaces : w.all space)
    (closes : isPunctuation c = true) :
    Ends (w ++ c :: t) := by
  intro d t' same
  have ending : space d = true ∨ isPunctuation d = true := by
    cases w with
    | nil =>
      obtain rfl := (List.cons.inj same).1
      exact .inr closes
    | cons e w =>
      obtain rfl := (List.cons.inj same).1
      exact .inl (List.all_eq_true.mp spaces e List.mem_cons_self)
  rcases ending with spaced | punctuation
  · simp only [space, Bool.or_eq_true, decide_eq_true_eq] at spaced
    rcases spaced with ((rfl | rfl) | rfl) | rfl <;> decide
  · simp only [isPunctuation, Bool.or_eq_true, decide_eq_true_eq] at punctuation
    rcases punctuation with ((((rfl | rfl) | rfl) | rfl) | rfl) | rfl <;> decide

/-! ## Values -/

variable (strtod : Bytes → Option R) (load : Flags) (dump : DumpFlags) (snprintf : R → Bytes)

/-- A value within the limits of the reader, in at most `depth` levels. -/
def Fits (allowNul : Bool) : Nat → JsonValue R → Prop
  | 0, _ => False
  | _ + 1, .string value => utf8 value = true ∧ (allowNul = true ∨ 0 ∉ value)
  | _ + 1, .integer value => -2 ^ 63 ≤ value ∧ value < 2 ^ 63
  | depth + 1, .array items => ∀ item ∈ items, Fits allowNul depth item
  | depth + 1, .object members =>
    (members.map Prod.fst).Nodup ∧ ∀ member ∈ members, utf8 member.1 = true ∧ 0 ∉ member.1 ∧
      Fits allowNul depth member.2
  | _ + 1, _ => True

/-- All of a value is written, and it is read back in front of whatever follows. -/
def Written (d : Nat) (v : JsonValue R) (out : Dumped) : Prop :=
  out.2 = true ∧ 0 ∉ out.1 ∧ ∃ w, build strtod load d w = some v ∧
    ∀ n rest, Ends rest → out.1.length < n → value n (out.1 ++ rest) = some (w, rest)

variable {strtod load dump snprintf}

theorem value_front (n : Nat) (c : UInt8) (t : Bytes) (solid : space c = false) :
    value (n + 1) (c :: t) = valueBody n c t :=
  value_skip (skip_solid c t solid)

theorem value_scalar (n : Nat) (c : UInt8) (t : Bytes) (solid : space c = false)
    (other : c ≠ quote ∧ c ≠ openBracket ∧ c ≠ openBrace) :
    value (n + 1) (c :: t) = scalar (c :: t) := by
  rw [value_front n c t solid, valueBody, if_neg other.1, if_neg other.2.1, if_neg other.2.2]

theorem value_number (n : Nat) (t rest : Bytes) (read : number (t ++ rest) = some (t, rest)) :
    value (n + 1) (t ++ rest) = some (.number t, rest) := by
  obtain ⟨c, t, rfl⟩ := List.exists_cons_of_ne_nil (number_split read).2
  have first : isDigit c = true ∨ c = 0x2D := number_start read
  have solid : space c = false := by
    refine Bool.eq_false_iff.mpr fun spaced => ?_
    simp only [space, Bool.or_eq_true, decide_eq_true_eq] at spaced
    rcases spaced with ((rfl | rfl) | rfl) | rfl <;> exact absurd first (by decide)
  have other : c ≠ quote ∧ c ≠ openBracket ∧ c ≠ openBrace := by
    refine ⟨?_, ?_, ?_⟩ <;> rintro rfl <;> exact absurd first (by decide)
  have noName : isAlpha c = false := Bool.eq_false_iff.mpr fun name => alpha_other name first
  rw [List.cons_append] at read ⊢
  rw [value_scalar n c _ solid other, scalar_number noName, read]
  rfl

theorem null_written (d : Nat) : Written strtod load (d + 1) .null (ascii "null", true) := by
  refine ⟨rfl, by rw [null_bytes]; decide, .null, rfl, fun n rest _ enough => ?_⟩
  obtain ⟨n, rfl⟩ : ∃ k, n = k + 1 := ⟨n - 1, by omega⟩
  rw [null_bytes]
  exact (value_scalar n 0x6E _ (by decide) (by decide)).trans
    (by simp [scalar, null_bytes, true_bytes, false_bytes])

theorem bool_written (d : Nat) (b : Bool) :
    Written strtod load (d + 1) (.bool b) (if b then ascii "true" else ascii "false", true) := by
  cases b with
  | true =>
    refine ⟨rfl, by rw [if_pos rfl, true_bytes]; decide, .bool true, rfl, fun n rest _ enough => ?_⟩
    obtain ⟨n, rfl⟩ : ∃ k, n = k + 1 := ⟨n - 1, by omega⟩
    rw [if_pos rfl, true_bytes]
    exact (value_scalar n 0x74 _ (by decide) (by decide)).trans (by simp [scalar, true_bytes])
  | false =>
    refine ⟨rfl, by rw [if_neg Bool.false_ne_true, false_bytes]; decide, .bool false, rfl,
      fun n rest _ enough => ?_⟩
    obtain ⟨n, rfl⟩ : ∃ k, n = k + 1 := ⟨n - 1, by omega⟩
    rw [if_neg Bool.false_ne_true, false_bytes]
    exact (value_scalar n 0x66 _ (by decide) (by decide)).trans
      (by simp [scalar, true_bytes, false_bytes])

theorem integer_written (d : Nat) (i : Int) (asInteger : load.decodeIntAsReal = false)
    (range : -2 ^ 63 ≤ i ∧ i < 2 ^ 63) :
    Written strtod load (d + 1) (.integer i) (decimal i, true) := by
  refine ⟨rfl, fun member => (decimal_plain i 0 member).2.2.2 rfl, .number (decimal i),
    numberValue_decimal strtod load i asInteger range,
    fun n rest ends enough => ?_⟩
  obtain ⟨n, rfl⟩ : ∃ k, n = k + 1 := ⟨n - 1, by omega⟩
  exact value_number n (decimal i) rest (number_decimal_written i rest ends)

/-- What the reader needs to know about numbers: integers are read as such, and the
conversions of the C library are inverse to each other where strtod looks only at the sign
of a numeral and at the number that it names. -/
structure Numbers (strtod : Bytes → Option R) (load : Flags) (snprintf : R → Bytes) : Prop where
  asInteger : load.decodeIntAsReal = false
  written : ∀ x, RealText (snprintf x)
  reads : ∀ x, strtod (snprintf x) = some x
  byNumber : ∀ {s t}, number s = some (s, []) → number t = some (t, []) →
    decimalNumber s = decimalNumber t →
    strtod s = strtod t

theorem real_written (d : Nat) (x : R) (numbers : Numbers strtod load snprintf) :
    Written strtod load (d + 1) (.real x)
      (match jsonpDtostr (snprintf x) with
        | some t => (t, true)
        | none => ([], false)) := by
  obtain ⟨⟨sign, front, fraction, power, same, parts, signed⟩, short⟩ := numbers.written x
  rw [same] at short
  obtain ⟨fraction', power', shown, parts', marked, kept⟩ := dtostr_parts parts signed short
  have number : decimalNumber (sign ++ front ++ fraction' ++ power') =
      decimalNumber (sign ++ front ++ fraction ++ power) := by
    rw [decimalNumber_parts parts', decimalNumber_parts parts, kept]
  have reads := (numbers.byNumber (number_parts parts') (number_parts parts) number).trans (same ▸
    numbers.reads x)
  rw [same, shown]
  refine ⟨rfl, parts_nonzero parts', .number (sign ++ front ++ fraction' ++ power'), ?_,
    fun n rest ends enough => ?_⟩
  · have real : numberValue strtod load (sign ++ front ++ fraction' ++ power') = _ :=
      numberValue_real fun _ => parts_marked parts' marked
    rw [build, scalarValue, real, reads]
    · rfl
    all_goals simp
  · obtain ⟨n, rfl⟩ : ∃ k, n = k + 1 := ⟨n - 1, by omega⟩
    exact value_number n _ rest (number_written parts' rest ends)

theorem string_written (d : Nat) (s : Bytes) (valid : utf8 s = true)
    (allowed : load.allowNul = true ∨ 0 ∉ s) :
    Written strtod load (d + 1) (.string s) (dumpString dump s) := by
  obtain ⟨out, written, nonzero, reads⟩ := dumpString_reads dump s valid
  rw [written]
  refine ⟨rfl, nonzero, .string s, ?_, fun n rest _ enough => ?_⟩
  · refine if_neg ?_
    rw [List.contains_eq_mem]
    rcases allowed with nul | absent
    · rw [nul]
      simp
    · rw [decide_eq_false absent]
      simp
  · obtain ⟨n, rfl⟩ : ∃ k, n = k + 1 := ⟨n - 1, by omega⟩
    have quoted : quote :: out ++ [quote] ++ rest = quote :: (out ++ quote :: rest) := by
      rw [List.cons_append, List.cons_append, List.append_assoc]
      rfl
    rw [quoted, value_front n quote _ (by decide), valueBody, if_pos rfl, reads]
    rfl

theorem not_mem_append {a b : Bytes} (first : 0 ∉ a) (second : 0 ∉ b) : 0 ∉ a ++ b := fun member =>
  (List.mem_append.mp member).elim first second

theorem elementsTail_close (n : Nat) (w : Value) (blank rest : Bytes) (spaces : blank.all space) :
    elementsTail n w (blank ++ closeBracket :: rest) = some ([w], rest) := by
  rw [elementsTail, skip_to blank closeBracket rest spaces (by decide)]
  exact (if_neg (by decide)).trans (if_pos rfl)

theorem membersTail_close (n : Nat) (name : Bytes) (w : Value) (blank rest : Bytes)
    (spaces : blank.all space) :
    membersTail n name w (blank ++ closeBrace :: rest) = some ([(name, w)], rest) := by
  rw [membersTail, skip_to blank closeBrace rest spaces (by decide)]
  exact (if_neg (by decide)).trans (if_pos rfl)

theorem elementsTail_more (n : Nat) (w : Value) (s : Bytes) :
    elementsTail n w (comma :: s) = (elements n s).map fun read => (w :: read.1, read.2) := by
  rw [elementsTail, skip_solid comma s (by decide)]
  exact if_pos rfl

theorem membersTail_more (n : Nat) (name : Bytes) (w : Value) (s : Bytes) :
    membersTail n name w (comma :: s) = (members n s).map fun read =>
      ((name, w) :: read.1, read.2) := by
  rw [membersTail, skip_solid comma s (by decide)]
  exact if_pos rfl

theorem items_written (d depth : Nat) (items : List (JsonValue R)) (filled : items ≠ [])
    (each : ∀ item ∈ items, Written strtod load d item (doDump dump snprintf (depth + 1) item)) :
    ∃ out, dumpItems dump snprintf depth items = (out, true) ∧ 0 ∉ out ∧
      ∃ ws, ws.mapM (build strtod load d) = some items ∧
      ∀ n rest, out.length + 1 < n →
        elements n (out ++ closeBracket :: rest) = some (ws, rest) := by
  induction items with
  | nil => exact absurd rfl filled
  | cons item items ih =>
    obtain ⟨ok, nonzero, w, built, reads⟩ := each item List.mem_cons_self
    rcases dumped : doDump dump snprintf (depth + 1) item with ⟨out, complete⟩
    rw [dumped] at ok nonzero reads
    cases ok
    rw [dumpItems, dumped]
    by_cases last : items = []
    · subst last
      obtain ⟨spaces, unzeroed⟩ := indent_spaces dump depth false
      refine ⟨out ++ dumpIndent dump depth false, rfl, not_mem_append nonzero unzeroed, [w], ?_,
        fun n rest enough => ?_⟩
      · rw [List.mapM_cons, built]
        rfl
      · obtain ⟨n, rfl⟩ : ∃ k, n = k + 1 := ⟨n - 1, by omega⟩
        rw [List.length_append] at enough
        have first := reads n (dumpIndent dump depth false ++ closeBracket :: rest)
          (ends_space _ _ _ spaces (by decide)) (by dsimp only; omega)
        rw [List.append_assoc, elements_succ, first, Option.bind_some,
          elementsTail_close n w _ rest spaces]
    · obtain ⟨spaces, unzeroed⟩ := indent_spaces dump (depth + 1) true
      obtain ⟨out', written, nonzero', ws, built', reads'⟩ :=
        ih last fun other member => each other (List.mem_cons_of_mem item member)
      have more : items.isEmpty = false := by
        cases items with
        | nil => exact absurd rfl last
        | cons => rfl
      rw [more, if_neg Bool.false_ne_true, written]
      refine ⟨out ++ (comma :: dumpIndent dump (depth + 1) true ++ out'), rfl, ?_, w :: ws, ?_,
        fun n rest enough => ?_⟩
      · refine not_mem_append nonzero (not_mem_append (fun member => ?_) nonzero')
        rcases List.mem_cons.mp member with zero | inside
        · exact absurd zero (by decide)
        · exact unzeroed inside
      · rw [List.mapM_cons, built, built']
        rfl
      · obtain ⟨n, rfl⟩ : ∃ k, n = k + 1 := ⟨n - 1, by omega⟩
        simp only [List.length_append, List.length_cons] at enough
        have first :=
          reads n (comma :: (dumpIndent dump (depth + 1) true ++ (out' ++ closeBracket :: rest)))
          (ends_space [] comma _ rfl (by decide)) (by dsimp only; omega)
        have split : out ++ (comma :: dumpIndent dump (depth + 1) true ++ out') ++
            closeBracket :: rest =
            out ++ comma :: (dumpIndent dump (depth + 1) true ++
              (out' ++ closeBracket :: rest)) := by
          simp only [List.append_assoc, List.cons_append]
        rw [split, elements_succ, first, Option.bind_some, elementsTail_more,
          elements_of_skip n (skip_spaces _ _ spaces), reads' n rest (by omega)]
        rfl

/-- A member that is written is read back up to what follows its value. -/
theorem member_read (n : Nat) (key keyText out tail : Bytes) (w : Value)
    (reads : ∀ rest, text (keyText ++ quote :: rest) = some (key, rest))
    (valued : value n (out ++ tail) = some (w, tail)) :
    members (n + 1) (quote :: keyText ++ [quote] ++
      (if dump.compact then [colon] else [colon, 0x20]) ++ (out ++ tail)) =
      membersTail n key w tail := by
  obtain ⟨separator, blank, spaces, shape⟩ : ∃ separator blank, blank.all space = true ∧
      (if dump.compact then [colon] else [colon, 0x20]) = separator ∧
        separator = colon :: blank := by
    cases dump.compact with
    | true => exact ⟨[colon], [], rfl, rfl, rfl⟩
    | false => exact ⟨[colon, 0x20], [0x20], by decide, rfl, rfl⟩
  have split : quote :: keyText ++ [quote] ++ (colon :: blank) ++ (out ++ tail) =
      quote :: (keyText ++ quote :: colon :: (blank ++ (out ++ tail))) := by
    simp only [List.append_assoc, List.cons_append, List.nil_append]
  rw [shape.1, shape.2, split, members_succ, skip_solid quote _ (by decide)]
  dsimp only
  rw [if_pos rfl, reads, Option.bind_some, memberValue, skip_solid colon _ (by decide)]
  dsimp only
  rw [if_pos rfl, value_of_skip n (skip_spaces blank _ spaces), valued]
  rfl

/-- A key that is not there yet is added at the end. -/
theorem addMember_new {builds : Value → Option (JsonValue R)} {object : List (Bytes × JsonValue R)}
    {key : Bytes} {w : Value} {v : JsonValue R} (noNul : 0 ∉ key)
    (fresh : key ∉ object.map Prod.fst) (built : builds w = some v) :
    addMember load builds object (key, w) = some (object ++ [(key, v)]) := by
  have away : (object.any fun other => decide (other.1 = key)) = false := by
    refine List.any_eq_false.mpr fun other member same => fresh ?_
    rw [← of_decide_eq_true same]
    exact List.mem_map_of_mem member
  have noZero : key.contains 0 = false := by
    rw [List.contains_eq_mem]
    exact decide_eq_false noNul
  unfold addMember
  dsimp only
  rw [noZero, if_neg Bool.false_ne_true, away, Bool.and_false, if_neg Bool.false_ne_true, built,
    Option.map_some, objectSet, away, if_neg Bool.false_ne_true]

theorem members_written (d depth : Nat) (pairs : List (Bytes × JsonValue R)) (filled : pairs ≠ [])
    (each : ∀ pair ∈ pairs, utf8 pair.1 = true ∧ 0 ∉ pair.1 ∧
      Written strtod load d pair.2 (doDump dump snprintf (depth + 1) pair.2)) :
    ∃ out, dumpMembers dump snprintf depth pairs = (out, true) ∧ 0 ∉ out ∧ ∃ ps,
      (∀ object, ((object ++ pairs).map Prod.fst).Nodup →
        ps.foldlM (addMember load (build strtod load d)) object = some (object ++ pairs)) ∧
      ∀ n rest, out.length + 1 < n → members n (out ++ closeBrace :: rest) = some (ps, rest) := by
  induction pairs with
  | nil => exact absurd rfl filled
  | cons pair pairs ih =>
    obtain ⟨key, v⟩ := pair
    obtain ⟨valid, plainKey, ok, nonzero, w, built, reads⟩ := each (key, v) List.mem_cons_self
    obtain ⟨keyText, keyWritten, keyNonzero, keyReads⟩ := dumpString_reads dump key valid
    rcases dumped : doDump dump snprintf (depth + 1) v with ⟨out, complete⟩
    dsimp only at ok nonzero reads
    rw [dumped] at ok nonzero reads
    cases ok
    have front :
        0 ∉ quote :: keyText ++ [quote] ++ (if dump.compact then [colon] else [colon, 0x20]) :=
      not_mem_append keyNonzero (by split <;> decide)
    have added (object : List (Bytes × JsonValue R))
        (distinct : ((object ++ (key, v) :: pairs).map Prod.fst).Nodup) :
        addMember load (build strtod load d) object (key, w) = some (object ++ [(key, v)]) := by
      refine addMember_new plainKey ?_ built
      rw [List.map_append, List.map_cons] at distinct
      exact fun member => (List.nodup_append.mp distinct).2.2 key member key List.mem_cons_self rfl
    rw [dumpMembers, dumped, keyWritten]
    by_cases last : pairs = []
    · subst last
      obtain ⟨spaces, unzeroed⟩ := indent_spaces dump depth false
      refine ⟨quote :: keyText ++ [quote] ++ (if dump.compact then [colon] else [colon, 0x20]) ++
        (out ++ dumpIndent dump depth false),
          rfl, not_mem_append front (not_mem_append nonzero unzeroed), [(key, w)],
        fun object distinct => ?_, fun n rest enough => ?_⟩
      · rw [List.foldlM_cons, added object distinct]
        rfl
      · obtain ⟨n, rfl⟩ : ∃ k, n = k + 1 := ⟨n - 1, by omega⟩
        simp only [List.length_append, List.length_cons] at enough
        have valued := reads n (dumpIndent dump depth false ++ closeBrace :: rest)
          (ends_space _ _ _ spaces (by decide)) (by dsimp only; omega)
        rw [List.append_assoc _ _ (closeBrace :: rest), List.append_assoc out,
          member_read n key keyText out _ w keyReads valued,
          membersTail_close n key w _ rest spaces]
    · obtain ⟨spaces, unzeroed⟩ := indent_spaces dump (depth + 1) true
      obtain ⟨out', written, nonzero', ps, built', reads'⟩ :=
        ih last fun other member => each other (List.mem_cons_of_mem _ member)
      have more : pairs.isEmpty = false := by
        cases pairs with
        | nil => exact absurd rfl last
        | cons => rfl
      rw [more, if_neg Bool.false_ne_true, written]
      refine ⟨quote :: keyText ++ [quote] ++ (if dump.compact then [colon] else [colon, 0x20]) ++
        (out ++ (comma :: dumpIndent dump (depth + 1) true ++ out')), rfl,
        not_mem_append front (not_mem_append nonzero (not_mem_append (fun member => ?_) nonzero')),
        (key, w) :: ps,
        fun object distinct => ?_, fun n rest enough => ?_⟩
      · rcases List.mem_cons.mp member with zero | inside
        · exact absurd zero (by decide)
        · exact unzeroed inside
      · rw [List.foldlM_cons, added object distinct]
        have behind := built' (object ++ [(key, v)]) (by rw [List.append_assoc]; exact distinct)
        rw [List.append_assoc] at behind
        exact behind
      · obtain ⟨n, rfl⟩ : ∃ k, n = k + 1 := ⟨n - 1, by omega⟩
        simp only [List.length_append, List.length_cons] at enough
        have valued :=
          reads n (comma :: (dumpIndent dump (depth + 1) true ++ (out' ++ closeBrace :: rest)))
          (ends_space [] comma _ rfl (by decide)) (by dsimp only; omega)
        have split : out ++ (comma :: dumpIndent dump (depth + 1) true ++ out') ++
            closeBrace :: rest =
            out ++ comma :: (dumpIndent dump (depth + 1) true ++ (out' ++ closeBrace :: rest)) := by
          simp only [List.append_assoc, List.cons_append]
        rw [List.append_assoc _ _ (closeBrace :: rest),
          split, member_read n key keyText out _ w keyReads valued, membersTail_more,
          members_of_skip n (skip_spaces _ _ spaces), reads' n rest (by omega)]
        rfl

/-- No item begins with the end of its array, and no member with the end of its object. -/
theorem elements_open {n : Nat} {s : Bytes} {read : List Value × Bytes}
    (scanned : elements n s = some read) :
    (skip s).head? ≠ some closeBracket := by
  intro front
  cases behind : skip s with
  | nil =>
    rw [behind] at front
    cases front
  | cons c t =>
    rw [behind] at front
    obtain rfl := Option.some.inj front
    cases n with
    | zero =>
      rw [elements] at scanned
      cases scanned
    | succ n =>
      rw [elements_succ] at scanned
      cases n with
      | zero =>
        rw [value] at scanned
        cases scanned
      | succ n =>
        rw [value_skip behind, valueBody, if_neg (by decide), if_neg (by decide),
          if_neg (by decide), scalar_other (by decide) (by decide)] at scanned
        cases scanned

theorem members_open {n : Nat} {s : Bytes} {read : List (Bytes × Value) × Bytes}
    (scanned : members n s = some read) :
    (skip s).head? ≠ some closeBrace := by
  intro front
  cases behind : skip s with
  | nil =>
    rw [behind] at front
    cases front
  | cons c t =>
    rw [behind] at front
    obtain rfl := Option.some.inj front
    cases n with
    | zero =>
      rw [members] at scanned
      cases scanned
    | succ n =>
      rw [members_succ, behind] at scanned
      cases scanned

theorem value_written (dump : DumpFlags) (numbers : Numbers strtod load snprintf) (d : Nat)
    (v : JsonValue R) (depth : Nat) (fits : Fits load.allowNul d v) :
    Written strtod load d v (doDump dump snprintf depth v) := by
  induction d generalizing v depth with
  | zero => exact absurd fits (by simp [Fits])
  | succ d ih =>
    cases v with
    | null => exact null_written d
    | bool b => exact bool_written d b
    | integer i => exact integer_written d i numbers.asInteger fits
    | real x => exact real_written d x numbers
    | string s => exact string_written d s fits.1 fits.2
    | array items =>
      rw [doDump]
      by_cases empty : items = []
      · subst empty
        refine ⟨rfl, show 0 ∉ [openBracket, closeBracket] by decide, .array [], rfl,
          fun n rest _ enough => ?_⟩
        obtain ⟨n, rfl⟩ : ∃ k, n = k + 1 := ⟨n - 1, by omega⟩
        exact value_emptyArray n [] [] rest rfl rfl
      · obtain ⟨out, written, nonzero, ws, built, reads⟩ :=
          items_written d depth items empty fun item member =>
          ih item (depth + 1) (fits item member)
        obtain ⟨spaces, unzeroed⟩ := indent_spaces dump (depth + 1) false
        have filled : items.isEmpty = false := by
          cases items with
          | nil => exact absurd rfl empty
          | cons => rfl
        rw [filled, if_neg Bool.false_ne_true, written]
        refine ⟨rfl, ?_, .array ws, by rw [build, built]; rfl, fun n rest _ enough => ?_⟩
        · exact not_mem_append (by decide)
            (not_mem_append (not_mem_append unzeroed nonzero) (by decide))
        · obtain ⟨n, rfl⟩ : ∃ k, n = k + 1 := ⟨n - 1, by omega⟩
          have shape : (Dumped.andThen ([openBracket], true) (Dumped.andThen (Dumped.andThen
              (dumpIndent dump (depth + 1) false, true) (out, true)) ([closeBracket], true))).1 =
                openBracket :: (dumpIndent dump (depth + 1) false ++ (out ++ [closeBracket])) := by
            show [openBracket] ++ (dumpIndent dump (depth + 1) false ++ out ++ [closeBracket]) = _
            rw [List.append_assoc]
            rfl
          rw [shape] at enough ⊢
          simp only [List.length_cons, List.length_append, List.length_nil] at enough
          have read := reads n rest (by omega)
          have opened :
              (skip (dumpIndent dump (depth + 1) false ++ (out ++ closeBracket :: rest))).head? ≠
              some closeBracket := by
            rw [skip_spaces _ _ spaces]
            exact elements_open read
          have split :
              openBracket :: (dumpIndent dump (depth + 1) false ++
              (out ++ [closeBracket])) ++ rest =
              openBracket :: (dumpIndent dump (depth + 1) false ++
                (out ++ closeBracket :: rest)) := by
            simp only [List.append_assoc, List.cons_append, List.nil_append]
          rw [split, ← List.nil_append (openBracket :: _), value_array n [] _ rfl opened,
            elements_of_skip n (skip_spaces _ _ spaces), read]
          rfl
    | object pairs =>
      obtain ⟨distinct, each⟩ := fits
      rw [doDump]
      by_cases empty : pairs = []
      · subst empty
        refine ⟨rfl, show 0 ∉ [openBrace, closeBrace] by decide, .object [], rfl,
          fun n rest _ enough => ?_⟩
        obtain ⟨n, rfl⟩ : ∃ k, n = k + 1 := ⟨n - 1, by omega⟩
        exact value_front n openBrace _ (by decide)
      · obtain ⟨out, written, nonzero, ps, built, reads⟩ :=
          members_written d depth pairs empty fun pair member =>
          ⟨(each pair member).1, (each pair member).2.1,
            ih pair.2 (depth + 1) (each pair member).2.2⟩
        obtain ⟨spaces, unzeroed⟩ := indent_spaces dump (depth + 1) false
        have filled : pairs.isEmpty = false := by
          cases pairs with
          | nil => exact absurd rfl empty
          | cons => rfl
        rw [filled, if_neg Bool.false_ne_true, written]
        refine ⟨rfl, ?_, .object ps, ?_, fun n rest _ enough => ?_⟩
        · exact not_mem_append (by decide)
            (not_mem_append (not_mem_append unzeroed nonzero) (by decide))
        · rw [build, built [] distinct]
          rfl
        · obtain ⟨n, rfl⟩ : ∃ k, n = k + 1 := ⟨n - 1, by omega⟩
          have shape : (Dumped.andThen ([openBrace], true) (Dumped.andThen (Dumped.andThen
              (dumpIndent dump (depth + 1) false, true) (out, true)) ([closeBrace], true))).1 =
                openBrace :: (dumpIndent dump (depth + 1) false ++ (out ++ [closeBrace])) := by
            show [openBrace] ++ (dumpIndent dump (depth + 1) false ++ out ++ [closeBrace]) = _
            rw [List.append_assoc]
            rfl
          rw [shape] at enough ⊢
          simp only [List.length_cons, List.length_append, List.length_nil] at enough
          have read := reads n rest (by omega)
          have opened :
              (skip (dumpIndent dump (depth + 1) false ++ (out ++ closeBrace :: rest))).head? ≠
              some closeBrace := by
            rw [skip_spaces _ _ spaces]
            exact members_open read
          have split :
              openBrace :: (dumpIndent dump (depth + 1) false ++ (out ++ [closeBrace])) ++ rest =
              openBrace :: (dumpIndent dump (depth + 1) false ++ (out ++ closeBrace :: rest)) := by
            simp only [List.append_assoc, List.cons_append, List.nil_append]
          rw [split, ← List.nil_append (openBrace :: _), value_object n [] _ rfl opened,
            members_of_skip n (skip_spaces _ _ spaces), read]
          rfl

/-! ## Whole texts -/

theorem build_container {d : Nat} {w : Value} {v : JsonValue R}
    (built : build strtod load d w = some v) :
    isContainer w = jsonIsContainer v := by
  cases d with
  | zero => cases built
  | succ d =>
    cases w with
    | array items =>
      obtain ⟨_, _, rfl⟩ := Option.map_eq_some_iff.mp built
      rfl
    | object pairs =>
      obtain ⟨_, _, rfl⟩ := Option.map_eq_some_iff.mp built
      rfl
    | string s =>
      rw [build] at built
      split at built
      · cases built
      · cases built
        rfl
    | null =>
      cases built
      rfl
    | bool =>
      cases built
      rfl
    | number text =>
      have held : scalarValue strtod load (.number text) = some v := built
      rcases scalarValue_cases held with rfl | ⟨_, rfl⟩ | ⟨_, rfl⟩ | ⟨_, rfl⟩ <;> rfl

/-- Every value within the limits of the reader is dumped, and loading the text gives the
value back unless it is too long for the ints of the reader: for every indentation, every
way to write separators and escapes, and both ways to treat keys that come twice. -/
theorem dumps_then_loads (strtod : Bytes → Option R) (load : Flags) (dump : DumpFlags)
    (snprintf : R → Bytes) (v : JsonValue R) (numbers : Numbers strtod load snprintf)
    (whole : load.disableEofCheck = false) (fits : Fits load.allowNul maxDepth v)
    (top : jsonIsContainer v = true ∨ (dump.encodeAny = true ∧ load.decodeAny = true)) :
    ∃ text, jsonDumps dump snprintf v = some text ∧
      (text.length < intMax → ∃ error, parseJson strtod load text = some (some v, error)) := by
  obtain ⟨ok, nonzero, w, built, reads⟩ := value_written dump numbers maxDepth v 0 fits
  refine ⟨(doDump dump snprintf 0 v).1, ?_, fun counted => ?_⟩
  · have encoded : ¬ (!dump.encodeAny && !jsonIsContainer v) = true := by
      rcases top with container | ⟨encodes, _⟩
      · rw [container]
        simp
      · rw [encodes]
        simp
    rw [jsonDumps, if_neg encoded]
    dsimp only
    rw [ok, if_pos rfl, cString_of_plain _ fun b member zero => nonzero (zero ▸ member)]
  · have valued :=
      reads ((doDump dump snprintf 0 v).1.length + 1) [] (fun c t nothing => by cases nothing)
        (Nat.lt_succ_self _)
    rw [List.append_nil] at valued
    have wholeText : Library.JsonText.read (doDump dump snprintf 0 v).1 = some w := by
      rw [Library.JsonText.read, valued]
      rfl
    have held : buildText strtod load w = some v := by
      rw [buildText, build_container built, if_pos, built]
      rcases top with container | ⟨_, decodes⟩
      · rw [container, Bool.or_true]
      · rw [decodes, Bool.true_or]
    obtain ⟨error, given, _⟩ := parse_json_reads strtod load _ nonzero counted whole
    rw [wholeText, Option.bind_some, held] at given
    exact ⟨error, given⟩

/-- %.17g for the doubles 3, 0.5 and the one next to -10^25. -/
def threeReals : Fin 3 → Bytes
  | 0 => ascii "3"
  | 1 => ascii "0.5"
  | 2 => ascii "-1.0000000000000001e+25"

/-- strtod for these doubles. -/
def threeNumbers (text : Bytes) : Option (Fin 3) :=
  if decimalNumber text = (false, 3) then some 0
  else if decimalNumber text = (false, 1 / 2) then some 1
  else if decimalNumber text = (true, 10000000000000001 * 10 ^ 9) then some 2
  else none

theorem threeReals_text (x : Fin 3) : RealText (threeReals x) := by
  match x with
  | 0 =>
    have bytes : threeReals 0 = [0x33] := ascii_eq _
    rw [bytes]
    refine ⟨⟨[], [0x33], [], [], rfl, ?_, .inl rfl⟩, by decide⟩
    exact ⟨.inl rfl, by decide, by decide, by decide, .inl rfl, .inl rfl⟩
  | 1 =>
    have bytes : threeReals 1 = [0x30, 0x2E, 0x35] := ascii_eq _
    rw [bytes]
    refine ⟨⟨[], [0x30], [0x2E, 0x35], [], rfl, ?_, .inl rfl⟩, by decide⟩
    exact ⟨.inl rfl, by decide, by decide, by decide, .inr ⟨[0x35], rfl, by decide, by decide⟩,
      .inl rfl⟩
  | 2 =>
    have bytes : threeReals 2 =
        [0x2D, 0x31, 0x2E] ++ (List.replicate 15 0x30 ++ [0x31]) ++ [0x65, 0x2B, 0x32, 0x35] :=
      ascii_eq _
    rw [bytes]
    refine ⟨⟨[0x2D], [0x31], 0x2E :: (List.replicate 15 0x30 ++ [0x31]), [0x65, 0x2B, 0x32, 0x35],
      rfl, ?_, .inr ?_⟩, by decide⟩
    · exact ⟨.inr rfl, by decide, by decide, by decide,
        .inr ⟨List.replicate 15 0x30 ++ [0x31], rfl, by decide, by decide⟩,
        .inr ⟨[0x2B], [0x32, 0x35], rfl, .inr (.inl rfl), by decide, by decide⟩⟩
    · exact ⟨0x2B, [0x32, 0x35], rfl, .inl rfl, by decide, by decide⟩

/-- An array of a number, an object and a string that needs escapes. -/
def sampleValue : JsonValue (Fin 3) :=
  .array [.real 0, .object [(ascii "a", .real 2), (ascii "b", .integer (-7))],
    .string [0x0A, 0xC3, 0xA9]]

def sampleText : Bytes :=
  ascii "[3.0,\x7b\"a\":-1.0000000000000001e25,\"b\":-7\x7d,\"\\n\\u00E9\"]"

theorem sampleValue_fits : Fits false maxDepth sampleValue := by
  intro item member
  simp only [List.mem_cons, List.not_mem_nil, or_false] at member
  rcases member with rfl | rfl | rfl
  · trivial
  · refine ⟨by decide +kernel, fun pair inside => ?_⟩
    simp only [List.mem_cons, List.not_mem_nil, or_false] at inside
    rcases inside with rfl | rfl
    · exact ⟨by decide +kernel, by decide +kernel, trivial⟩
    · exact ⟨by decide +kernel, by decide +kernel, by decide, by decide⟩
  · exact ⟨by decide, .inr (by decide)⟩

theorem dumps_then_loads_array :
    jsonDumps ⟨0, true, true, false, false⟩ threeReals sampleValue = some sampleText ∧
      ∃ error, parseJson threeNumbers ⟨true, false, false, false, false⟩ sampleText =
        some (some sampleValue, error) := by
  have shown : jsonDumps ⟨0, true, true, false, false⟩ threeReals sampleValue =
    some sampleText := by decide +kernel
  obtain ⟨text, dumped, loads⟩ := dumps_then_loads threeNumbers ⟨true, false, false, false, false⟩
    ⟨0, true, true, false, false⟩ threeReals sampleValue
    ⟨rfl, threeReals_text, by decide +kernel,
      fun _ _ same => by rw [threeNumbers, threeNumbers, same]⟩ rfl
    sampleValue_fits (.inl rfl)
  obtain rfl := Option.some.inj (dumped.symm.trans shown)
  exact ⟨shown, loads (by decide +kernel)⟩

end CgminerT4.Guarantees.JsonRoundTrip
