import CgminerT4.Guarantees.JsonStream

/-!
# The tokens of jansson are the tokens of the text

A token that is read is the value that the standard has in front of the text, and
where the lexer gives up there is no such value, or what follows it ends no item.
-/
namespace CgminerT4.Guarantees.JsonReads
open Library.ByteString Library.JsonText Source.JsonUtf Source.JsonLoad

variable {R : Type}

/-! ## Loops over characters -/

theorem lexGetSave_of {lex lex' : Lexer R} {got : Got} (read : lexGet lex = (got, lex')) :
    lexGetSave lex = (got, { lex' with savedText := lex'.savedText ++ taken got }) := by
  unfold lexGetSave
  rw [read]
  cases got with
  | byte c => rfl
  | eof => simp only [taken, List.append_nil]
  | error => simp only [taken, List.append_nil]

/-- Reading a character into the saved text. -/
theorem lexGetSave_ready (lex : Lexer R) (s : Bytes) (ready : Ready lex.stream s) :
    ∃ got lex', lexGetSave lex = (got, lex') ∧ Stopped lex'.stream got s ∧
      lex'.savedText = lex.savedText ++ taken got ∧
      Kept lex lex' := by
  obtain ⟨got, lex', read, stopped, saved, kept⟩ := lexGet_ready lex s ready
  exact ⟨got, _, lexGetSave_of read, stopped, by rw [saved], kept⟩

/-- A character of seven bits that is looked for. -/
theorem Stopped.is {st : Stream} {got : Got} {s : Bytes} {p : UInt8 → Bool}
    (stopped : Stopped st got s) (small : ∀ c, p c = true → c < 0x80) (found : got.is p = true) :
    ∃ c t, got = .byte c ∧ p c = true ∧ s = c :: t ∧ Ready st t := by
  cases got with
  | byte c =>
    obtain ⟨t, split, ready⟩ := stopped.ascii (small c found)
    exact ⟨c, t, rfl, found, split, ready⟩
  | eof => cases found
  | error => cases found

theorem Stopped.isNot {st : Stream} {got : Got} {s : Bytes} {p : UInt8 → Bool}
    (stopped : Stopped st got s) (small : ∀ c, p c = true → c < 0x80)
    (missed : got.is p = false) : s.takeWhile p = [] ∧ s.dropWhile p = s := by
  cases s with
  | nil => exact ⟨rfl, rfl⟩
  | cons c t =>
    have other : ¬ p c = true := by
      intro found
      rw [stopped.got (small c found)] at missed
      exact Bool.false_ne_true (missed.symm.trans found)
    exact ⟨List.takeWhile_cons_of_neg other, List.dropWhile_cons_of_neg other⟩

theorem scanWhile_ready (p : UInt8 → Bool) (small : ∀ c, p c = true → c < 0x80) (fuel : Nat)
    (lex : Lexer R) (s : Bytes) (ready : Ready lex.stream s)
    (enough : (s.takeWhile p).length < fuel) :
    ∃ got lex', scanWhile p fuel lex = (got, lex') ∧ Stopped lex'.stream got (s.dropWhile p) ∧
      lex'.savedText = lex.savedText ++ s.takeWhile p ++ taken got ∧ Kept lex lex' := by
  induction fuel generalizing lex s with
  | zero => exact absurd enough (Nat.not_lt_zero _)
  | succ fuel ih =>
    obtain ⟨got, lex1, read, stopped, saved, kept⟩ := lexGetSave_ready lex s ready
    rw [scanWhile, read]
    dsimp only
    cases found : got.is p with
    | true =>
      obtain ⟨c, t, rfl, holds, rfl, ready'⟩ := stopped.is small found
      rw [List.takeWhile_cons_of_pos holds] at enough
      obtain ⟨got', lex2, scanned, stopped', saved', kept'⟩ :=
        ih lex1 t ready' (by rw [List.length_cons] at enough; omega)
      rw [if_pos rfl, List.takeWhile_cons_of_pos holds, List.dropWhile_cons_of_pos holds]
      refine ⟨got', lex2, scanned, stopped', ?_, kept.trans kept'⟩
      rw [saved', saved, taken]
      simp only [List.append_assoc, List.cons_append, List.nil_append]
    | false =>
      obtain ⟨nothing, unread⟩ := stopped.isNot small found
      rw [if_neg Bool.false_ne_true, nothing, unread, List.append_nil]
      exact ⟨got, lex1, rfl, stopped, saved, kept⟩

/-- The bound on the loops is no limit. -/
theorem takeWhile_left (p : UInt8 → Bool) (small : ∀ c, p c = true → c < 0x80) {st : Stream}
    {s : Bytes} (ready : Ready st s) : (s.takeWhile p).length ≤ st.left := by
  have shorter := (List.takeWhile_sublist p (l := s)).length_le
  obtain ⟨_, ⟨_, _, data⟩ | ⟨_, pos, _, split⟩ | ⟨_, rfl⟩ | ⟨_, broken⟩⟩ := ready
  · rw [Stream.left, data]
    omega
  · rw [split, List.length_append] at shorter
    rw [Stream.left, pos, split]
    omega
  · exact Nat.zero_le _
  · cases s with
    | nil => exact Nat.zero_le _
    | cons c t =>
      have other : ¬ p c = true := fun found => broken.2 [c] t (.one c (small c found)) rfl
      rw [List.takeWhile_cons_of_neg other]
      exact Nat.zero_le _

theorem scanAll_ready (p : UInt8 → Bool) (small : ∀ c, p c = true → c < 0x80) (lex : Lexer R)
    (s : Bytes) (ready : Ready lex.stream s) :
    ∃ got lex', scanAll p lex = (got, lex') ∧ Stopped lex'.stream got (s.dropWhile p) ∧
      lex'.savedText = lex.savedText ++ s.takeWhile p ++ taken got ∧ Kept lex lex' :=
  scanWhile_ready p small _ lex s ready (Nat.lt_succ_of_le (takeWhile_left p small ready))

theorem isSpace_small (c : UInt8) (found : isSpace c = true) : c < 0x80 := by
  simp only [isSpace, Bool.or_eq_true, decide_eq_true_eq] at found
  rcases found with ((rfl | rfl) | rfl) | rfl <;> decide

theorem skipSpaces_ready (fuel : Nat) (lex : Lexer R) (s : Bytes) (ready : Ready lex.stream s)
    (enough : (s.takeWhile space).length < fuel) :
    ∃ got lex', skipSpaces fuel lex = (got, lex') ∧ Stopped lex'.stream got (skip s) ∧
      lex'.savedText = lex.savedText ∧
      Kept lex lex' := by
  induction fuel generalizing lex s with
  | zero => exact absurd enough (Nat.not_lt_zero _)
  | succ fuel ih =>
    obtain ⟨got, lex1, read, stopped, saved, kept⟩ := lexGet_ready lex s ready
    rw [skipSpaces, read]
    dsimp only
    cases found : got.is isSpace with
    | true =>
      obtain ⟨c, t, rfl, holds, rfl, ready'⟩ := stopped.is isSpace_small found
      have spaced : space c = true := holds
      rw [List.takeWhile_cons_of_pos spaced] at enough
      obtain ⟨got', lex2, scanned, stopped', saved', kept'⟩ :=
        ih lex1 t ready' (by rw [List.length_cons] at enough; omega)
      rw [if_pos rfl, skip, List.dropWhile_cons_of_pos spaced]
      exact ⟨got', lex2, scanned, stopped', saved'.trans saved, kept.trans kept'⟩
    | false =>
      have unread : skip s = s := (stopped.isNot isSpace_small found).2
      rw [if_neg Bool.false_ne_true, unread]
      exact ⟨got, lex1, rfl, stopped, saved, kept⟩

/-- The saved text without the character that is given back. -/
theorem ungetUnsave_spec {lex : Lexer R} {got : Got} {s x : Bytes}
    (stopped : Stopped lex.stream got s) (saved : lex.savedText = x ++ taken got) :
    Ready (lexUngetUnsave lex got).stream s ∧ (lexUngetUnsave lex got).savedText = x ∧
      Kept lex (lexUngetUnsave lex got) := by
  have ready : Ready (lexUnget lex got).stream s := stopped.unget
  cases got with
  | byte c =>
    refine ⟨ready, ?_, rfl, rfl⟩
    rw [lexUngetUnsave, saved, taken, List.dropLast_concat]
  | eof =>
    rw [taken, List.append_nil] at saved
    exact ⟨ready, saved, rfl, rfl⟩
  | error =>
    rw [taken, List.append_nil] at saved
    exact ⟨ready, saved, rfl, rfl⟩

/-! ## Numbers -/

theorem isDigit_small (c : UInt8) (found : isDigit c = true) : c < 0x80 := by
  simp only [isDigit, Bool.and_eq_true, decide_eq_true_eq] at found
  exact UInt8.lt_of_le_of_lt found.2 (by decide)

/-- What was read in front of digits, and the digits. -/
theorem digits_read {lex : Lexer R} {got : Got} {s x : Bytes} (stopped : Stopped lex.stream got s)
    (saved : lex.savedText = x ++ taken got) :
    (got.is isDigit = false ∧ digits s = none) ∨
      (got.is isDigit = true ∧ ∃ t rest got' lex', digits s = some (t, rest) ∧
        scanAll isDigit lex = (got', lex') ∧
        Stopped lex'.stream got' rest ∧ lex'.savedText = x ++ t ++ taken got' ∧ Kept lex lex') := by
  cases found : got.is isDigit with
  | false =>
    have nothing : s.takeWhile digit = [] := (stopped.isNot isDigit_small found).1
    exact .inl ⟨rfl, if_pos nothing⟩
  | true =>
    obtain ⟨c, t, rfl, holds, rfl, ready⟩ := stopped.is isDigit_small found
    obtain ⟨got', lex', scanned, stopped', saved', kept⟩ :=
      scanAll_ready isDigit isDigit_small lex t ready
    have firstDigit : digit c = true := holds
    refine .inr ⟨rfl, c :: t.takeWhile digit, t.dropWhile digit, got', lex', ?_, scanned,
      stopped', ?_, kept⟩
    · rw [digits, List.takeWhile_cons_of_pos firstDigit, List.dropWhile_cons_of_pos firstDigit,
        if_neg (List.cons_ne_nil _ _)]
    · rw [saved', saved, taken, List.append_assoc x]
      rfl

theorem optional_some {starts : UInt8 → Bool} {part : Bytes → Option (Bytes × Bytes)} {c : UInt8}
    {t : Bytes} (found : starts c = true) :
    Library.JsonText.optional starts part (c :: t) = (part t).map (prepend [c]) := if_pos found

/-- A part of a number is read: the character behind it, or none where the part is incomplete. -/
def PartRead (lex : Lexer R) (x : Bytes) (out : Option Got × Lexer R) :
    Option (Bytes × Bytes) → Prop
  | none => out.1 = none ∧ Kept lex out.2
  | some (t, rest) =>
    ∃ got, out.1 = some got ∧ Stopped out.2.stream got rest ∧
      out.2.savedText = x ++ t ++ taken got ∧
      Kept lex out.2

/-- A character that was not read is not there. -/
theorem Stopped.missing {st : Stream} {got : Got} {s : Bytes} {p : UInt8 → Bool}
    (stopped : Stopped st got s) (small : ∀ c, p c = true → c < 0x80)
    (missed : got.is p = false) : ∀ c t, s = c :: t → p c = false := by
  rintro c t rfl
  cases found : p c with
  | false => rfl
  | true =>
    rw [stopped.got (small c found)] at missed
    exact found.symm.trans missed

theorem scanFraction_read {lex : Lexer R} {got : Got} {s x : Bytes}
    (stopped : Stopped lex.stream got s) (saved : lex.savedText = x ++ taken got) :
    PartRead lex x (scanFraction got lex) (Library.JsonText.optional (· = 0x2e) digits s) := by
  unfold scanFraction
  split
  · next point =>
    subst point
    obtain ⟨t, rfl, ready⟩ := stopped.ascii (by decide)
    obtain ⟨got1, lex1, read, stopped1, saved1, kept1⟩ := lexGet_ready lex t ready
    rw [optional_some (decide_eq_true rfl), read]
    cases got1 with
    | byte d =>
      dsimp only
      have savedD : (lexSave lex1 d).savedText = (x ++ [0x2E]) ++ taken (.byte d) := by
        rw [lexSave, saved1, saved]
        rfl
      have stoppedD : Stopped (lexSave lex1 d).stream (.byte d) t := stopped1
      rcases digits_read stoppedD savedD with
        ⟨missed, nothing⟩ | ⟨found, t', rest, got', lex', digitsRead, scanned, stopped',
          saved', kept'⟩
      · rw [if_neg (by rw [show isDigit d = false from missed]; decide), nothing]
        exact ⟨rfl, kept1⟩
      · rw [if_pos (show isDigit d = true from found), digitsRead, scanned]
        refine ⟨got', rfl, stopped', ?_, kept1.trans kept'⟩
        rw [saved', List.append_assoc x]
    | eof =>
      cases stopped1
      exact ⟨rfl, kept1⟩
    | error =>
      rcases digits_read (x := x ++ [0x2E]) stopped1 (by rw [saved1, saved]; simp [taken]) with ⟨_,
        nothing⟩ | ⟨found, _⟩
      · rw [nothing]
        exact ⟨rfl, kept1⟩
      · cases found
  · next other =>
    have missing :=
      stopped.missing (p := (· = 0x2e)) (fun c found => by rw [of_decide_eq_true found]; decide) (by
      cases got with
      | byte c => exact decide_eq_false fun point => other (congrArg Got.byte point)
      | eof => rfl
      | error => rfl)
    rw [optional_absent missing]
    exact ⟨got, rfl, stopped, by rw [saved, List.append_nil], rfl, rfl⟩

theorem PartRead.front {lex lex1 : Lexer R} {x e : Bytes} {out : Option Got × Lexer R}
    {read : Option (Bytes × Bytes)} (part : PartRead lex1 (x ++ e) out read)
    (kept : Kept lex lex1) : PartRead lex x out (read.map (prepend e)) := by
  cases read with
  | none => exact ⟨part.1, kept.trans part.2⟩
  | some read =>
    obtain ⟨got, given, stopped, saved, kept'⟩ := part
    exact ⟨got, given, stopped, by rw [saved, List.append_assoc x], kept.trans kept'⟩

/-- Digits that have to be there. -/
theorem scanDigits_read {lex : Lexer R} {got : Got} {s x : Bytes}
    (stopped : Stopped lex.stream got s) (saved : lex.savedText = x ++ taken got) :
    PartRead lex x
      (if got.is isDigit then
        match scanAll isDigit lex with
        | (c, lex) => (some c, lex)
      else (none, lexUngetUnsave lex got)) (digits s) := by
  rcases digits_read stopped saved with ⟨missed, nothing⟩ | ⟨found, t, rest, got', lex', digitsRead,
    scanned, stopped', saved', kept⟩
  · rw [missed, nothing, if_neg Bool.false_ne_true]
    exact ⟨rfl, (ungetUnsave_spec stopped saved).2.2⟩
  · rw [found, digitsRead, scanned, if_pos rfl]
    exact ⟨got', rfl, stopped', saved', kept⟩

theorem scanExponent_read {lex : Lexer R} {got : Got} {s x : Bytes}
    (stopped : Stopped lex.stream got s) (saved : lex.savedText = x ++ taken got) :
    PartRead lex x (scanExponent got lex)
      (Library.JsonText.optional (fun c => c = 0x65 || c = 0x45) exponent s) := by
  unfold scanExponent
  split
  · next letter =>
    obtain ⟨c, rfl, small, starts⟩ : ∃ c, got = .byte c ∧ c < 0x80 ∧
        (decide (c = 0x65) || decide (c = 0x45)) = true := by
      rcases letter with rfl | rfl
      · exact ⟨0x45, rfl, by decide, by decide⟩
      · exact ⟨0x65, rfl, by decide, by decide⟩
    obtain ⟨t, rfl, ready⟩ := stopped.ascii small
    rw [optional_some starts]
    obtain ⟨got1, lex1, read, stopped1, saved1, kept1⟩ := lexGetSave_ready lex t ready
    rw [read]
    refine PartRead.front ?_ kept1
    rw [saved, taken] at saved1
    dsimp only
    split
    · next sign =>
      obtain ⟨g, rfl, small1, signs⟩ : ∃ g, got1 = .byte g ∧ g < 0x80 ∧
          (decide (g = 0x2b) || decide (g = 0x2d)) = true := by
        rcases sign with rfl | rfl
        · exact ⟨0x2B, rfl, by decide, by decide⟩
        · exact ⟨0x2D, rfl, by decide, by decide⟩
      obtain ⟨t1, rfl, ready1⟩ := stopped1.ascii small1
      obtain ⟨got2, lex2, read2, stopped2, saved2, kept2⟩ := lexGetSave_ready lex1 t1 ready1
      rw [saved1, taken] at saved2
      have signed : exponent (g :: t1) = (digits t1).map (prepend [g]) := if_pos signs
      rw [read2, signed]
      exact PartRead.front (scanDigits_read stopped2 saved2) kept2
    · next other =>
      have plain : exponent t = digits t := by
        cases t with
        | nil => rfl
        | cons g t1 =>
          refine if_neg fun signs => other ?_
          simp only [Bool.or_eq_true, decide_eq_true_eq] at signs
          rcases signs with rfl | rfl
          · exact .inl (stopped1.got (by decide))
          · exact .inr (stopped1.got (by decide))
      rw [plain]
      exact scanDigits_read stopped1 saved1
  · next other =>
    have missing : ∀ c t, s = c :: t → (decide (c = 0x65) || decide (c = 0x45)) = false := by
      rintro c t rfl
      rw [Bool.or_eq_false_iff, decide_eq_false_iff_not, decide_eq_false_iff_not]
      constructor
      · rintro rfl
        exact other (.inr (stopped.got (by decide)))
      · rintro rfl
        exact other (.inl (stopped.got (by decide)))
    rw [optional_absent missing]
    exact ⟨got, rfl, stopped, by rw [saved, List.append_nil], rfl, rfl⟩

variable (strtod : Bytes → Option R) (flags : Flags)

/-- The text has neither a fraction nor an exponent. -/
def integral (text : Bytes) : Bool := text.all fun c => c != 0x2E && c != 0x45 && c != 0x65

theorem integral_iff (text : Bytes) :
    integral text = true ↔ ∀ c ∈ text, c ≠ 0x2E ∧ c ≠ 0x45 ∧ c ≠ 0x65 := by
  simp only [integral, List.all_eq_true, Bool.and_eq_true, bne_iff_ne, and_assoc]

/-- A number: an integer of 64 bits, or a real where it has a fraction or an exponent or
every number is real. -/
def numberValue (text : Bytes) : Option (JsonValue R) :=
  if !flags.decodeIntAsReal && integral text then
    if -2 ^ 63 ≤ decimalValue text ∧
      decimalValue text < 2 ^ 63 then some (.integer (decimalValue text)) else none
  else (strtod text).map .real

/-- What follows ends no item. -/
def Stray (rest : Bytes) : Prop :=
  ∃ c t, skip rest = c :: t ∧ c ≠ comma ∧ c ≠ closeBracket ∧ c ≠ closeBrace

/-- The token of a value that is no array and no object. -/
def tokenOf : JsonValue R → Token R
  | .null => .null
  | .bool true => .true
  | .bool false => .false
  | .integer value => .integer value
  | .real value => .real value
  | .string value => .string value
  | _ => .invalid

/-- The token of a value is there and the stream is behind it, or the lexer gave up. -/
def Lexed (lex : Lexer R) (value : Option (JsonValue R)) (rest : Bytes) : Prop :=
  (∃ v, value = some v ∧ lex.token = tokenOf v ∧ Ready lex.stream rest) ∨
    (lex.token = .invalid ∧ (value = none ∨ Stray rest))

def NumberLexed (lex : Lexer R) : Option (Bytes × Bytes) → Prop
  | none => lex.token = .invalid
  | some (text, rest) => Lexed lex (numberValue strtod flags text) rest

/-- A number behind its whole part. -/
def numberBehind (x s : Bytes) : Option (Bytes × Bytes) :=
  (Library.JsonText.optional (· = 0x2e) digits s).bind fun fraction =>
    (Library.JsonText.optional (fun c => c = 0x65 || c = 0x45) exponent fraction.2).bind
        fun power =>
      some (x ++ fraction.1 ++ power.1, power.2)

variable {strtod flags}

theorem realToken_lexed {lex : Lexer R} {got : Got} {rest text : Bytes}
    (stopped : Stopped lex.stream got rest) (saved : lex.savedText = text ++ taken got)
    (idle : lex.token = .invalid) (real : numberValue strtod flags text = (strtod text).map .real) :
    Lexed (realToken strtod (lexUngetUnsave lex got)) (numberValue strtod flags text) rest ∧
      (realToken strtod (lexUngetUnsave lex got)).depth = lex.depth := by
  obtain ⟨ready, spelled, depth, token⟩ := ungetUnsave_spec stopped saved
  unfold realToken
  rw [spelled, real]
  cases strtod text with
  | some value => exact ⟨.inl ⟨_, rfl, rfl, ready⟩, depth⟩
  | none =>
    obtain ⟨_, _, kept⟩ := errorSet_frame (lexUngetUnsave lex got) (ascii "real number overflow")
    exact ⟨.inr ⟨kept.2.trans (token.trans idle), .inl rfl⟩, kept.1.trans depth⟩

theorem numberValue_integral {text : Bytes} (asInteger : flags.decodeIntAsReal = false)
    (plain : ∀ c ∈ text, c ≠ 0x2E ∧ c ≠ 0x45 ∧ c ≠ 0x65) :
    numberValue strtod flags text =
      if -2 ^ 63 ≤ decimalValue text ∧
        decimalValue text < 2 ^ 63 then some (.integer (decimalValue text)) else none := by
  refine if_pos ?_
  rw [asInteger, (integral_iff text).mpr plain]
  rfl

theorem integerToken_lexed {lex : Lexer R} {got : Got} {rest text : Bytes}
    (stopped : Stopped lex.stream got rest) (saved : lex.savedText = text ++ taken got)
    (idle : lex.token = .invalid) (asInteger : flags.decodeIntAsReal = false)
    (plain : ∀ c ∈ text, c ≠ 0x2E ∧ c ≠ 0x45 ∧ c ≠ 0x65) :
    Lexed (integerToken (lexUngetUnsave lex got)) (numberValue strtod flags text) rest ∧
      (integerToken (lexUngetUnsave lex got)).depth = lex.depth := by
  obtain ⟨ready, spelled, depth, token⟩ := ungetUnsave_spec stopped saved
  unfold integerToken
  rw [spelled, numberValue_integral asInteger plain]
  dsimp only
  split
  · exact ⟨.inl ⟨_, rfl, rfl, ready⟩, depth⟩
  · obtain ⟨_, _, kept⟩ := errorSet_frame (lexUngetUnsave lex got)
      (if decimalValue text < 0 then ascii "too big negative integer" else ascii "too big integer")
    exact ⟨.inr ⟨kept.2.trans (token.trans idle), .inl rfl⟩, kept.1.trans depth⟩

theorem numberValue_real {text : Bytes}
    (marked : flags.decodeIntAsReal = false → ∃ c ∈ text, c = 0x2E ∨ c = 0x45 ∨ c = 0x65) :
    numberValue strtod flags text = (strtod text).map .real := by
  refine if_neg ?_
  rw [Bool.and_eq_true, Bool.not_eq_true']
  rintro ⟨asInteger, plain⟩
  obtain ⟨c, member, mark⟩ := marked asInteger
  obtain ⟨noPoint, noUpper, noLower⟩ := (integral_iff text).mp plain c member
  rcases mark with point | upper | lower
  · exact noPoint point
  · exact noUpper upper
  · exact noLower lower

variable (strtod flags)

theorem scanTail_lexed {lex : Lexer R} {got : Got} {s x : Bytes}
    (stopped : Stopped lex.stream got s) (saved : lex.savedText = x ++ taken got)
    (idle : lex.token = .invalid) (plain : ∀ c ∈ x, c ≠ 0x2E ∧ c ≠ 0x45 ∧ c ≠ 0x65) :
    NumberLexed strtod flags (scanTail strtod flags got lex) (numberBehind x s) ∧
      (scanTail strtod flags got lex).depth = lex.depth := by
  unfold scanTail numberBehind
  have point (other : got ≠ .byte 0x2E) : Library.JsonText.optional (· = 0x2e) digits s =
      some ([], s) := by
    refine optional_absent ?_
    rintro c t rfl
    refine decide_eq_false ?_
    rintro rfl
    exact other (stopped.got (by decide))
  split
  · next integral =>
    obtain ⟨asInteger, noPoint, noUpper, noLower⟩ := integral
    have noPower : ∀ c t, s = c :: t → (decide (c = 0x65) || decide (c = 0x45)) = false := by
      rintro c t rfl
      rw [Bool.or_eq_false_iff, decide_eq_false_iff_not, decide_eq_false_iff_not]
      constructor
      · rintro rfl
        exact noLower (stopped.got (by decide))
      · rintro rfl
        exact noUpper (stopped.got (by decide))
    rw [point noPoint, Option.bind_some, optional_absent noPower, Option.bind_some, List.append_nil,
      List.append_nil]
    exact integerToken_lexed stopped saved idle (by simpa using asInteger) plain
  · next real =>
    have fraction := scanFraction_read stopped saved
    cases split1 : Library.JsonText.optional (· = 0x2e) digits s with
    | none =>
      rw [split1] at fraction
      obtain ⟨given, kept⟩ := fraction
      rcases scanned : scanFraction got lex with ⟨out, lex1⟩
      rw [scanned] at given kept
      cases given
      exact ⟨kept.2.trans idle, kept.1⟩
    | some read =>
      obtain ⟨f, rest1⟩ := read
      rw [split1] at fraction
      obtain ⟨got1, given, stopped1, saved1, kept1⟩ := fraction
      rcases scanned : scanFraction got lex with ⟨out, lex1⟩
      rw [scanned] at given stopped1 saved1 kept1
      cases given
      dsimp only at stopped1 saved1 kept1 ⊢
      have power := scanExponent_read stopped1 saved1
      rw [Option.bind_some]
      cases split2 : Library.JsonText.optional (fun c => c = 0x65 || c = 0x45) exponent rest1 with
      | none =>
        rw [split2] at power
        obtain ⟨given, kept2⟩ := power
        rcases scanned2 : scanExponent got1 lex1 with ⟨out, lex2⟩
        rw [scanned2] at given kept2
        cases given
        exact ⟨(kept1.trans kept2).2.trans idle, (kept1.trans kept2).1⟩
      | some read =>
        obtain ⟨p, rest2⟩ := read
        rw [split2] at power
        obtain ⟨got2, given, stopped2, saved2, kept2⟩ := power
        rcases scanned2 : scanExponent got1 lex1 with ⟨out, lex2⟩
        rw [scanned2] at given stopped2 saved2 kept2
        cases given
        have kept := kept1.trans kept2
        have marked : flags.decodeIntAsReal = false →
            ∃ c ∈ x ++ f ++ p, c = 0x2E ∨ c = 0x45 ∨ c = 0x65 := by
          intro asInteger
          by_cases isPoint : got = .byte 0x2E
          · subst isPoint
            obtain ⟨t, rfl, _⟩ := stopped.ascii (by decide)
            rw [optional_some (decide_eq_true rfl)] at split1
            obtain ⟨f', rfl, _⟩ := map_prepend split1
            exact ⟨0x2E, by simp, .inl rfl⟩
          · obtain ⟨rfl, rfl⟩ := Prod.mk.inj (Option.some.inj ((point isPoint).symm.trans split1))
            obtain ⟨c, rfl, small, starts⟩ :
                ∃ c, got = .byte c ∧ c < 0x80 ∧
                  (decide (c = 0x65) || decide (c = 0x45)) = true := by
              by_cases upper : got = .byte 0x45
              · exact ⟨0x45, upper, by decide, by decide⟩
              · by_cases lower : got = .byte 0x65
                · exact ⟨0x65, lower, by decide, by decide⟩
                · exact absurd ⟨by simp [asInteger], isPoint, upper, lower⟩ real
            obtain ⟨t, rfl, _⟩ := stopped.ascii small
            rw [optional_some starts] at split2
            obtain ⟨p', rfl, _⟩ := map_prepend split2
            simp only [Bool.or_eq_true, decide_eq_true_eq] at starts
            exact ⟨c, by simp, .inr starts.symm⟩
        obtain ⟨lexed, depth⟩ :=
          realToken_lexed stopped2 saved2 (kept.2.trans idle) (numberValue_real marked)
        exact ⟨lexed, depth.trans kept.1⟩

variable {strtod flags}

theorem digit_plain {c : UInt8} (found : digit c = true) : c ≠ 0x2E ∧ c ≠ 0x45 ∧ c ≠ 0x65 := by
  refine ⟨?_, ?_, ?_⟩ <;> rintro rfl <;> exact absurd found (by decide)

theorem digits_plain {s t rest : Bytes} (read : digits s = some (t, rest)) :
    ∀ c ∈ t, c ≠ 0x2E ∧ c ≠ 0x45 ∧ c ≠ 0x65 := by
  unfold digits at read
  split at read
  · cases read
  · cases read
    intro c member
    exact digit_plain (List.mem_takeWhile_imp member)

/-- A zero in front of digits is a number by itself, but nothing may go on behind it with a
digit. -/
theorem numberBehind_digit (x s : Bytes) (c : UInt8) (found : digit c = true) :
    numberBehind x (c :: s) = some (x, c :: s) ∧ Stray (c :: s) := by
  obtain ⟨noPoint, noUpper, noLower⟩ := digit_plain found
  have point : Library.JsonText.optional (· = 0x2e) digits (c :: s) = some ([], c :: s) :=
    optional_absent fun d t split => by
      cases split
      exact decide_eq_false noPoint
  have power : Library.JsonText.optional (fun c => c = 0x65 || c = 0x45) exponent (c :: s) =
      some ([], c :: s) :=
    optional_absent fun d t split => by
      cases split
      rw [Bool.or_eq_false_iff]
      exact ⟨decide_eq_false noLower, decide_eq_false noUpper⟩
  constructor
  · rw [numberBehind, point, Option.bind_some, power, Option.bind_some, List.append_nil,
      List.append_nil]
  · have solid : space c = false := by
      cases spaced : space c with
      | false => rfl
      | true =>
        simp only [space, Bool.or_eq_true, decide_eq_true_eq] at spaced
        rcases spaced with ((rfl | rfl) | rfl) | rfl <;> exact absurd found (by decide)
    refine ⟨c, s, skip_solid c s solid, ?_, ?_, ?_⟩ <;> rintro rfl <;>
      exact absurd found (by decide)

/-- A number behind its sign. -/
theorem scanWhole_lexed (strtod : Bytes → Option R) (flags : Flags) {lex : Lexer R} {got : Got}
    {s x : Bytes} (stopped : Stopped lex.stream got s) (saved : lex.savedText = x ++ taken got)
    (idle : lex.token = .invalid) (plain : ∀ c ∈ x, c ≠ 0x2E ∧ c ≠ 0x45 ∧ c ≠ 0x65)
    {out : Lexer R}
    (scanned : out =
      if got = .byte 0x30 then
        match lexGetSave lex with
        | (c, lex) => if c.is isDigit then lexUngetUnsave lex c else scanTail strtod flags c lex
      else if got.is isDigit then
        match scanAll isDigit lex with
        | (c, lex) => scanTail strtod flags c lex
      else lexUngetUnsave lex got) :
    NumberLexed strtod flags out ((whole s).bind fun front => numberBehind (x ++ front.1) front.2) ∧
      out.depth = lex.depth := by
  subst scanned
  split
  · next zero =>
    subst zero
    obtain ⟨t, rfl, ready⟩ := stopped.ascii (by decide)
    have front : whole (0x30 :: t) = some ([0x30], t) := rfl
    obtain ⟨got1, lex1, read, stopped1, saved1, kept1⟩ := lexGetSave_ready lex t ready
    rw [saved, taken] at saved1
    have plain' : ∀ c ∈ x ++ [0x30], c ≠ 0x2E ∧ c ≠ 0x45 ∧ c ≠ 0x65 := by
      intro c member
      rcases List.mem_append.mp member with before | zero
      · exact plain c before
      · rw [List.mem_singleton.mp zero]
        decide
    rw [front, Option.bind_some, read]
    dsimp only
    split
    · next found =>
      obtain ⟨d, t', rfl, holds, rfl, _⟩ := stopped1.is isDigit_small found
      obtain ⟨alone, stray⟩ := numberBehind_digit (x ++ [0x30]) t' d holds
      obtain ⟨_, _, kept2⟩ := ungetUnsave_spec stopped1 saved1
      rw [alone]
      exact ⟨.inr ⟨kept2.2.trans (kept1.2.trans idle), .inr stray⟩, kept2.1.trans kept1.1⟩
    · obtain ⟨lexed, depth⟩ :=
        scanTail_lexed strtod flags stopped1 saved1 (kept1.2.trans idle) plain'
      exact ⟨lexed, depth.trans kept1.1⟩
  · next other =>
    have front : whole s = digits s := by
      cases s with
      | nil => rfl
      | cons c t =>
        refine if_neg ?_
        rintro rfl
        exact other (stopped.got (by decide))
    rw [front]
    rcases digits_read stopped saved with
      ⟨missed, nothing⟩ | ⟨found, t, rest, got', lex', digitsRead, scanned, stopped', saved', kept⟩
    · rw [missed, nothing, if_neg Bool.false_ne_true]
      obtain ⟨_, _, kept⟩ := ungetUnsave_spec stopped saved
      exact ⟨kept.2.trans idle, kept.1⟩
    · rw [found, digitsRead, scanned, if_pos rfl, Option.bind_some]
      have plain' : ∀ c ∈ x ++ t, c ≠ 0x2E ∧ c ≠ 0x45 ∧ c ≠ 0x65 := by
        intro c member
        rcases List.mem_append.mp member with before | inDigits
        · exact plain c before
        · exact digits_plain digitsRead c inDigits
      obtain ⟨lexed, depth⟩ :=
        scanTail_lexed strtod flags stopped' saved' (kept.2.trans idle) plain'
      exact ⟨lexed, depth.trans kept.1⟩

theorem number_behind (s : Bytes) :
    number s = (numberFront s).bind fun front => numberBehind front.1 front.2 := number_eq s

/-- lex_scan_number reads the number of the text, or gives up where it is none. -/
theorem lexScanNumber_lexed (lex : Lexer R) (c : UInt8) (t : Bytes)
    (ready : Stopped lex.stream (.byte c) (c :: t)) (saved : lex.savedText = [c]) :
    NumberLexed strtod flags (lexScanNumber strtod flags c lex) (number (c :: t)) ∧
      (lexScanNumber strtod flags c lex).depth = lex.depth := by
  unfold lexScanNumber
  rw [number_behind, numberFront]
  dsimp only
  by_cases minus : c = 0x2D
  · subst minus
    obtain ⟨t', split, behind⟩ := ready.ascii (by decide)
    obtain rfl : t = t' := (List.cons.inj split).2
    obtain ⟨got1, lex1, read, stopped1, saved1, kept1⟩ :=
      lexGetSave_ready { lex with token := .invalid } t behind
    rw [if_pos rfl, if_pos rfl, read, Option.bind_map]
    have saved2 : lex1.savedText = [0x2D] ++ taken got1 := by rw [saved1, saved]
    obtain ⟨lexed, depth⟩ := scanWhole_lexed strtod flags stopped1 saved2 kept1.2
      (fun c member => by rw [List.mem_singleton.mp member]; decide) rfl
    exact ⟨lexed, depth.trans kept1.1⟩
  · rw [if_neg minus, if_neg minus]
    have stopped :
      Stopped ({ lex with token := .invalid } : Lexer R).stream (.byte c) (c :: t) := ready
    exact scanWhole_lexed strtod flags (x := []) stopped saved rfl
      (fun c member => absurd member List.not_mem_nil) rfl

end CgminerT4.Guarantees.JsonReads
