import CgminerT4.Guarantees.JsonLexer

/-!
# The strings of jansson

The lexer reads a string twice: the first loop finds its end and checks the form of
the escapes, the second one decodes them. Together they read the characters of the
text.
-/
namespace CgminerT4.Guarantees.JsonReads
open Library.ByteString Library.JsonText Source.JsonUtf Source.JsonLoad

variable {R : Type}

/-- Characters that need no escape are kept. -/
theorem unescape_plain (e p : Bytes) (unescaped : plain e) :
    unescape (e ++ p) = (unescape p).map (e ++ ·) := by
  induction e with
  | nil =>
    rw [List.nil_append]
    cases unescape p <;> rfl
  | cons c e ih =>
    obtain ⟨closes, escapes, _⟩ := unescaped c List.mem_cons_self
    rw [List.cons_append, unescape.eq_def]
    simp only [if_neg closes, if_neg escapes]
    rw [ih fun d member => unescaped d (List.mem_cons_of_mem c member)]
    cases unescape p <;> rfl

/-! ## What stands at the front -/

/-- A text begins with one character. -/
theorem char_prefix {e e' a b : Bytes} (char : IsChar e) (char' : IsChar e')
    (same : e ++ a = e' ++ b) : e = e' ∧ a = b := by
  obtain ⟨u, tail, rfl, _⟩ := char.parts
  obtain ⟨u', tail', rfl, _⟩ := char'.parts
  obtain rfl : u = u' := (List.cons.inj same).1
  have length := (IsChar.first char rfl).symm.trans (IsChar.first char' rfl)
  exact List.append_inj same length

theorem Escape.front {k k' a b : Bytes} (escape : Escape k) (escape' : Escape k')
    (same : k ++ a = k' ++ b) :
    k = k' ∧ a = b := by
  refine List.append_inj same ?_
  cases escape with
  | one c e simple =>
    cases escape' with
    | one => rfl
    | unit =>
      obtain rfl : c = 0x75 := (List.cons.inj same).1
      exact absurd rfl (plainEscape_ne simple)
  | unit =>
    cases escape' with
    | one c e simple =>
      obtain rfl : 0x75 = c := (List.cons.inj same).1
      exact absurd rfl (plainEscape_ne simple)
    | unit => rfl

theorem closes_char {e t : Bytes} (char : IsChar e) (unescaped : plain e)
    (closes : Closes (e ++ t)) : Closes t := by
  obtain ⟨r, rest, raw, same⟩ := closes
  obtain ⟨a, tail, rfl, _⟩ := char.parts
  have first := unescaped a List.mem_cons_self
  cases raw with
  | nil => exact absurd (List.cons.inj same).1 first.1
  | char e' r char' unescaped' raw' =>
    rw [List.append_assoc] at same
    obtain ⟨_, rfl⟩ := char_prefix char char' same
    exact ⟨r, rest, raw', rfl⟩
  | escape k r => exact absurd (List.cons.inj same).1 first.2.1

theorem closes_escape {t : Bytes} (closes : Closes (backslash :: t)) :
    ∃ k t', Escape k ∧ t = k ++ t' ∧ Closes t' := by
  obtain ⟨r, rest, raw, same⟩ := closes
  cases raw with
  | nil => exact absurd (List.cons.inj same).1 (by decide)
  | char e r char unescaped =>
    obtain ⟨a, tail, rfl, _⟩ := char.parts
    exact absurd (List.cons.inj same).1.symm (unescaped a List.mem_cons_self).2.1
  | escape k r escape raw' =>
    refine ⟨k, r ++ quote :: rest, escape, ?_, r, rest, raw', rfl⟩
    rw [List.cons_append, List.append_assoc] at same
    exact (List.cons.inj same).2

/-- What the string may not go on with. -/
theorem not_closes {s : Bytes}
    (refused : s = [] ∨ (∃ c t, s = c :: t ∧ c < 0x20) ∨ Broken s) : ¬ Closes s := by
  rintro ⟨r, rest, raw, rfl⟩
  cases raw with
  | nil =>
    rcases refused with none | ⟨c, t, same, control⟩ | broken
    · cases none
    · cases same
      exact absurd control (by decide)
    · exact broken.2 [quote] rest (.one quote (by decide)) rfl
  | char e r char unescaped =>
    obtain ⟨a, tail, rfl, _⟩ := char.parts
    rcases refused with none | ⟨c, t, same, control⟩ | broken
    · cases none
    · obtain rfl := (List.cons.inj same).1
      exact (unescaped a List.mem_cons_self).2.2 control
    · exact broken.2 (a :: tail) (r ++ quote :: rest) char (by rw [List.append_assoc])
  | escape k r =>
    rcases refused with none | ⟨c, t, same, control⟩ | broken
    · cases none
    · cases same
      exact absurd control (by decide)
    · exact broken.2 [backslash] (k ++ r ++ quote :: rest) (.one backslash (by decide)) rfl

/-! ## The first loop -/

/-- What was looked for is read, with a character behind it, or it is not there. -/
def Found (lex : Lexer R) (s : Bytes) (form : Bytes → Prop) (out : Option Got × Lexer R) : Prop :=
  Kept lex out.2 ∧
    ((∃ k t got, form k ∧ s = k ++ t ∧ out.1 = some got ∧ Stopped out.2.stream got t ∧
        out.2.savedText = lex.savedText ++ k ++ taken got) ∨
      (out.1 = none ∧ ∀ k t, form k → s ≠ k ++ t))

theorem isXdigit_small (c : UInt8) (found : isXdigit c = true) : c < 0x80 := by
  simp only [isXdigit, isDigit, Bool.or_eq_true, Bool.and_eq_true, decide_eq_true_eq] at found
  rcases found with (⟨_, high⟩ | ⟨_, high⟩) | ⟨_, high⟩ <;>
    exact UInt8.lt_of_le_of_lt high (by decide)

theorem scanHex_read (n : Nat) (lex : Lexer R) (s : Bytes) (ready : Ready lex.stream s) :
    Found lex s (fun h => h.length = n ∧ ∀ c ∈ h, isXdigit c = true) (scanHex n lex) := by
  induction n generalizing lex s with
  | zero =>
    obtain ⟨got, lex', read, stopped, saved, kept⟩ := lexGetSave_ready lex s ready
    rw [scanHex, read]
    exact ⟨kept, .inl ⟨[], s, got, ⟨rfl, fun c member => absurd member List.not_mem_nil⟩,
      rfl, rfl, stopped,
      by rw [saved, List.append_nil]⟩⟩
  | succ n ih =>
    obtain ⟨got, lex', read, stopped, saved, kept⟩ := lexGetSave_ready lex s ready
    rw [scanHex, read]
    dsimp only
    cases found : got.is isXdigit with
    | true =>
      obtain ⟨c, t, rfl, holds, rfl, ready'⟩ := stopped.is isXdigit_small found
      rw [if_pos rfl]
      obtain ⟨kept', ⟨h, t', got', ⟨length, allHex⟩, rfl, given, stopped', saved'⟩ | ⟨refused,
        missing⟩⟩ := ih lex' t ready'
      · refine ⟨kept.trans kept',
          .inl ⟨c :: h, t', got', ⟨by rw [List.length_cons, length], ?_⟩, rfl, given, stopped', ?_⟩⟩
        · intro d member
          rcases List.mem_cons.mp member with rfl | behind
          · exact holds
          · exact allHex d behind
        · rw [saved', saved, taken, List.append_assoc lex.savedText]
          rfl
      · refine ⟨kept.trans kept', .inr ⟨refused, ?_⟩⟩
        rintro (_ | ⟨d, h⟩) t' ⟨length, allHex⟩ same
        · cases length
        · exact missing h t' ⟨Nat.succ.inj length,
            fun x member => allHex x (List.mem_cons_of_mem d member)⟩
            (List.cons.inj same).2
    | false =>
      rw [if_neg Bool.false_ne_true]
      refine ⟨kept, .inr ⟨rfl, ?_⟩⟩
      rintro (_ | ⟨d, h⟩) t ⟨length, allHex⟩ same
      · cases length
      · have other := stopped.missing isXdigit_small found d (h ++ t) same
        rw [allHex d List.mem_cons_self] at other
        cases other

theorem hexValue_xdigit (c : UInt8) : isXdigit c = true ↔ ∃ n, hexValue c = some n := by
  unfold isXdigit isDigit hexValue
  cases decide (0x30 ≤ c) && decide (c ≤ 0x39)
  · cases decide (0x61 ≤ c) && decide (c ≤ 0x66)
    · cases decide (0x41 ≤ c) && decide (c ≤ 0x46) <;> simp
    · simp
  · simp

theorem codeUnit_of_values {a b c d : UInt8} {w x y z : Nat} (first : hexValue a = some w)
    (second : hexValue b = some x) (third : hexValue c = some y) (fourth : hexValue d = some z) :
    codeUnit a b c d = some (((w * 16 + x) * 16 + y) * 16 + z) := by
  rw [codeUnit, first, second, third, fourth]
  rfl

/-- Four digits are the form of a code unit. -/
theorem escape_unit (h : Bytes) :
    Escape (0x75 :: h) ↔ h.length = 4 ∧ ∀ c ∈ h, isXdigit c = true := by
  constructor
  · intro escape
    cases escape with
    | one _ e simple => exact absurd rfl (plainEscape_ne simple)
    | unit a b c d n unit =>
      obtain ⟨w, x, y, z, first, second, third, fourth, _⟩ := codeUnit_some unit
      refine ⟨rfl, fun e member => (hexValue_xdigit e).mpr ?_⟩
      simp only [List.mem_cons, List.not_mem_nil, or_false] at member
      rcases member with rfl | rfl | rfl | rfl
      · exact ⟨w, first⟩
      · exact ⟨x, second⟩
      · exact ⟨y, third⟩
      · exact ⟨z, fourth⟩
  · rintro ⟨length, allHex⟩
    rcases h with _ | ⟨a, _ | ⟨b, _ | ⟨c, _ | ⟨d, _ | ⟨e, h⟩⟩⟩⟩⟩
    · cases length
    · cases length
    · cases length
    · cases length
    · obtain ⟨w, first⟩ := (hexValue_xdigit a).mp (allHex a (by simp))
      obtain ⟨x, second⟩ := (hexValue_xdigit b).mp (allHex b (by simp))
      obtain ⟨y, third⟩ := (hexValue_xdigit c).mp (allHex c (by simp))
      obtain ⟨z, fourth⟩ := (hexValue_xdigit d).mp (allHex d (by simp))
      exact .unit a b c d _ (codeUnit_of_values first second third fourth)
    · simp only [List.length_cons] at length
      omega

/-- The characters that stand for others behind a backslash. -/
theorem plainEscape_iff (c : UInt8) : (∃ e, plainEscape c = some e) ↔
    c = quote ∨ c = backslash ∨ c = 0x2F ∨ c = 0x62 ∨ c = 0x66 ∨ c = 0x6E ∨ c = 0x72 ∨
      c = 0x74 := by
  constructor
  · rintro ⟨e, escape⟩
    unfold plainEscape at escape
    by_contra others
    simp only [not_or] at others
    obtain ⟨o1, o2, o3, o4, o5, o6, o7, o8⟩ := others
    rw [if_neg o1, if_neg o2, if_neg o3, if_neg o4, if_neg o5, if_neg o6, if_neg o7,
      if_neg o8] at escape
    cases escape
  · rintro (rfl | rfl | rfl | rfl | rfl | rfl | rfl | rfl) <;> exact ⟨_, rfl⟩

theorem scanEscape_read (lex : Lexer R) (s : Bytes) (ready : Ready lex.stream s) :
    Found lex s Escape (scanEscape lex) := by
  obtain ⟨got, lex', read, stopped, saved, kept⟩ := lexGetSave_ready lex s ready
  rw [scanEscape, read]
  dsimp only
  split
  · next unit =>
    subst unit
    obtain ⟨t, rfl, ready'⟩ := stopped.ascii (by decide)
    obtain ⟨kept', ⟨h, t', got', form, rfl, given, stopped', saved'⟩ | ⟨refused, missing⟩⟩ :=
      scanHex_read 4 lex' t ready'
    · refine ⟨kept.trans kept',
        .inl ⟨0x75 :: h, t', got', (escape_unit h).mpr form, rfl, given, stopped', ?_⟩⟩
      rw [saved', saved, taken, List.append_assoc lex.savedText]
      rfl
    · refine ⟨kept.trans kept', .inr ⟨refused, ?_⟩⟩
      intro k t' escape same
      obtain ⟨h, rfl⟩ : ∃ h, k = 0x75 :: h := by
        cases escape with
        | one c e simple =>
          obtain rfl := (List.cons.inj same).1
          exact ⟨[], rfl⟩
        | unit a b c d => exact ⟨[a, b, c, d], rfl⟩
      exact missing h t' ((escape_unit h).mp escape) (List.cons.inj same).2
  · next noUnit =>
    split
    · next simple =>
      obtain ⟨c, rfl, named⟩ : ∃ c, got = .byte c ∧
          (c = quote ∨ c = backslash ∨ c = 0x2F ∨ c = 0x62 ∨ c = 0x66 ∨ c = 0x6E ∨ c = 0x72 ∨
            c = 0x74) := by
        cases got with
        | byte c => exact ⟨c, rfl, by simpa only [Got.byte.injEq] using simple⟩
        | eof => simp at simple
        | error => simp at simple
      obtain ⟨e, escape⟩ := (plainEscape_iff c).mpr named
      have small : c < 0x80 := by
        rcases named with rfl | rfl | rfl | rfl | rfl | rfl | rfl | rfl <;> decide
      obtain ⟨t, rfl, ready'⟩ := stopped.ascii small
      obtain ⟨got', lex2, read2, stopped', saved', kept'⟩ := lexGetSave_ready lex' t ready'
      rw [read2]
      exact ⟨kept.trans kept', .inl ⟨[c], t, got', .one c e escape, rfl, rfl,
        stopped', by rw [saved', saved]; rfl⟩⟩
    · next noSimple =>
      refine ⟨kept, .inr ⟨rfl, ?_⟩⟩
      intro k t escape same
      cases escape with
      | one c e simple =>
        have named := (plainEscape_iff c).mp ⟨e, simple⟩
        have small : c < 0x80 := by
          rcases named with rfl | rfl | rfl | rfl | rfl | rfl | rfl | rfl <;> decide
        rw [same] at stopped
        rw [stopped.got small] at noSimple
        exact noSimple (by simpa only [Got.byte.injEq] using named)
      | unit a b c d =>
        rw [same] at stopped
        exact noUnit (stopped.got (by decide))

theorem scanString_plain (fuel : Nat) (c : UInt8) (lex : Lexer R) (closes : c ≠ quote)
    (escapes : c ≠ backslash) (printable : ¬ c < 0x20) :
    scanString (fuel + 1) (.byte c) lex =
      scanString fuel (lexGetSave lex).1 (lexGetSave lex).2 := by
  have control : ¬ c ≤ 0x1F := by
    simp only [UInt8.le_iff_toNat_le, UInt8.lt_iff_toNat_lt, UInt8.reduceToNat] at printable ⊢
    omega
  rw [scanString, if_neg closes, if_neg control, if_neg escapes]

/-- The loop over the bytes of a character that is already in the buffer. -/
theorem scanString_inside (e t x : Bytes) (unescaped : plain e) (n i : Nat) (lex : Lexer R)
    (before : i < e.length) (left : i + 1 + n = e.length) (within : Within lex.stream e (i + 1) t)
    (saved : lex.savedText = x ++ e.take (i + 1)) :
    ∃ got lex', Stopped lex'.stream got t ∧ lex'.savedText = x ++ e ++ taken got ∧ Kept lex lex' ∧
      ∀ fuel, scanString (fuel + n + 1) (.byte e[i]) lex = scanString fuel got lex' := by
  obtain ⟨closes, escapes, printable⟩ := unescaped e[i] (List.getElem_mem before)
  induction n generalizing i lex with
  | zero =>
    have complete : i + 1 = e.length := left
    rw [complete] at within
    obtain ⟨got, lex', read, stopped, saved', kept⟩ := lexGetSave_ready lex t within.ready
    refine ⟨got, lex', stopped, ?_, kept, fun fuel => ?_⟩
    · rw [saved', saved, complete, List.take_length]
    · rw [Nat.add_zero, scanString_plain fuel _ lex closes escapes printable, read]
  | succ n ih =>
    have inside : i + 1 < e.length := by omega
    obtain ⟨lex1, read, within1, saved1, kept1⟩ := lexGet_within lex e (i + 1) t within inside
    obtain ⟨closes1, escapes1, printable1⟩ := unescaped e[i + 1] (List.getElem_mem inside)
    obtain ⟨got, lex', stopped, saved', kept, runs⟩ :=
      ih (i + 1) { lex1 with savedText := lex1.savedText ++ taken (.byte e[i + 1]) } inside
        (by omega) within1
        (by rw [saved1, saved, taken, List.append_assoc, List.take_append_getElem inside])
          closes1 escapes1 printable1
    refine ⟨got, lex', stopped, saved', kept1.trans kept, fun fuel => ?_⟩
    rw [← runs fuel, ← Nat.add_assoc,
      scanString_plain (fuel + n + 1) _ lex closes escapes printable, lexGetSave_of read]

/-- The first loop ends behind the quote that closes the string, or the string does not close. -/
def Quoted (lex : Lexer R) (s x : Bytes) (out : Bool × Lexer R) : Prop :=
  Kept lex out.2 ∧
    ((∃ r rest, Raw r ∧ s = r ++ quote :: rest ∧ out.1 = true ∧ Ready out.2.stream rest ∧
        out.2.savedText = x ++ r ++ [quote]) ∨
      (out.1 = false ∧ ¬ Closes s))

theorem Quoted.extend {lex lex1 : Lexer R} {s t x front : Bytes} {out : Bool × Lexer R}
    (kept : Kept lex lex1) (quoted : Quoted lex1 t (x ++ front) out) (split : s = front ++ t)
    (raws : ∀ r, Raw r → Raw (front ++ r)) (closes : Closes s → Closes t) : Quoted lex s x out := by
  obtain ⟨kept', ⟨r, rest, raw, rfl, ended, ready, saved⟩ | ⟨stuck, unclosed⟩⟩ := quoted
  · refine ⟨kept.trans kept', .inl ⟨front ++ r, rest, raws r raw, ?_, ended, ready, ?_⟩⟩
    · rw [split, List.append_assoc]
    · rw [saved, List.append_assoc x]
  · exact ⟨kept.trans kept', .inr ⟨stuck, fun closed => unclosed (closes closed)⟩⟩

theorem scanString_read (n : Nat) (s : Bytes) (bound : s.length < n) (fuel : Nat) (got : Got)
    (lex : Lexer R) (x : Bytes) (stopped : Stopped lex.stream got s)
    (saved : lex.savedText = x ++ taken got) (enough : got ≠ .error → s.length < fuel)
    (positive : 0 < fuel) : Quoted lex s x (scanString fuel got lex) := by
  induction n generalizing s fuel got lex x with
  | zero => exact absurd bound (Nat.not_lt_zero _)
  | succ n ih =>
    obtain ⟨fuel, rfl⟩ : ∃ k, fuel = k + 1 := ⟨fuel - 1, by omega⟩
    cases got with
    | error =>
      cases stopped with
      | error _ _ broken =>
        rw [scanString]
        exact ⟨⟨rfl, rfl⟩, .inr ⟨rfl, not_closes (.inr (.inr broken))⟩⟩
    | eof =>
      cases stopped with
      | eof =>
        rw [scanString]
        exact ⟨(errorSet_frame lex _).2.2, .inr ⟨rfl, not_closes (.inl rfl)⟩⟩
    | byte a =>
      have large := enough (by simp)
      rw [taken] at saved
      by_cases closes : a = quote
      · subst closes
        obtain ⟨t, rfl, ready⟩ := stopped.ascii (by decide)
        rw [scanString, if_pos rfl]
        exact ⟨⟨rfl, rfl⟩, .inl ⟨[], t, .nil, rfl, rfl, ready, by rw [saved, List.append_nil]⟩⟩
      · by_cases control : a ≤ 0x1F
        · rw [scanString, if_neg closes, if_pos control]
          have low : a < 0x20 := UInt8.lt_of_le_of_lt control (by decide)
          obtain ⟨t, rfl, _⟩ := stopped.ascii (UInt8.lt_of_lt_of_le low (by decide))
          obtain ⟨_, _, kept⟩ := ungetUnsave_spec stopped (x := x) saved
          exact ⟨kept.trans (errorSet_frame _ _).2.2,
            .inr ⟨rfl, not_closes (.inr (.inl ⟨a, t, rfl, low⟩))⟩⟩
        · by_cases escapes : a = backslash
          · subst escapes
            obtain ⟨t, rfl, ready⟩ := stopped.ascii (by decide)
            rw [scanString, if_neg closes, if_neg control, if_pos rfl]
            obtain ⟨kept, ⟨k, t', got', escape, rfl, given, stopped', saved'⟩ | ⟨given, missing⟩⟩ :=
              scanEscape_read lex t ready
            · rcases scanned : scanEscape lex with ⟨out, lex1⟩
              rw [scanned] at kept given stopped' saved'
              cases given
              rw [List.length_cons, List.length_append] at bound large
              have filled : 0 < k.length := by cases escape <;> exact Nat.succ_pos _
              refine Quoted.extend kept
                (ih t' (by omega) fuel got' lex1 (x ++ (backslash :: k)) stopped' ?_
                (fun _ => by omega) (by omega)) rfl (fun r raw => .escape k r escape raw)
                  fun closed => ?_
              · rw [saved', saved, List.append_assoc x]
                rfl
              · obtain ⟨k', t'', escape', same, closed'⟩ := closes_escape closed
                obtain ⟨_, rfl⟩ := Escape.front escape escape' same
                exact closed'
            · rcases scanned : scanEscape lex with ⟨out, lex1⟩
              rw [scanned] at kept given
              cases given
              refine ⟨kept.trans (errorSet_frame _ _).2.2, .inr ⟨rfl, fun closed => ?_⟩⟩
              obtain ⟨k, t', escape, same, _⟩ := closes_escape closed
              exact missing k t' escape same
          · cases stopped with
            | byte _ e t within =>
              have unescaped : plain (a :: e) :=
                plain_of_char within.char (fun same => closes (Option.some.inj same))
                  (fun same => escapes (Option.some.inj same))
                  fun c first => by
                    cases first
                    simp only [UInt8.le_iff_toNat_le, UInt8.lt_iff_toNat_lt,
                      UInt8.reduceToNat] at control ⊢
                    omega
              obtain ⟨got', lex1, stopped', saved', kept, runs⟩ :=
                scanString_inside (a :: e) t x unescaped e.length 0 lex (Nat.succ_pos _)
                  (by rw [List.length_cons]; omega) within
                  saved
              rw [List.length_append, List.length_cons] at bound large
              obtain ⟨rest, rfl⟩ : ∃ k, fuel = k + e.length := ⟨fuel - e.length, by omega⟩
              have run := runs rest
              rw [List.getElem_cons_zero] at run
              rw [run]
              exact Quoted.extend kept (ih t (by omega) rest got' lex1
                (x ++ (a :: e)) stopped' saved' (fun _ => by omega)
                (by omega)) rfl (fun r raw => .char (a :: e) r within.char unescaped raw)
                  (closes_char within.char unescaped)

/-! ## The second loop -/

theorem and_shift (n k mask low : Nat) (shape : mask >>> k = 2 ^ low - 1) :
    (n &&& mask) >>> k = n / 2 ^ k % 2 ^ low := by
  rw [Nat.shiftRight_and_distrib, shape, and_low, Nat.shiftRight_eq_div_pow]

/-- The code of utf.c is the code of the code point. -/
theorem utf8Encode_eq (n : Nat) (inside : n < 0x110000) : utf8Encode n = encode n := by
  have last : n &&& 0x3F = n % 64 := and_low n 6
  unfold utf8Encode encode
  split
  · rfl
  · split
    · have lead : (n &&& 0x7C0) >>> 6 = n / 64 % 32 := and_shift n 6 0x7C0 5 rfl
      rw [lead, last, Nat.mod_eq_of_lt (by omega : n / 64 < 32)]
    · have third : (n &&& 0x0FC0) >>> 6 = n / 64 % 64 := and_shift n 6 0x0FC0 6 rfl
      split
      · have lead : (n &&& 0xF000) >>> 12 = n / 4096 % 16 := and_shift n 12 0xF000 4 rfl
        rw [lead, third, last, Nat.mod_eq_of_lt (by omega : n / 4096 < 16)]
      · have lead : (n &&& 0x1C0000) >>> 18 = n / 262144 % 8 := and_shift n 18 0x1C0000 3 rfl
        have second : (n &&& 0x03F000) >>> 12 = n / 4096 % 64 := and_shift n 12 0x03F000 6 rfl
        rw [lead, second, third, last, Nat.mod_eq_of_lt (by omega : n / 262144 < 8)]

theorem escapeDigit_of_value {c : UInt8} {n : Nat} (value : hexValue c = some n) :
    escapeDigit c = some n := by
  unfold hexValue at value
  unfold escapeDigit isDigit
  split at value
  · next inRange => rw [if_pos inRange, value]
  · next noDigit =>
    rw [if_neg noDigit]
    split at value
    · next lower =>
      obtain ⟨low, high⟩ := Bool.and_eq_true_iff.mp lower
      rw [if_pos ⟨of_decide_eq_true low,
        UInt8.le_trans (of_decide_eq_true high) (by decide)⟩, value]
    · split at value
      · next upper =>
        obtain ⟨low, high⟩ := Bool.and_eq_true_iff.mp upper
        have noLower : ¬ (0x61 ≤ c ∧ c ≤ 0x7A) := by
          rintro ⟨above, _⟩
          exact absurd (UInt8.le_trans above (of_decide_eq_true high)) (by decide)
        rw [if_neg noLower, if_pos ⟨of_decide_eq_true low,
          UInt8.le_trans (of_decide_eq_true high) (by decide)⟩, value]
      · cases value

theorem decode_of_unit {a b c d : UInt8} {n : Nat} (unit : codeUnit a b c d = some n) :
    decodeUnicodeEscape a b c d = some n := by
  obtain ⟨w, x, y, z, first, second, third, fourth, rfl⟩ := codeUnit_some unit
  simp only [decodeUnicodeEscape, escapeDigit_of_value first, escapeDigit_of_value second,
    escapeDigit_of_value third, escapeDigit_of_value fourth, Option.bind_some, Option.map_some,
    Nat.shiftLeft_eq]

/-- What the second loop gives is what the text has. -/
def Agrees (raw rest : Bytes) : Prop :=
  text (raw ++ quote :: rest) = (unescape (raw ++ [quote])).toOption.map fun d => (d, rest)

theorem toOption_map (e : Bytes) (read : Except Bytes Bytes) (rest : Bytes) :
    (read.toOption.map fun d => (d, rest)).map (prepend e) =
    ((read.map (e ++ ·)).toOption).map fun d => (d, rest) := by
  cases read <;> rfl

/-- A part that both loops read in the same way. -/
theorem Agrees.front {raw rest e : Bytes} (part : Bytes) (agrees : Agrees raw rest)
    (reads : text (part ++ (raw ++ quote :: rest)) = (text (raw ++ quote :: rest)).map (prepend e))
    (decodes : unescape (part ++ (raw ++ [quote])) = (unescape (raw ++ [quote])).map (e ++ ·)) :
    Agrees (part ++ raw) rest := by
  unfold Agrees at *
  rw [List.append_assoc, reads, agrees, toOption_map, List.append_assoc, decodes]

theorem unescape_one (c e : UInt8) (p : Bytes) (escape : plainEscape c = some e) :
    unescape (backslash :: c :: p) = (unescape p).map ([e] ++ ·) := by
  have simple := (plainEscape_iff c).mp ⟨e, escape⟩
  rw [unescape.eq_def]
  simp only [if_neg (show ¬ backslash = quote by decide), if_true, if_neg (plainEscape_ne escape)]
  rcases simple with rfl | rfl | rfl | rfl | rfl | rfl | rfl | rfl <;> cases escape <;> rfl

theorem unescape_unit (a b c d : UInt8) (n : Nat) (p : Bytes) (unit : codeUnit a b c d = some n)
    (whole : ¬ (0xd800 ≤ n ∧ n < 0xe000)) :
    unescape (backslash :: 0x75 :: a :: b :: c :: d :: p) = (unescape p).map (encode n ++ ·) := by
  have below := codeUnit_lt unit
  rw [unescape.eq_def]
  simp only [if_neg (show ¬ backslash = quote by decide), if_true, decode_of_unit unit]
  rw [if_neg (by omega), if_neg (by omega), utf8Encode_eq n (by omega)]

theorem unescape_low (a b c d : UInt8) (n : Nat) (p : Bytes) (unit : codeUnit a b c d = some n)
    (low : 0xdc00 ≤ n ∧ n < 0xe000) :
    (unescape (backslash :: 0x75 :: a :: b :: c :: d :: p)).toOption = none := by
  rw [unescape.eq_def]
  simp only [if_neg (show ¬ backslash = quote by decide), if_true, decode_of_unit unit]
  rw [if_neg (by omega), if_pos (by omega)]
  rfl

theorem unescape_pair (a b c d w x y z : UInt8) (n m : Nat) (p : Bytes)
    (unit : codeUnit a b c d = some n) (high : 0xd800 ≤ n ∧ n < 0xdc00)
    (unit2 : codeUnit w x y z = some m) (low : 0xdc00 ≤ m ∧ m < 0xe000) :
    unescape (backslash :: 0x75 :: a :: b :: c :: d :: backslash :: 0x75 :: w :: x :: y :: z :: p) =
      (unescape p).map (encode (0x10000 + (n - 0xd800) * 0x400 + (m - 0xdc00)) ++ ·) := by
  have point : ((n - 0xd800) <<< 10) + (m - 0xdc00) + 0x10000 =
      0x10000 + (n - 0xd800) * 0x400 + (m - 0xdc00) := by
    rw [Nat.shiftLeft_eq]
    omega
  rw [unescape.eq_def]
  simp only [if_neg (show ¬ backslash = quote by decide), if_true, decode_of_unit unit,
    decode_of_unit unit2, true_and, point]
  rw [if_pos (by omega), if_pos (by omega), utf8Encode_eq _ (by omega)]

/-- A low surrogate stands in front. -/
def Low (p : Bytes) : Prop :=
  ∃ w x y z t m, p = backslash :: 0x75 :: w :: x :: y :: z :: t ∧
    decodeUnicodeEscape w x y z = some m ∧ 0xdc00 ≤ m ∧ m < 0xe000

/-- A high surrogate is decoded with a low one behind it. -/
theorem unescape_high {a b c d : UInt8} {n : Nat} {p out : Bytes} (unit : codeUnit a b c d = some n)
    (high : 0xd800 ≤ n ∧ n < 0xdc00)
    (decodes : (unescape (backslash :: 0x75 :: a :: b :: c :: d :: p)).toOption = some out) :
    Low p := by
  rw [unescape.eq_def] at decodes
  simp only [if_neg (show ¬ backslash = quote by decide), if_true, decode_of_unit unit] at decodes
  rw [if_pos (by omega)] at decodes
  rcases p with _ | ⟨v1, _ | ⟨v2, _ | ⟨l1, _ | ⟨l2, _ | ⟨l3, _ | ⟨l4, p⟩⟩⟩⟩⟩⟩
  · cases decodes
  · cases decodes
  · cases decodes
  · cases decodes
  · cases decodes
  · cases decodes
  · dsimp only at decodes
    split at decodes
    · next units =>
      obtain ⟨rfl, rfl⟩ := units
      cases decoded : decodeUnicodeEscape l1 l2 l3 l4 with
      | none =>
        rw [decoded] at decodes
        cases decodes
      | some m =>
        rw [decoded] at decodes
        dsimp only at decodes
        split at decodes
        · next low => exact ⟨l1, l2, l3, l4, p, m, rfl, decoded, by omega⟩
        · cases decodes
    · cases decodes

/-- A low surrogate in front of a raw string is an escape of it. -/
theorem raw_low {r q : Bytes} (raw : Raw r) (low : Low (r ++ quote :: q)) :
    ∃ w x y z m r', r = backslash :: ([0x75, w, x, y, z] ++ r') ∧ codeUnit w x y z = some m ∧
      0xdc00 ≤ m ∧ m < 0xe000 ∧ Raw r' := by
  obtain ⟨w, x, y, z, t, m, same, decoded, range⟩ := low
  cases raw with
  | nil => exact absurd (List.cons.inj same).1 (by decide)
  | char e r char unescaped =>
    obtain ⟨u, tail, rfl, _⟩ := char.parts
    exact absurd (List.cons.inj same).1 (unescaped u List.mem_cons_self).2.1
  | escape k r escape raw' =>
    cases escape with
    | one c e simple =>
      exact absurd (List.cons.inj (List.cons.inj same).2).1 (plainEscape_ne simple)
    | unit a b c d n unit =>
      simp only [List.cons_append, List.nil_append, List.cons.injEq, true_and] at same
      obtain ⟨rfl, rfl, rfl, rfl, _⟩ := same
      obtain rfl : n = m := Option.some.inj ((decode_of_unit unit).symm.trans decoded)
      exact ⟨a, b, c, d, n, r, rfl, unit, range.1, range.2, raw'⟩

theorem agrees_none {raw rest : Bytes} (noText : text (raw ++ quote :: rest) = none)
    (decoded : (unescape (raw ++ [quote])).toOption = none) : Agrees raw rest := by
  rw [Agrees, noText, decoded]
  rfl

/-- The two loops together read the characters of the text. -/
theorem raw_agrees (n : Nat) (r rest : Bytes) (bound : r.length < n) (raw : Raw r) :
    Agrees r rest := by
  induction n generalizing r with
  | zero => exact absurd bound (Nat.not_lt_zero _)
  | succ n ih =>
    cases raw with
    | nil => exact text_quote rest
    | char e r char unescaped raw' =>
      obtain ⟨u, tail, rfl, _⟩ := char.parts
      rw [List.length_append, List.length_cons] at bound
      exact Agrees.front (u :: tail) (ih r (by omega) raw') (text_plain _ _ char unescaped)
        (unescape_plain _ _ unescaped)
    | escape k r escape raw' =>
      rw [List.length_cons, List.length_append] at bound
      cases escape with
      | one c e simple =>
        exact Agrees.front [backslash, c] (ih r (by omega) raw') (text_escape c e _ simple)
          (unescape_one c e _ simple)
      | unit a b c d m unit =>
        by_cases high : 0xd800 ≤ m ∧ m < 0xdc00
        · by_cases pair : ∃ w x y z m r', r = backslash :: ([0x75, w, x, y, z] ++ r') ∧
            codeUnit w x y z = some m ∧
            0xdc00 ≤ m ∧ m < 0xe000 ∧ Raw r'
          · obtain ⟨w, x, y, z, m2, r', rfl, unit2, lowest, highest, raw2⟩ := pair
            simp only [List.length_cons, List.length_append] at bound
            exact Agrees.front (backslash :: 0x75 :: a :: b :: c :: d :: backslash :: [0x75, w,
              x, y, z])
              (ih r' (by omega) raw2) (text_pair a b c d w x y z m m2 _ unit high unit2 ⟨lowest,
                highest⟩)
              (unescape_pair a b c d w x y z m m2 _ unit high unit2 ⟨lowest, highest⟩)
          · refine agrees_none ?_ ?_
            · cases read : text (backslash :: ([0x75, a, b, c, d] ++ r) ++ quote :: rest) with
              | none => rfl
              | some out =>
                obtain ⟨w, x, y, z, m2, t, same, unit2, range⟩ :=
                  text_high (s := r ++ quote :: rest) unit high read
                exact absurd (raw_low raw' ⟨w, x, y, z, t, m2, same, decode_of_unit unit2,
                  range⟩) pair
            · cases decoded :
                (unescape (backslash :: ([0x75, a, b, c, d] ++ r) ++ [quote])).toOption with
              | none => rfl
              | some out =>
                exact absurd
                  (raw_low raw' (unescape_high (p := r ++ [quote]) unit high decoded)) pair
        · by_cases low : 0xdc00 ≤ m ∧ m < 0xe000
          · exact agrees_none (text_low a b c d m _ unit low) (unescape_low a b c d m _ unit low)
          · exact Agrees.front [backslash, 0x75, a, b, c, d] (ih r (by omega) raw')
              (text_unit a b c d m _ unit (by omega)) (unescape_unit a b c d m _ unit (by omega))

/-- lex_scan_string reads the string of the text, or gives up where it is none. -/
theorem lexScanString_read (lex : Lexer R) (s : Bytes) (ready : Ready lex.stream s)
    (saved : lex.savedText = [quote]) :
    (match text s with
      | none => (lexScanString lex).token = .invalid
      | some (d, rest) => (lexScanString lex).token = .string d ∧
        Ready (lexScanString lex).stream rest) ∧
    (lexScanString lex).depth = lex.depth := by
  obtain ⟨got, lex1, read, stopped, saved1, kept1⟩ :=
    lexGetSave_ready ({ lex with token := .invalid } : Lexer R) s ready
  have left : got ≠ .error → s.length < lex1.stream.left + 2 := by
    intro noError
    cases stopped with
    | byte a e t within =>
      rw [Stream.left, within.data, within.buffer, within.pos, List.length_append, List.length_cons]
      omega
    | eof => exact Nat.succ_pos _
    | error => exact absurd rfl noError
  have quoted :=
    scanString_read (s.length + 1) s (Nat.lt_succ_self _)
      (lex1.stream.left + 2) got lex1 [quote] stopped
    (saved1.trans (by rw [saved])) left (Nat.succ_pos _)
  unfold lexScanString
  dsimp only
  rw [read]
  dsimp only
  rcases scanned : scanString (lex1.stream.left + 2) got lex1 with ⟨out, lex2⟩
  rw [scanned] at quoted
  obtain ⟨kept2, ⟨r, rest, raw, rfl, ended, ready2, saved2⟩ | ⟨stuck, unclosed⟩⟩ := quoted
  · dsimp only at ended ready2 saved2 kept2 ⊢
    subst ended
    have agrees : Agrees r rest := raw_agrees (r.length + 1) r rest (Nat.lt_succ_self _) raw
    have behind : lex2.savedText.drop 1 = r ++ [quote] := by
      rw [saved2]
      rfl
    unfold Agrees at agrees
    rw [agrees]
    dsimp only
    rw [behind]
    cases unescape (r ++ [quote]) with
    | ok value => exact ⟨⟨rfl, ready2⟩, kept2.1.trans kept1.1⟩
    | error msg =>
      have kept3 := (errorSet_frame lex2 msg).2.2
      exact ⟨kept3.2.trans (kept2.2.trans kept1.2), kept3.1.trans (kept2.1.trans kept1.1)⟩
  · dsimp only at stuck kept2 ⊢
    subst stuck
    cases string : text s with
    | some read => exact absurd (closes_of_text string) unclosed
    | none => exact ⟨kept2.2.trans kept1.2, kept2.1.trans kept1.1⟩

end CgminerT4.Guarantees.JsonReads
