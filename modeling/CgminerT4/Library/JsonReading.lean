import CgminerT4.Library.JsonText

/-!
# Reading JSON texts character by character

A valid text in UTF-8 is a row of characters, a string is read character by
character, and the reader of values needs no more fuel than it consumes bytes.
-/
namespace CgminerT4.Library.JsonText
open ByteString

/-! ## Characters -/

/-- The bytes of one character. -/
inductive IsChar : Bytes → Prop
  | one (a : UInt8) (small : a < 0x80) : IsChar [a]
  | two (a b : UInt8) (low : 0xc2 ≤ a) (high : a < 0xe0) (tail : continuation b) : IsChar [a, b]
  | three (a b c : UInt8) (low : 0xe0 ≤ a) (high : a < 0xf0) (tail : continuation b)
    (tail2 : continuation c)
    (shortest : a = 0xe0 → 0xa0 ≤ b) (valid : a = 0xed → b < 0xa0) : IsChar [a, b, c]
  | four (a b c d : UInt8) (low : 0xf0 ≤ a) (high : a < 0xf5) (tail : continuation b)
    (tail2 : continuation c)
    (tail3 : continuation d) (shortest : a = 0xf0 → 0x90 ≤ b) (valid : a = 0xf4 → b < 0x90) :
      IsChar [a, b, c, d]

/-- No continuation byte begins a character; all others of it are. -/
theorem IsChar.parts {e : Bytes} (char : IsChar e) :
    ∃ a tail, e = a :: tail ∧ continuation a = false ∧ ∀ b ∈ tail, continuation b = true := by
  have outside (a : UInt8) (away : a < 0x80 ∨ 0xc2 ≤ a) : continuation a = false := by
    unfold continuation
    simp only [UInt8.lt_iff_toNat_lt, UInt8.le_iff_toNat_le, Bool.and_eq_false_iff,
      decide_eq_false_iff_not] at away ⊢
    simp only [UInt8.reduceToNat] at away ⊢
    omega
  cases char with
  | one a small => exact ⟨a, [], rfl, outside a (.inl small), by simp⟩
  | two a b low high tail => exact ⟨a, [b], rfl, outside a (.inr low), by simp [tail]⟩
  | three a b c low high tail tail2 =>
    exact ⟨a, [b, c], rfl, outside a (.inr (UInt8.le_trans (by decide) low)), by simp [tail, tail2]⟩
  | four a b c d low high tail tail2 tail3 =>
    exact ⟨a, [b, c, d], rfl,
      outside a (.inr (UInt8.le_trans (by decide) low)), by simp [tail, tail2, tail3]⟩

/-- A character in front adds no condition. -/
theorem utf8_char {e : Bytes} (char : IsChar e) (s : Bytes) : utf8 (e ++ s) = utf8 s := by
  have not_lt {a b : UInt8} (le : b ≤ a) : ¬ a < b := UInt8.not_lt.mpr le
  cases char with
  | one a small => exact utf8_ascii a s small
  | two a b low high tail =>
    rw [List.cons_append, List.cons_append, List.nil_append, utf8.eq_def]
    simp only [if_neg (not_lt (UInt8.le_trans (show 0x80 ≤ 0xc2 by decide) low)),
      low, high, decide_true, Bool.and_self, if_true, tail, Bool.true_and]
  | three a b c low high tail tail2 shortest valid =>
    rw [List.cons_append, List.cons_append, List.cons_append, List.nil_append, utf8.eq_def]
    have second : (a != 0xe0 || decide (0xa0 ≤ b)) = true := by
      by_cases first : a = 0xe0
      · simp [shortest first]
      · simp [first]
    have third : (a != 0xed || decide (b < 0xa0)) = true := by
      by_cases first : a = 0xed
      · simp [valid first]
      · simp [first]
    simp only [if_neg (not_lt (UInt8.le_trans (show 0x80 ≤ 0xe0 by decide) low)),
      not_lt low, low, high, decide_true, decide_false, Bool.and_false, Bool.and_self, if_true,
      if_neg Bool.false_ne_true, tail, tail2, second, third, Bool.true_and]
  | four a b c d low high tail tail2 tail3 shortest valid =>
    rw [List.cons_append, List.cons_append, List.cons_append, List.cons_append, List.nil_append,
      utf8.eq_def]
    have second : (a != 0xf0 || decide (0x90 ≤ b)) = true := by
      by_cases first : a = 0xf0
      · simp [shortest first]
      · simp [first]
    have third : (a != 0xf4 || decide (b < 0x90)) = true := by
      by_cases first : a = 0xf4
      · simp [valid first]
      · simp [first]
    simp only [if_neg (not_lt (UInt8.le_trans (show 0x80 ≤ 0xf0 by decide) low)),
      not_lt (UInt8.le_trans (show 0xe0 ≤ 0xf0 by decide) low), not_lt low, low, high, decide_true,
      decide_false, Bool.and_false, Bool.and_self, if_true, if_neg Bool.false_ne_true, tail, tail2,
      tail3, second, third, Bool.true_and]

/-- A valid text begins with a character. -/
theorem char_of_utf8 {s : Bytes} (valid : utf8 s) (filled : s ≠ []) :
    ∃ e t, IsChar e ∧ s = e ++ t := by
  cases s with
  | nil => exact absurd rfl filled
  | cons a s =>
    rw [utf8.eq_def] at valid
    dsimp only at valid
    split at valid
    · next small => exact ⟨[a], s, .one a small, rfl⟩
    · split at valid
      · next two =>
        obtain ⟨low, high⟩ := Bool.and_eq_true_iff.mp two
        cases s with
        | nil => cases valid
        | cons b s =>
          obtain ⟨tail, _⟩ := Bool.and_eq_true_iff.mp valid
          exact ⟨[a, b], s, .two a b (of_decide_eq_true low) (of_decide_eq_true high) tail, rfl⟩
      · split at valid
        · next three =>
          obtain ⟨low, high⟩ := Bool.and_eq_true_iff.mp three
          rcases s with _ | ⟨b, _ | ⟨c, s⟩⟩
          · cases valid
          · cases valid
          · simp only [Bool.and_eq_true, Bool.or_eq_true, bne_iff_ne, decide_eq_true_eq] at valid
            obtain ⟨⟨⟨⟨tail, tail2⟩, shortest⟩, below⟩, _⟩ := valid
            exact ⟨[a, b, c], s, .three a b c (of_decide_eq_true low)
              (of_decide_eq_true high) tail tail2
              (fun first => shortest.resolve_left (not_not_intro first))
              (fun first => below.resolve_left (not_not_intro first)), rfl⟩
        · split at valid
          · next four =>
            obtain ⟨low, high⟩ := Bool.and_eq_true_iff.mp four
            rcases s with _ | ⟨b, _ | ⟨c, _ | ⟨d, s⟩⟩⟩
            · cases valid
            · cases valid
            · cases valid
            · simp only [Bool.and_eq_true, Bool.or_eq_true, bne_iff_ne, decide_eq_true_eq] at valid
              obtain ⟨⟨⟨⟨⟨tail, tail2⟩, tail3⟩, shortest⟩, below⟩, _⟩ := valid
              exact ⟨[a, b, c, d], s, .four a b c d (of_decide_eq_true low)
                (of_decide_eq_true high) tail tail2 tail3
                (fun first => shortest.resolve_left (not_not_intro first))
                (fun first => below.resolve_left (not_not_intro first)), rfl⟩
          · cases valid

theorem toNat_ofNat_small {n : Nat} (small : n < 256) : (UInt8.ofNat n).toNat = n :=
  UInt8.toNat_ofNat_of_lt' small

theorem continuation_iff (b : UInt8) : continuation b = true ↔ 0x80 ≤ b.toNat ∧ b.toNat < 0xc0 := by
  unfold continuation
  simp only [UInt8.lt_iff_toNat_lt, UInt8.le_iff_toNat_le, Bool.and_eq_true, decide_eq_true_eq,
    UInt8.reduceToNat]

theorem eq_ofNat {b : UInt8} {n : Nat} (same : b.toNat = n) : b = UInt8.ofNat n := by
  rw [← same]
  exact UInt8.ofNat_toNat.symm

/-! ## Characters in numbers -/

theorem isChar_two {a b : UInt8} :
    IsChar [a, b] ↔ (0xc2 ≤ a.toNat ∧ a.toNat < 0xe0) ∧ 0x80 ≤ b.toNat ∧ b.toNat < 0xc0 := by
  constructor
  · intro char
    cases char with
    | two _ _ low high tail =>
      exact ⟨⟨UInt8.le_iff_toNat_le.mp low, UInt8.lt_iff_toNat_lt.mp high⟩,
        (continuation_iff b).mp tail⟩
  · rintro ⟨⟨low, high⟩, tail⟩
    exact .two a b (UInt8.le_iff_toNat_le.mpr low) (UInt8.lt_iff_toNat_lt.mpr high)
      ((continuation_iff b).mpr tail)

theorem isChar_three {a b c : UInt8} :
    IsChar [a, b, c] ↔ (0xe0 ≤ a.toNat ∧ a.toNat < 0xf0) ∧ (0x80 ≤ b.toNat ∧ b.toNat < 0xc0) ∧
      (0x80 ≤ c.toNat ∧ c.toNat < 0xc0) ∧ (a.toNat = 0xe0 → 0xa0 ≤ b.toNat) ∧
      (a.toNat = 0xed → b.toNat < 0xa0) := by
  constructor
  · intro char
    cases char with
    | three _ _ _ low high tail tail2 shortest valid =>
      exact ⟨⟨UInt8.le_iff_toNat_le.mp low, UInt8.lt_iff_toNat_lt.mp high⟩,
        (continuation_iff b).mp tail,
        (continuation_iff c).mp tail2,
        fun first => UInt8.le_iff_toNat_le.mp (shortest (eq_ofNat first)),
        fun first => UInt8.lt_iff_toNat_lt.mp (valid (eq_ofNat first))⟩
  · rintro ⟨⟨low, high⟩, tail, tail2, shortest, valid⟩
    exact .three a b c (UInt8.le_iff_toNat_le.mpr low) (UInt8.lt_iff_toNat_lt.mpr high)
      ((continuation_iff b).mpr tail)
      ((continuation_iff c).mpr tail2)
      (fun first => UInt8.le_iff_toNat_le.mpr (shortest (congrArg UInt8.toNat first)))
      (fun first => UInt8.lt_iff_toNat_lt.mpr (valid (congrArg UInt8.toNat first)))

theorem isChar_four {a b c d : UInt8} :
    IsChar [a, b, c, d] ↔ (0xf0 ≤ a.toNat ∧ a.toNat < 0xf5) ∧ (0x80 ≤ b.toNat ∧ b.toNat < 0xc0) ∧
      (0x80 ≤ c.toNat ∧ c.toNat < 0xc0) ∧ (0x80 ≤ d.toNat ∧ d.toNat < 0xc0) ∧
        (a.toNat = 0xf0 → 0x90 ≤ b.toNat) ∧ (a.toNat = 0xf4 → b.toNat < 0x90) := by
  constructor
  · intro char
    cases char with
    | four _ _ _ _ low high tail tail2 tail3 shortest valid =>
      exact ⟨⟨UInt8.le_iff_toNat_le.mp low, UInt8.lt_iff_toNat_lt.mp high⟩,
        (continuation_iff b).mp tail,
        (continuation_iff c).mp tail2, (continuation_iff d).mp tail3,
        fun first => UInt8.le_iff_toNat_le.mp (shortest (eq_ofNat first)),
        fun first => UInt8.lt_iff_toNat_lt.mp (valid (eq_ofNat first))⟩
  · rintro ⟨⟨low, high⟩, tail, tail2, tail3, shortest, valid⟩
    exact .four a b c d (UInt8.le_iff_toNat_le.mpr low) (UInt8.lt_iff_toNat_lt.mpr high)
      ((continuation_iff b).mpr tail)
      ((continuation_iff c).mpr tail2) ((continuation_iff d).mpr tail3)
      (fun first => UInt8.le_iff_toNat_le.mpr (shortest (congrArg UInt8.toNat first)))
      (fun first => UInt8.lt_iff_toNat_lt.mpr (valid (congrArg UInt8.toNat first)))

/-- A code point that is no surrogate. -/
def Scalar (n : Nat) : Prop := n < 0x110000 ∧ ¬ (0xd800 ≤ n ∧ n < 0xe000)

theorem isChar_encode {n : Nat} (scalar : Scalar n) : IsChar (encode n) := by
  obtain ⟨inside, surrogate⟩ := scalar
  unfold encode
  split
  · refine .one _ ?_
    rw [UInt8.lt_iff_toNat_lt, toNat_ofNat_small (by omega)]
    exact ‹n < 0x80›
  · split
    · rw [isChar_two, toNat_ofNat_small (by omega), toNat_ofNat_small (by omega)]
      omega
    · split
      · rw [isChar_three, toNat_ofNat_small (by omega), toNat_ofNat_small (by omega),
          toNat_ofNat_small (by omega)]
        omega
      · rw [isChar_four, toNat_ofNat_small (by omega), toNat_ofNat_small (by omega),
          toNat_ofNat_small (by omega), toNat_ofNat_small (by omega)]
        omega

/-- The code point of a character. -/
def code : Bytes → Nat
  | [a] => a.toNat
  | [a, b] => a.toNat % 32 * 64 + b.toNat % 64
  | [a, b, c] => (a.toNat % 16 * 64 + b.toNat % 64) * 64 + c.toNat % 64
  | [a, b, c, d] => ((a.toNat % 8 * 64 + b.toNat % 64) * 64 + c.toNat % 64) * 64 + d.toNat % 64
  | _ => 0

/-- A character is the code of its code point. -/
theorem IsChar.encode_code {e : Bytes} (char : IsChar e) :
    Scalar (code e) ∧ encode (code e) = e := by
  cases char with
  | one a small =>
    rw [UInt8.lt_iff_toNat_lt] at small
    simp only [UInt8.reduceToNat] at small
    refine ⟨⟨by rw [code]; omega, by rw [code]; omega⟩, ?_⟩
    rw [code, encode, if_pos small, UInt8.ofNat_toNat]
  | two a b low high tail =>
    obtain ⟨⟨aLow, aHigh⟩, bLow, bHigh⟩ := isChar_two.mp (.two a b low high tail)
    obtain ⟨n, named⟩ : ∃ n, n = code [a, b] := ⟨_, rfl⟩
    have split : n = a.toNat % 32 * 64 + b.toNat % 64 := named
    refine ⟨⟨by omega, by omega⟩, ?_⟩
    rw [← named, encode, if_neg (by omega), if_pos (by omega),
      eq_ofNat (b := a) (n := 0xc0 + n / 64) (by omega),
      eq_ofNat (b := b) (n := 0x80 + n % 64) (by omega)]
  | three a b c low high tail tail2 shortest valid =>
    obtain ⟨⟨aLow, aHigh⟩, ⟨bLow, bHigh⟩, ⟨cLow, cHigh⟩, least, most⟩ :=
      isChar_three.mp (.three a b c low high tail tail2 shortest valid)
    obtain ⟨n, named⟩ : ∃ n, n = code [a, b, c] := ⟨_, rfl⟩
    have split : n = (a.toNat % 16 * 64 + b.toNat % 64) * 64 + c.toNat % 64 := named
    refine ⟨⟨by omega, by omega⟩, ?_⟩
    rw [← named, encode, if_neg (by omega), if_neg (by omega), if_pos (by omega),
      eq_ofNat (b := a) (n := 0xe0 + n / 4096) (by omega),
      eq_ofNat (b := b) (n := 0x80 + n / 64 % 64) (by omega),
      eq_ofNat (b := c) (n := 0x80 + n % 64) (by omega)]
  | four a b c d low high tail tail2 tail3 shortest valid =>
    obtain ⟨⟨aLow, aHigh⟩, ⟨bLow, bHigh⟩, ⟨cLow, cHigh⟩, ⟨dLow, dHigh⟩, least, most⟩ :=
      isChar_four.mp (.four a b c d low high tail tail2 tail3 shortest valid)
    obtain ⟨n, named⟩ : ∃ n, n = code [a, b, c, d] := ⟨_, rfl⟩
    have split :
      n = ((a.toNat % 8 * 64 + b.toNat % 64) * 64 + c.toNat % 64) * 64 + d.toNat % 64 := named
    refine ⟨⟨by omega, by omega⟩, ?_⟩
    rw [← named, encode, if_neg (by omega), if_neg (by omega), if_neg (by omega),
      eq_ofNat (b := a) (n := 0xf0 + n / 262144) (by omega),
      eq_ofNat (b := b) (n := 0x80 + n / 4096 % 64) (by omega),
      eq_ofNat (b := c) (n := 0x80 + n / 64 % 64) (by omega),
      eq_ofNat (b := d) (n := 0x80 + n % 64) (by omega)]

/-! ## Strings -/

theorem hexValue_lt {c : UInt8} {n : Nat} (value : hexValue c = some n) : n < 16 := by
  unfold hexValue at value
  simp only [Bool.and_eq_true, decide_eq_true_eq, UInt8.le_iff_toNat_le, UInt8.reduceToNat] at value
  split at value
  · cases value
    omega
  · split at value
    · cases value
      omega
    · split at value
      · cases value
        omega
      · cases value

theorem codeUnit_some {a b c d : UInt8} {n : Nat} (unit : codeUnit a b c d = some n) :
    ∃ w x y z, hexValue a = some w ∧ hexValue b = some x ∧ hexValue c = some y ∧
      hexValue d = some z ∧
      n = ((w * 16 + x) * 16 + y) * 16 + z := by
  simp only [codeUnit, Option.bind_eq_bind, Option.bind_eq_some_iff, Option.some.injEq] at unit
  obtain ⟨w, first, x, second, y, third, z, fourth, rfl⟩ := unit
  exact ⟨w, x, y, z, first, second, third, fourth, rfl⟩

theorem codeUnit_lt {a b c d : UInt8} {n : Nat} (unit : codeUnit a b c d = some n) :
    n < 0x10000 := by
  obtain ⟨w, x, y, z, first, second, third, fourth, rfl⟩ := codeUnit_some unit
  have := hexValue_lt first
  have := hexValue_lt second
  have := hexValue_lt third
  have := hexValue_lt fourth
  omega

theorem plainEscape_small {c e : UInt8} (escape : plainEscape c = some e) : e < 0x80 := by
  have small : (plainEscape c).all (· < 0x80) := by
    unfold plainEscape
    iterate 8
      split
      · rfl
    rfl
  rw [escape] at small
  exact of_decide_eq_true small

theorem map_prepend {e d rest : Bytes} {behind : Option (Bytes × Bytes)}
    (read : behind.map (prepend e) = some (d, rest)) :
    ∃ d', d = e ++ d' ∧ behind = some (d', rest) := by
  obtain ⟨⟨d', rest'⟩, rfl, same⟩ := Option.map_eq_some_iff.mp read
  obtain ⟨front, back⟩ := Prod.mk.inj same
  exact ⟨d', front.symm, by rw [← back]⟩

/-- An escape is read as one character. -/
theorem characters_backslash {s d rest : Bytes}
    (read : characters (backslash :: s) = some (d, rest)) :
    ∃ e d' s', IsChar e ∧ d = e ++ d' ∧ characters s' = some (d', rest) ∧ s'.length < s.length := by
  rw [characters.eq_def] at read
  simp only [if_neg (show ¬ backslash = quote by decide), if_true] at read
  rcases s with _ | ⟨u, s⟩
  · cases read
  · dsimp only at read
    split at read
    · rcases s with _ | ⟨h1, _ | ⟨h2, _ | ⟨h3, _ | ⟨h4, s⟩⟩⟩⟩
      · cases read
      · cases read
      · cases read
      · cases read
      · dsimp only at read
        cases unit : codeUnit h1 h2 h3 h4 with
        | none =>
          rw [unit] at read
          cases read
        | some value =>
          rw [unit] at read
          have below := codeUnit_lt unit
          dsimp only at read
          split at read
          · rcases s with _ | ⟨b, _ | ⟨v, _ | ⟨l1, _ | ⟨l2, _ | ⟨l3, _ | ⟨l4, s⟩⟩⟩⟩⟩⟩
            · cases read
            · cases read
            · cases read
            · cases read
            · cases read
            · cases read
            · dsimp only at read
              cases lowUnit : codeUnit l1 l2 l3 l4 with
              | none =>
                rw [lowUnit] at read
                cases read
              | some low =>
                rw [lowUnit] at read
                dsimp only at read
                split at read
                · obtain ⟨d', split, read'⟩ := map_prepend read
                  refine ⟨_, d', s, isChar_encode ⟨?_, ?_⟩,
                    split, read', by simp only [List.length_cons]; omega⟩
                  · omega
                  · omega
                · cases read
          · split at read
            · cases read
            · obtain ⟨d', split, read'⟩ := map_prepend read
              refine ⟨_, d', s, isChar_encode ⟨?_, ?_⟩,
                split, read', by simp only [List.length_cons]; omega⟩
              · omega
              · omega
    · cases escape : plainEscape u with
      | none =>
        rw [escape] at read
        cases read
      | some e =>
        rw [escape] at read
        obtain ⟨d', split, read'⟩ := map_prepend read
        exact ⟨[e], d', s, .one e (plainEscape_small escape), split, read', by simp⟩

/-- How a string goes on behind its first character. -/
theorem characters_cases {c : UInt8} {s d rest : Bytes}
    (read : characters (c :: s) = some (d, rest)) :
    (c = quote ∧ d = [] ∧ rest = s) ∨
    (c = backslash ∧ ∃ e d' s', IsChar e ∧ d = e ++ d' ∧ characters s' = some (d', rest) ∧
      s'.length < s.length) ∨
    (c ≠ quote ∧ c ≠ backslash ∧ ¬ c < 0x20 ∧ ∃ d', d = c :: d' ∧
      characters s = some (d', rest)) := by
  by_cases closes : c = quote
  · subst closes
    rw [characters_quote] at read
    cases read
    exact .inl ⟨rfl, rfl, rfl⟩
  · by_cases escapes : c = backslash
    · subst escapes
      exact .inr (.inl ⟨rfl, characters_backslash read⟩)
    · rw [characters_cons c s (by simp [closes, escapes])] at read
      split at read
      · cases read
      · next printable =>
        obtain ⟨d', split, read'⟩ := map_prepend read
        exact .inr (.inr ⟨closes, escapes, printable, d', split, read'⟩)

theorem characters_length {s d rest : Bytes} (read : characters s = some (d, rest)) :
    rest.length < s.length := by
  obtain ⟨n, bound⟩ : ∃ n, s.length ≤ n := ⟨_, Nat.le_refl _⟩
  induction n generalizing s d with
  | zero =>
    rw [List.eq_nil_of_length_eq_zero (Nat.le_zero.mp bound), characters] at read
    cases read
  | succ n ih =>
    cases s with
    | nil =>
      rw [characters] at read
      cases read
    | cons c s =>
      rw [List.length_cons] at bound ⊢
      rcases characters_cases read with ⟨_, _, rfl⟩ | ⟨_, e, d', s', _, _, read', shorter⟩ | ⟨_, _,
        _, d', _, read'⟩
      · exact Nat.lt_succ_self _
      · have := ih read' (by omega)
        omega
      · have := ih read' (by omega)
        omega

/-- A continuation byte comes from one. -/
theorem characters_continuation {s d rest : Bytes} {b : UInt8}
    (read : characters s = some (b :: d, rest)) (tail : continuation b) :
    ∃ s', s = b :: s' ∧ characters s' = some (d, rest) := by
  cases s with
  | nil =>
    rw [characters] at read
    cases read
  | cons c s =>
    rcases characters_cases read with ⟨_, none, _⟩ | ⟨_, e, d', s', char, split, _⟩ | ⟨_, _, _, d',
      split, read'⟩
    · cases none
    · obtain ⟨a, tail', shape, starts, _⟩ := char.parts
      rw [shape, List.cons_append] at split
      cases split
      rw [starts] at tail
      cases tail
    · cases split
      exact ⟨s, rfl, read'⟩

theorem characters_tail (tail : Bytes) {s d rest : Bytes}
    (read : characters s = some (tail ++ d, rest))
    (continues : ∀ b ∈ tail, continuation b = true) : ∃ s', s = tail ++ s' ∧
      characters s' = some (d, rest) := by
  induction tail generalizing s with
  | nil => exact ⟨s, rfl, read⟩
  | cons b tail ih =>
    obtain ⟨s', split, read'⟩ := characters_continuation read (continues b List.mem_cons_self)
    obtain ⟨s'', split', read''⟩ :=
      ih read' fun x member => continues x (List.mem_cons_of_mem b member)
    exact ⟨s'', by rw [split, split', List.cons_append], read''⟩

/-- A valid string that begins with neither a quote nor an escape begins with a character. -/
theorem char_of_text {s d rest : Bytes} (read : characters s = some (d, rest)) (valid : utf8 d) :
    ∃ e t, IsChar e ∧ s = e ++ t := by
  cases s with
  | nil =>
    rw [characters] at read
    cases read
  | cons c s =>
    rcases characters_cases read with ⟨rfl, _, _⟩ | ⟨rfl, _⟩ | ⟨_, _, _, d', rfl, read'⟩
    · exact ⟨[quote], s, .one quote (by decide), rfl⟩
    · exact ⟨[backslash], s, .one backslash (by decide), rfl⟩
    · obtain ⟨e, t, char, split⟩ := char_of_utf8 valid (List.cons_ne_nil c d')
      obtain ⟨a, tail, shape, _, continues⟩ := char.parts
      rw [shape, List.cons_append] at split
      obtain ⟨rfl, tailSame⟩ := List.cons.inj split
      obtain ⟨s', split', _⟩ := characters_tail tail (tailSame ▸ read') continues
      exact ⟨e, s', char, by rw [shape, split', List.cons_append]⟩

/-- A character that needs no escape. -/
def plain (e : Bytes) : Prop := ∀ c ∈ e, c ≠ quote ∧ c ≠ backslash ∧ ¬ c < 0x20

theorem characters_plain (e s : Bytes) (unescaped : plain e) :
    characters (e ++ s) = (characters s).map (prepend e) := by
  induction e with
  | nil =>
    rw [List.nil_append]
    cases characters s <;> rfl
  | cons c e ih =>
    obtain ⟨closes, escapes, printable⟩ := unescaped c List.mem_cons_self
    rw [List.cons_append, characters_cons c _ (by simp [closes, escapes]), if_neg printable,
      ih fun x member => unescaped x (List.mem_cons_of_mem c member), Option.map_map]
    rfl

theorem text_some {s d rest : Bytes} (read : text s = some (d, rest)) :
    characters s = some (d, rest) ∧ utf8 d = true := Option.filter_eq_some_iff.mp read

theorem text_length {s d rest : Bytes} (read : text s = some (d, rest)) : rest.length < s.length :=
  characters_length (text_some read).1

theorem text_map {s t e : Bytes} (read : characters s = (characters t).map (prepend e))
    (char : ∀ d, utf8 (e ++ d) = utf8 d) :
    text s = (text t).map (prepend e) := by
  unfold text
  rw [read]
  cases characters t with
  | none => rfl
  | some read =>
    obtain ⟨d, rest⟩ := read
    have same : utf8 (prepend e (d, rest)).1 = utf8 d := char d
    simp only [Option.map_some, Option.filter_some, same]
    cases utf8 d <;> rfl

theorem text_quote (s : Bytes) : text (quote :: s) = some ([], s) := by
  unfold text
  rw [characters_quote]
  exact Option.filter_some_pos rfl

theorem text_plain (e s : Bytes) (char : IsChar e) (unescaped : plain e) :
    text (e ++ s) = (text s).map (prepend e) :=
  text_map (characters_plain e s unescaped) (utf8_char char)

theorem plainEscape_ne {c e : UInt8} (escape : plainEscape c = some e) : c ≠ 0x75 := by
  rintro rfl
  cases escape

theorem text_escape (c e : UInt8) (s : Bytes) (escape : plainEscape c = some e) :
    text (backslash :: c :: s) = (text s).map (prepend [e]) := by
  refine text_map ?_ (utf8_char (.one e (plainEscape_small escape)))
  rw [characters.eq_def]
  simp only [if_neg (show ¬ backslash = quote by decide),
    if_true, if_neg (plainEscape_ne escape), escape]

theorem text_noEscape (c : UInt8) (s : Bytes) (unit : c ≠ 0x75) (escape : plainEscape c = none) :
    text (backslash :: c :: s) = none := by
  unfold text
  rw [characters.eq_def]
  simp only [if_neg (show ¬ backslash = quote by decide), if_true, if_neg unit, escape]
  rfl

/-- A code unit behind its escape. -/
theorem text_unit (a b c d : UInt8) (n : Nat) (s : Bytes) (unit : codeUnit a b c d = some n)
    (whole : ¬ (0xd800 ≤ n ∧ n < 0xe000)) :
    text (backslash :: 0x75 :: a :: b :: c :: d :: s) = (text s).map (prepend (encode n)) := by
  have below := codeUnit_lt unit
  refine text_map ?_ (utf8_char (isChar_encode ⟨by omega, whole⟩))
  rw [characters.eq_def]
  simp only [if_neg (show ¬ backslash = quote by decide), if_true, unit]
  rw [if_neg (by omega), if_neg (by omega)]

theorem text_low (a b c d : UInt8) (n : Nat) (s : Bytes) (unit : codeUnit a b c d = some n)
    (low : 0xdc00 ≤ n ∧ n < 0xe000) :
    text (backslash :: 0x75 :: a :: b :: c :: d :: s) = none := by
  unfold text
  rw [characters.eq_def]
  simp only [if_neg (show ¬ backslash = quote by decide), if_true, unit]
  rw [if_neg (by omega), if_pos low]
  rfl

theorem text_pair (a b c d w x y z : UInt8) (n m : Nat) (s : Bytes)
    (unit : codeUnit a b c d = some n) (high : 0xd800 ≤ n ∧ n < 0xdc00)
    (unit2 : codeUnit w x y z = some m) (low : 0xdc00 ≤ m ∧ m < 0xe000) :
    text (backslash :: 0x75 :: a :: b :: c :: d :: backslash :: 0x75 :: w :: x :: y :: z :: s) =
      (text s).map (prepend (encode (0x10000 + (n - 0xd800) * 0x400 + (m - 0xdc00)))) := by
  refine text_map ?_ (utf8_char (isChar_encode ⟨by omega, by omega⟩))
  rw [characters.eq_def]
  simp only [if_neg (show ¬ backslash = quote by decide), if_true, unit, if_pos high, unit2,
    true_and, if_pos low]

/-- A high surrogate is followed by a low one. -/
theorem text_high {a b c d : UInt8} {n : Nat} {s : Bytes} {read : Bytes × Bytes}
    (unit : codeUnit a b c d = some n) (high : 0xd800 ≤ n ∧ n < 0xdc00)
    (given : text (backslash :: 0x75 :: a :: b :: c :: d :: s) = some read) :
    ∃ w x y z m t, s = backslash :: 0x75 :: w :: x :: y :: z :: t ∧ codeUnit w x y z = some m ∧
      0xdc00 ≤ m ∧ m < 0xe000 := by
  have chars : characters _ = some (read.1, read.2) := (text_some given).1
  rw [characters.eq_def] at chars
  simp only [if_neg (show ¬ backslash = quote by decide), if_true, unit, if_pos high] at chars
  rcases s with _ | ⟨b, _ | ⟨v, _ | ⟨l1, _ | ⟨l2, _ | ⟨l3, _ | ⟨l4, s⟩⟩⟩⟩⟩⟩
  · cases chars
  · cases chars
  · cases chars
  · cases chars
  · cases chars
  · cases chars
  · dsimp only at chars
    cases lowUnit : codeUnit l1 l2 l3 l4 with
    | none =>
      rw [lowUnit] at chars
      cases chars
    | some low =>
      rw [lowUnit] at chars
      dsimp only at chars
      split at chars
      · next pair =>
        obtain ⟨rfl, rfl, range⟩ := pair
        exact ⟨l1, l2, l3, l4, low, s, rfl, lowUnit, range⟩
      · cases chars

/-- An escape of a code unit has four digits. -/
theorem text_digits {s : Bytes} {read : Bytes × Bytes}
    (given : text (backslash :: 0x75 :: s) = some read) :
    ∃ a b c d n t, s = a :: b :: c :: d :: t ∧ codeUnit a b c d = some n := by
  have chars : characters _ = some (read.1, read.2) := (text_some given).1
  rw [characters.eq_def] at chars
  simp only [if_neg (show ¬ backslash = quote by decide), if_true] at chars
  rcases s with _ | ⟨a, _ | ⟨b, _ | ⟨c, _ | ⟨d, s⟩⟩⟩⟩
  · cases chars
  · cases chars
  · cases chars
  · cases chars
  · dsimp only at chars
    cases unit : codeUnit a b c d with
    | none =>
      rw [unit] at chars
      cases chars
    | some n => exact ⟨a, b, c, d, n, s, rfl, unit⟩

theorem text_control (c : UInt8) (s : Bytes) (control : c < 0x20) : text (c :: s) = none := by
  have noQuote : c ≠ quote := by
    rintro rfl
    exact absurd control (by decide)
  have noEscape : c ≠ backslash := by
    rintro rfl
    exact absurd control (by decide)
  unfold text
  rw [characters_cons c s (by simp [noQuote, noEscape]), if_pos control]
  rfl

/-! ## Strings as they may be written -/

/-- What may stand behind a backslash. -/
inductive Escape : Bytes → Prop
  | one (c e : UInt8) (escape : plainEscape c = some e) : Escape [c]
  | unit (a b c d : UInt8) (n : Nat) (unit : codeUnit a b c d = some n) : Escape [0x75, a, b, c, d]

/-- Characters and escapes, without a condition on surrogates. -/
inductive Raw : Bytes → Prop
  | nil : Raw []
  | char (e r : Bytes) (char : IsChar e) (unescaped : plain e) (raw : Raw r) : Raw (e ++ r)
  | escape (k r : Bytes) (escape : Escape k) (raw : Raw r) : Raw (backslash :: (k ++ r))

/-- The string ends with a quote. -/
def Closes (s : Bytes) : Prop := ∃ r rest, Raw r ∧ s = r ++ quote :: rest

theorem Closes.front {e t : Bytes} (char : IsChar e) (unescaped : plain e) (closes : Closes t) :
    Closes (e ++ t) := by
  obtain ⟨r, rest, raw, rfl⟩ := closes
  exact ⟨e ++ r, rest, .char e r char unescaped raw, by rw [List.append_assoc]⟩

theorem Closes.escape {k t : Bytes} (escape : Escape k) (closes : Closes t) :
    Closes (backslash :: (k ++ t)) := by
  obtain ⟨r, rest, raw, rfl⟩ := closes
  exact ⟨backslash :: (k ++ r),
    rest, .escape k r escape raw, by rw [List.cons_append, List.append_assoc]⟩

theorem some_of_map {e : Bytes} {behind : Option (Bytes × Bytes)} {read : Bytes × Bytes}
    (given : behind.map (prepend e) = some read) : ∃ read', behind = some read' :=
  ⟨_, (Option.map_eq_some_iff.mp given).choose_spec.1⟩

/-- A string that begins with a character of several bytes or without an escape. -/
theorem plain_of_char {e : Bytes} (char : IsChar e) (closes : e.head? ≠ some quote)
    (escapes : e.head? ≠ some backslash) (printable : ∀ c ∈ e.head?, ¬ c < 0x20) : plain e := by
  obtain ⟨a, tail, rfl, _, continues⟩ := char.parts
  intro c member
  rcases List.mem_cons.mp member with rfl | behind
  · exact ⟨fun same => closes (congrArg some same), fun same => escapes (congrArg some same),
      printable c rfl⟩
  · have high := continues c behind
    refine ⟨?_, ?_, fun control => ?_⟩
    · rintro rfl
      exact absurd high (by decide)
    · rintro rfl
      exact absurd high (by decide)
    · have low := (continuation_iff c).mp high
      rw [UInt8.lt_iff_toNat_lt] at control
      simp only [UInt8.reduceToNat] at control
      omega

theorem closes_of_text {s : Bytes} {read : Bytes × Bytes} (given : text s = some read) :
    Closes s := by
  obtain ⟨n, bound⟩ : ∃ n, s.length ≤ n := ⟨_, Nat.le_refl _⟩
  induction n generalizing s read with
  | zero =>
    rw [List.eq_nil_of_length_eq_zero (Nat.le_zero.mp bound)] at given
    cases given
  | succ n ih =>
    obtain ⟨d, rest⟩ := read
    obtain ⟨e, t, char, rfl⟩ := char_of_text (text_some given).1 (text_some given).2
    obtain ⟨a, tail, rfl, _⟩ := char.parts
    rw [List.length_append, List.length_cons] at bound
    by_cases closes : a = quote
    · subst closes
      cases char with
      | one => exact ⟨[], t, .nil, rfl⟩
      | two _ _ low => exact absurd low (by decide)
      | three _ _ _ low => exact absurd low (by decide)
      | four _ _ _ _ low => exact absurd low (by decide)
    · by_cases escapes : a = backslash
      · subst escapes
        obtain rfl : tail = [] := by
          cases char with
          | one => rfl
          | two _ _ low => exact absurd low (by decide)
          | three _ _ _ low => exact absurd low (by decide)
          | four _ _ _ _ low => exact absurd low (by decide)
        rw [List.length_nil] at bound
        change text (backslash :: t) = _ at given
        change Closes (backslash :: t)
        cases t with
        | nil => cases given
        | cons c t =>
          rw [List.length_cons] at bound
          by_cases unit : c = 0x75
          · subst unit
            obtain ⟨h1, h2, h3, h4, n1, t1, rfl, unit⟩ := text_digits given
            simp only [List.length_cons] at bound
            refine Closes.escape (k := [0x75, h1, h2, h3, h4]) (.unit h1 h2 h3 h4 n1 unit) ?_
            by_cases high : 0xd800 ≤ n1 ∧ n1 < 0xdc00
            · obtain ⟨w, x, y, z, m, t2, rfl, unit2, low⟩ := text_high unit high given
              rw [text_pair h1 h2 h3 h4 w x y z n1 m t2 unit high unit2 low] at given
              obtain ⟨read', some'⟩ := some_of_map given
              simp only [List.length_cons] at bound
              exact Closes.escape (k := [0x75, w, x, y, z]) (.unit w x y z m unit2)
                (ih some' (by omega))
            · by_cases low : 0xdc00 ≤ n1 ∧ n1 < 0xe000
              · rw [text_low h1 h2 h3 h4 n1 t1 unit low] at given
                cases given
              · rw [text_unit h1 h2 h3 h4 n1 t1 unit (by omega)] at given
                obtain ⟨read', some'⟩ := some_of_map given
                exact ih some' (by omega)
          · cases escape : plainEscape c with
            | none =>
              rw [text_noEscape c t unit escape] at given
              cases given
            | some e =>
              rw [text_escape c e t escape] at given
              obtain ⟨read', some'⟩ := some_of_map given
              exact Closes.escape (k := [c]) (.one c e escape) (ih some' (by omega))
      · have printable : ¬ a < 0x20 := by
          intro control
          rw [List.cons_append, text_control a _ control] at given
          cases given
        have unescaped : plain (a :: tail) :=
          plain_of_char char (fun same => closes (Option.some.inj same))
            (fun same => escapes (Option.some.inj same))
            fun c first => by
              cases first
              exact printable
        rw [text_plain (a :: tail) t char unescaped] at given
        obtain ⟨read', some'⟩ := some_of_map given
        exact Closes.front char unescaped (ih some' (by omega))

/-! ## Numbers -/

theorem digits_split {s t rest : Bytes} (read : digits s = some (t, rest)) :
    s = t ++ rest ∧ t ≠ [] := by
  unfold digits at read
  split at read
  · cases read
  · next filled =>
    cases read
    exact ⟨List.takeWhile_append_dropWhile.symm, filled⟩

theorem prepended_split {c : UInt8} {s t rest : Bytes} {part : Bytes → Option (Bytes × Bytes)}
    (read : (part s).map (prepend [c]) = some (t, rest))
    (splits : ∀ t' rest', part s = some (t', rest') → s = t' ++ rest') : c :: s = t ++ rest ∧
      t ≠ [] := by
  obtain ⟨t', rfl, read'⟩ := map_prepend read
  exact ⟨by rw [splits t' rest read']; rfl, List.cons_ne_nil c t'⟩

theorem optional_absent {starts : UInt8 → Bool} {part : Bytes → Option (Bytes × Bytes)} {s : Bytes}
    (other : ∀ c t, s = c :: t → starts c = false) : JsonText.optional starts part s =
      some ([], s) := by
  cases s with
  | nil => rfl
  | cons c t => exact if_neg (by rw [other c t rfl]; decide)

theorem optional_split {starts : UInt8 → Bool} {part : Bytes → Option (Bytes × Bytes)}
    {s t rest : Bytes} (read : JsonText.optional starts part s = some (t, rest))
    (splits : ∀ s t rest, part s = some (t, rest) → s = t ++ rest) : s = t ++ rest := by
  cases s with
  | nil =>
    cases read
    rfl
  | cons c s =>
    rw [JsonText.optional] at read
    split at read
    · exact (prepended_split read fun t' rest' => splits s t' rest').1
    · cases read
      rfl

theorem whole_split {s t rest : Bytes} (read : whole s = some (t, rest)) :
    s = t ++ rest ∧ t ≠ [] := by
  cases s with
  | nil => cases read
  | cons c s =>
    rw [whole] at read
    split at read
    · cases read
      exact ⟨rfl, List.cons_ne_nil _ _⟩
    · exact digits_split read

theorem exponent_split {s t rest : Bytes} (read : exponent s = some (t, rest)) : s = t ++ rest := by
  cases s with
  | nil => cases read
  | cons c s =>
    rw [exponent] at read
    split at read
    · exact (prepended_split read fun t' rest' read' => (digits_split read').1).1
    · exact (digits_split read).1

/-- The part of a number in front of its fraction. -/
def numberFront (s : Bytes) : Option (Bytes × Bytes) :=
  match s with
  | [] => none
  | c :: rest => if c = 0x2d then (whole rest).map (prepend [c]) else whole s

theorem number_eq (s : Bytes) : number s =
    (numberFront s).bind fun front =>
      (JsonText.optional (· = 0x2e) digits front.2).bind fun fraction =>
      (JsonText.optional (fun c => c = 0x65 || c = 0x45) exponent fraction.2).bind fun power =>
        some (front.1 ++ fraction.1 ++ power.1, power.2) := by
  cases s with
  | nil => rfl
  | cons c s =>
    unfold number numberFront
    by_cases minus : c = 0x2d
    · simp only [minus, if_true]
      rfl
    · simp only [minus, if_false]
      rfl

theorem number_split {s t rest : Bytes} (read : number s = some (t, rest)) :
    s = t ++ rest ∧ t ≠ [] := by
  rw [number_eq, Option.bind_eq_some_iff] at read
  obtain ⟨⟨front, s1⟩, readFront, read⟩ := read
  obtain ⟨⟨fraction, s2⟩, readFraction, read⟩ := Option.bind_eq_some_iff.mp read
  obtain ⟨⟨power, s3⟩, readPower, same⟩ := Option.bind_eq_some_iff.mp read
  obtain ⟨rfl, rfl⟩ := Prod.mk.inj (Option.some.inj same)
  have first : s = front ++ s1 ∧ front ≠ [] := by
    cases s with
    | nil => cases readFront
    | cons c s =>
      rw [numberFront] at readFront
      split at readFront
      · exact prepended_split readFront fun t' rest' read' => (whole_split read').1
      · exact whole_split readFront
  have second : s1 = fraction ++ s2 :=
    optional_split readFraction fun s t rest read => (digits_split read).1
  have third : s2 = power ++ s3 := optional_split readPower fun s t rest read => exponent_split read
  refine ⟨?_, fun none => first.2 (List.append_eq_nil_iff.mp (List.append_eq_nil_iff.mp none).1).1⟩
  show s = front ++ fraction ++ power ++ s3
  rw [first.1, second, third, List.append_assoc, List.append_assoc]

theorem true_bytes : ascii "true" = [0x74, 0x72, 0x75, 0x65] := by
  rw [ascii_eq]
  rfl

theorem false_bytes : ascii "false" = [0x66, 0x61, 0x6C, 0x73, 0x65] := by
  rw [ascii_eq]
  rfl

theorem null_bytes : ascii "null" = [0x6E, 0x75, 0x6C, 0x6C] := by
  rw [ascii_eq]
  rfl

theorem drop_shorter {name s : Bytes} (n : Nat) (front : name.isPrefixOf s)
    (length : name.length = n) (positive : 0 < n) :
    (s.drop n).length < s.length := by
  obtain ⟨t, rfl⟩ := List.isPrefixOf_iff_prefix.mp front
  rw [List.length_drop, List.length_append]
  omega

theorem scalar_length {s rest : Bytes} {w : Value} (read : scalar s = some (w, rest)) :
    rest.length < s.length := by
  unfold scalar at read
  split at read
  · next front =>
    cases read
    exact drop_shorter 4 front (by rw [true_bytes]; rfl) (by decide)
  · split at read
    · next front =>
      cases read
      exact drop_shorter 5 front (by rw [false_bytes]; rfl) (by decide)
    · split at read
      · next front =>
        cases read
        exact drop_shorter 4 front (by rw [null_bytes]; rfl) (by decide)
      · obtain ⟨⟨t, rest'⟩, numeral, same⟩ := Option.map_eq_some_iff.mp read
        obtain ⟨_, rfl⟩ := Prod.mk.inj same
        obtain ⟨rfl, filled⟩ := number_split numeral
        have := List.length_pos_iff.mpr filled
        simp only [List.length_append]
        omega

/-! ## Fuel -/

theorem length_skip_le (s : Bytes) : (skip s).length ≤ s.length := List.length_dropWhile_le _ _

/-- What is read and consumed is the same with any fuel above what is consumed. -/
def Enough {α : Type} (reads : Nat → Bytes → Option (α × Bytes)) (m : Nat) : Prop :=
  ∀ s w rest, reads m s = some (w, rest) →
    rest.length < s.length ∧ ∀ n, s.length < n + rest.length → reads n s = some (w, rest)

/-- A value behind its first character. -/
def valueBody (n : Nat) (c : UInt8) (s : Bytes) : Option (Value × Bytes) :=
  if c = quote then (text s).map fun read => (.string read.1, read.2)
  else if c = openBracket then
    if (skip s).head? = some closeBracket then some (.array [], (skip s).drop 1)
    else (elements n s).map fun read => (.array read.1, read.2)
  else if c = openBrace then
    if (skip s).head? = some closeBrace then some (.object [], (skip s).drop 1)
    else (members n s).map fun read => (.object read.1, read.2)
  else scalar (c :: s)

theorem value_skip {n : Nat} {c : UInt8} {s t : Bytes} (front : skip s = c :: t) :
    value (n + 1) s = valueBody n c t := by
  rw [value, front]
  rfl

theorem value_blank {n : Nat} {s : Bytes} (blank : skip s = []) : value n s = none := by
  cases n with
  | zero => rw [value]
  | succ n => rw [value, blank]

/-- What follows an item of an array. -/
def elementsTail (n : Nat) (item : Value) (s : Bytes) : Option (List Value × Bytes) :=
  match skip s with
  | [] => none
  | c :: s =>
    if c = comma then (elements n s).map fun read => (item :: read.1, read.2)
    else if c = closeBracket then some ([item], s)
    else none

theorem elements_succ (n : Nat) (s : Bytes) :
    elements (n + 1) s = (value n s).bind fun read => elementsTail n read.1 read.2 := by
  rw [elements]
  cases value n s <;> rfl

/-- What follows a member of an object. -/
def membersTail (n : Nat) (name : Bytes) (item : Value) (s : Bytes) :
    Option (List (Bytes × Value) × Bytes) :=
  match skip s with
  | [] => none
  | c :: s =>
    if c = comma then (members n s).map fun read => ((name, item) :: read.1, read.2)
    else if c = closeBrace then some ([(name, item)], s)
    else none

/-- A colon and a value. -/
def memberValue (n : Nat) (name s : Bytes) : Option (List (Bytes × Value) × Bytes) :=
  match skip s with
  | [] => none
  | c :: s =>
    if c = colon then (value n s).bind fun read => membersTail n name read.1 read.2 else none

theorem members_succ (n : Nat) (s : Bytes) : members (n + 1) s =
    match skip s with
    | [] => none
    | c :: s =>
      if c = quote then (text s).bind fun read => memberValue n read.1 read.2 else none := by
  rw [members]
  cases skip s with
  | nil => rfl
  | cons c s =>
    dsimp only
    split
    · cases text s with
      | none => rfl
      | some read =>
        dsimp only [Option.bind_some, memberValue]
        cases skip read.2 with
        | nil => rfl
        | cons c s =>
          dsimp only
          split
          · cases value n s <;> rfl
          · rfl
    · rfl

theorem length_of_skip {c : UInt8} {s t : Bytes} (front : skip s = c :: t) :
    t.length < s.length := by
  have bound := length_skip_le s
  rw [front] at bound
  exact bound

theorem value_enough {m : Nat} (items : ∀ k < m, Enough elements k)
    (pairs : ∀ k < m, Enough members k) :
    Enough value m := by
  intro s w rest read
  cases front : skip s with
  | nil =>
    rw [value_blank front] at read
    cases read
  | cons c t =>
    cases m with
    | zero =>
      rw [value] at read
      cases read
    | succ m =>
      have shorter := length_of_skip front
      rw [value_skip front] at read
      suffices later : rest.length ≤ t.length ∧ ∀ k, t.length < k + rest.length →
          valueBody k c t = some (w, rest) by
        refine ⟨by omega, fun n large => ?_⟩
        obtain ⟨k, rfl⟩ : ∃ k, n = k + 1 := ⟨n - 1, by omega⟩
        rw [value_skip front]
        exact later.2 k (by omega)
      unfold valueBody at read ⊢
      split at read
      · next string =>
        obtain ⟨⟨d, rest'⟩, read', same⟩ := Option.map_eq_some_iff.mp read
        obtain ⟨_, rfl⟩ := Prod.mk.inj same
        exact ⟨Nat.le_of_lt (text_length read'), fun k _ => by rw [if_pos string]; exact read⟩
      · next other =>
        split at read
        · next array =>
          split at read
          · next empty =>
            cases read
            refine ⟨?_, fun k _ => by rw [if_neg other, if_pos array, if_pos empty]⟩
            rw [List.length_drop]
            exact Nat.le_trans (Nat.sub_le _ _) (length_skip_le t)
          · next filled =>
            obtain ⟨⟨l, rest'⟩, read', same⟩ := Option.map_eq_some_iff.mp read
            obtain ⟨rfl, rfl⟩ := Prod.mk.inj same
            obtain ⟨less, fuel⟩ := items m (Nat.lt_succ_self m) t l rest' read'
            refine ⟨Nat.le_of_lt less, fun k large => ?_⟩
            rw [if_neg other, if_pos array, if_neg filled, fuel k large]
            rfl
        · next noArray =>
          split at read
          · next object =>
            split at read
            · next empty =>
              cases read
              refine ⟨?_, fun k _ => by rw [if_neg other, if_neg noArray, if_pos object,
                if_pos empty]⟩
              rw [List.length_drop]
              exact Nat.le_trans (Nat.sub_le _ _) (length_skip_le t)
            · next filled =>
              obtain ⟨⟨l, rest'⟩, read', same⟩ := Option.map_eq_some_iff.mp read
              obtain ⟨rfl, rfl⟩ := Prod.mk.inj same
              obtain ⟨less, fuel⟩ := pairs m (Nat.lt_succ_self m) t l rest' read'
              refine ⟨Nat.le_of_lt less, fun k large => ?_⟩
              rw [if_neg other, if_neg noArray, if_pos object, if_neg filled, fuel k large]
              rfl
          · next noObject =>
            refine ⟨?_, fun k _ => by
              rw [if_neg other, if_neg noArray, if_neg noObject]; exact read⟩
            have less := scalar_length read
            rw [List.length_cons] at less
            omega

theorem elements_enough {m : Nat} (values : ∀ k < m, Enough value k)
    (items : ∀ k < m, Enough elements k) :
    Enough elements m := by
  intro s l rest read
  cases m with
  | zero =>
    rw [elements] at read
    cases read
  | succ m =>
    rw [elements_succ] at read
    obtain ⟨⟨item, s1⟩, readItem, read⟩ := Option.bind_eq_some_iff.mp read
    obtain ⟨lessItem, fuelItem⟩ := values m (Nat.lt_succ_self m) s item s1 readItem
    dsimp only at read
    cases front : skip s1 with
    | nil =>
      rw [elementsTail, front] at read
      cases read
    | cons c t =>
      have shorter := length_of_skip front
      suffices later : rest.length ≤ t.length ∧ ∀ k, t.length < k + rest.length →
          elementsTail k item s1 = some (l, rest) by
        refine ⟨by omega, fun n large => ?_⟩
        obtain ⟨k, rfl⟩ : ∃ k, n = k + 1 := ⟨n - 1, by omega⟩
        rw [elements_succ, fuelItem k (by omega)]
        exact later.2 k (by omega)
      unfold elementsTail at read ⊢
      rw [front] at read ⊢
      dsimp only at read ⊢
      split at read
      · next more =>
        obtain ⟨⟨l', rest'⟩, read', same⟩ := Option.map_eq_some_iff.mp read
        obtain ⟨rfl, rfl⟩ := Prod.mk.inj same
        obtain ⟨less, fuel⟩ := items m (Nat.lt_succ_self m) t l' rest' read'
        refine ⟨Nat.le_of_lt less, fun k large => ?_⟩
        rw [if_pos more, fuel k large]
        rfl
      · next last =>
        split at read
        · next closes =>
          cases read
          exact ⟨Nat.le_refl _, fun k _ => by rw [if_neg last, if_pos closes]⟩
        · cases read

theorem members_enough {m : Nat} (values : ∀ k < m, Enough value k)
    (pairs : ∀ k < m, Enough members k) :
    Enough members m := by
  intro s l rest read
  cases m with
  | zero =>
    rw [members] at read
    cases read
  | succ m =>
    rw [members_succ] at read
    cases front : skip s with
    | nil =>
      rw [front] at read
      cases read
    | cons q s1 =>
      have shorter1 := length_of_skip front
      rw [front] at read
      dsimp only at read
      split at read
      · next named =>
        obtain ⟨⟨name, s2⟩, readName, read⟩ := Option.bind_eq_some_iff.mp read
        have shorter2 := text_length readName
        dsimp only at read
        unfold memberValue at read
        cases front2 : skip s2 with
        | nil =>
          rw [front2] at read
          cases read
        | cons c s3 =>
          have shorter3 := length_of_skip front2
          rw [front2] at read
          dsimp only at read
          split at read
          · next separated =>
            obtain ⟨⟨item, s4⟩, readItem, read⟩ := Option.bind_eq_some_iff.mp read
            obtain ⟨lessItem, fuelItem⟩ := values m (Nat.lt_succ_self m) s3 item s4 readItem
            dsimp only at read
            cases front4 : skip s4 with
            | nil =>
              rw [membersTail, front4] at read
              cases read
            | cons d t =>
              have shorter4 := length_of_skip front4
              suffices later : rest.length ≤ t.length ∧
                  ∀ k, t.length < k + rest.length → membersTail k name item s4 = some (l, rest) by
                refine ⟨by omega, fun n large => ?_⟩
                obtain ⟨k, rfl⟩ : ∃ k, n = k + 1 := ⟨n - 1, by omega⟩
                rw [members_succ, front]
                dsimp only
                rw [if_pos named, readName, Option.bind_some, memberValue, front2]
                dsimp only
                rw [if_pos separated, fuelItem k (by omega)]
                exact later.2 k (by omega)
              unfold membersTail at read ⊢
              rw [front4] at read ⊢
              dsimp only at read ⊢
              split at read
              · next more =>
                obtain ⟨⟨l', rest'⟩, read', same⟩ := Option.map_eq_some_iff.mp read
                obtain ⟨rfl, rfl⟩ := Prod.mk.inj same
                obtain ⟨less, fuel⟩ := pairs m (Nat.lt_succ_self m) t l' rest' read'
                refine ⟨Nat.le_of_lt less, fun k large => ?_⟩
                rw [if_pos more, fuel k large]
                rfl
              · next last =>
                split at read
                · next closes =>
                  cases read
                  exact ⟨Nat.le_refl _, fun k _ => by rw [if_neg last, if_pos closes]⟩
                · cases read
          · cases read
      · cases read

/-- The fuel of the reader is no limit: any that is longer than what is consumed gives the same. -/
theorem readers_enough (m : Nat) : Enough value m ∧ Enough elements m ∧ Enough members m := by
  induction m using Nat.strongRecOn with
  | ind m ih =>
    have items := fun k (less : k < m) => (ih k less).2.1
    have pairs := fun k (less : k < m) => (ih k less).2.2
    have values := fun k (less : k < m) => (ih k less).1
    exact ⟨value_enough items pairs, elements_enough values items, members_enough values pairs⟩

/-- Reading a whole text with any fuel that is longer than it. -/
theorem read_of_fuel (s : Bytes) (m : Nat) (large : s.length < m) :
    read s = match value m s with
      | some (v, rest) => if skip rest = [] then some v else none
      | none => none := by
  have same : value (s.length + 1) s = value m s := by
    cases first : value (s.length + 1) s with
    | some out =>
      obtain ⟨w, rest⟩ := out
      exact ((readers_enough _).1 s w rest first).2 m (by omega) |>.symm
    | none =>
      cases second : value m s with
      | none => rfl
      | some out =>
        obtain ⟨w, rest⟩ := out
        rw [((readers_enough m).1 s w rest second).2 (s.length + 1) (by omega)] at first
        cases first
  exact congrArg (fun out : Option (Value × Bytes) =>
    match out with
    | some (v, rest) => if skip rest = [] then some v else none
    | none => none) same

end CgminerT4.Library.JsonText
