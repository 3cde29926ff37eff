import CgminerT4.Library.JsonText

/-!
# The form of JSON texts

The grammar of JSON for texts without white space: brackets, braces, quotes,
commas and escapes. A string may hold control characters and any other bytes.
-/
namespace CgminerT4.Library.JsonForm
open ByteString JsonText

/-- What stands between the quotes of a string. -/
def chars : Bytes → Bool
  | [] => true
  | c :: s =>
    if c = quote then false
    else if c = backslash then
      match s with
      | [] => false
      | e :: s =>
        if e = 0x75 then
          match s with
          | h1 :: h2 :: h3 :: h4 :: s => (codeUnit h1 h2 h3 h4).isSome && chars s
          | _ => false
        else (plainEscape e).isSome && chars s
    else chars s

/-- Items with commas between them. -/
def listed : List Bytes → Bytes
  | [] => []
  | item :: items => item ++ items.flatMap fun next => comma :: next

def memberText (member : Bytes × Bytes) : Bytes := quote :: (member.1 ++ quote :: colon :: member.2)

inductive IsValue : Bytes → Prop
  | string (s : Bytes) (inside : chars s) : IsValue (quote :: (s ++ [quote]))
  | literal (s : Bytes) (named : s ∈ [ascii "true", ascii "false", ascii "null"]) : IsValue s
  | number (s : Bytes) (digits : JsonText.number s = some (s, [])) : IsValue s
  | array (items : List Bytes) (values : ∀ item ∈ items, IsValue item) :
    IsValue (openBracket :: (listed items ++ [closeBracket]))
  | object (members : List (Bytes × Bytes)) (names : ∀ member ∈ members, chars member.1)
    (values : ∀ member ∈ members, IsValue member.2) :
    IsValue (openBrace :: (listed (members.map memberText) ++ [closeBrace]))

/-- Members of an object that are well formed. -/
def Members (members : List (Bytes × Bytes)) : Prop :=
  ∀ member ∈ members, chars member.1 ∧ IsValue member.2

/-- The text is one object. -/
def IsObject (s : Bytes) : Prop :=
  ∃ members, Members members ∧ s = openBrace :: (listed (members.map memberText) ++ [closeBrace])

/-! ## Lists -/

theorem listed_append (a b : List Bytes) (nonempty : a ≠ []) :
    listed (a ++ b) = listed a ++ b.flatMap fun next => comma :: next := by
  cases a with
  | nil => exact (nonempty rfl).elim
  | cons item items =>
    rw [List.cons_append, listed, listed, List.flatMap_append, List.append_assoc]

theorem listed_single (a : Bytes) : listed [a] = a := by
  rw [listed, List.flatMap_nil, List.append_nil]

/-- A loop that writes a comma in front of all items but the one in the first place. -/
theorem listed_places {α : Type} (text : α × Nat → Bytes) (l : List α) :
    (l.zipIdx.flatMap fun p => (if p.2 > 0 then [comma] else []) ++ text p) =
      listed (l.zipIdx.map text) := by
  have behind : ∀ (l : List α) (i : Nat), 0 < i →
      ((l.zipIdx i).flatMap fun p => (if p.2 > 0 then [comma] else []) ++ text p) =
        ((l.zipIdx i).map text).flatMap fun next => comma :: next := by
    intro l
    induction l with
    | nil => exact fun i _ => rfl
    | cons a l ih =>
      intro i positive
      rw [List.zipIdx_cons, List.flatMap_cons, ih (i + 1) (by omega),
        List.map_cons, List.flatMap_cons, if_pos positive]
      rfl
  cases l with
  | nil => rfl
  | cons a l =>
    rw [List.zipIdx_cons, List.flatMap_cons, behind l (0 + 1) (by omega), List.map_cons, listed,
      if_neg (Nat.lt_irrefl 0)]
    rfl

theorem IsObject.value {s : Bytes} (object : IsObject s) : IsValue s := by
  obtain ⟨members, good, rfl⟩ := object
  exact .object members (fun member inside => (good member inside).1) fun member inside =>
    (good member inside).2

/-! ## Strings -/

theorem chars_cons (c : UInt8) (s : Bytes) (plain : ¬ (c = quote ∨ c = backslash)) :
    chars (c :: s) = chars s := by
  rw [not_or] at plain
  rw [chars.eq_def]
  exact (if_neg plain.1).trans (if_neg plain.2)

theorem chars_escape (c : UInt8) (s : Bytes) (special : c = quote ∨ c = backslash) :
    chars (backslash :: c :: s) = chars s := by
  rw [chars.eq_def]
  rcases special with rfl | rfl
  · exact (if_neg (by decide)).trans
      ((if_pos rfl).trans ((if_neg (by decide)).trans (Bool.true_and _)))
  · exact (if_neg (by decide)).trans
      ((if_pos rfl).trans ((if_neg (by decide)).trans (Bool.true_and _)))

/-- A character of ASCII other than a quote and a backslash. -/
def plainChar (c : Char) : Bool := c.toNat < 128 && c.toNat ≠ 0x22 && c.toNat ≠ 0x5c

theorem chars_ascii (s : String) (plain : s.toList.all plainChar) : chars (ascii s) := by
  rw [ascii_eq]
  generalize s.toList = l at plain
  induction l with
  | nil => rfl
  | cons c l ih =>
    rw [List.all_cons, Bool.and_eq_true] at plain
    obtain ⟨one, rest⟩ := plain
    unfold plainChar at one
    rw [Bool.and_eq_true, Bool.and_eq_true, decide_eq_true_iff, decide_eq_true_iff,
      decide_eq_true_iff] at one
    obtain ⟨⟨small, unquoted⟩, unescaped⟩ := one
    have single : String.utf8EncodeChar c = [UInt8.ofNat c.toNat] := by
      unfold Char.toNat at small
      exact if_pos (by omega)
    have value : (UInt8.ofNat c.toNat).toNat = c.toNat :=
      UInt8.toNat_ofNat_of_lt' (show c.toNat < 2 ^ 8 by omega)
    rw [List.flatMap_cons, single, List.singleton_append, chars_cons]
    · exact ih rest
    · rintro (same | same)
      · exact unquoted (value.symm.trans (congrArg UInt8.toNat same))
      · exact unescaped (value.symm.trans (congrArg UInt8.toNat same))

/-! ## Numbers -/

theorem digits_all (s : Bytes) (nonempty : s ≠ []) (all : s.all digit) :
    digits s = some (s, []) := by
  have taken : s.takeWhile digit = s := List.takeWhile_eq_self_iff.mpr (List.all_eq_true.mp all)
  have left : s.dropWhile digit = [] := List.dropWhile_eq_nil_iff.mpr (List.all_eq_true.mp all)
  unfold digits
  rw [taken, left, if_neg nonempty]

/-- Only zero itself begins with a zero. -/
theorem whole_digits (s : Bytes) (nonempty : s ≠ []) (all : s.all digit)
    (leading : s.head? = some 0x30 → s = [0x30]) :
    whole s = some (s, []) := by
  cases s with
  | nil => exact (nonempty rfl).elim
  | cons c s =>
    rw [whole]
    by_cases zero : c = 0x30
    · have single := leading (congrArg some zero)
      rw [List.cons.injEq] at single
      rw [if_pos zero, single.2]
    · rw [if_neg zero]
      exact digits_all (c :: s) nonempty all

theorem number_whole (s : Bytes) (read : whole s = some (s, [])) (positive : s.head? ≠ some 0x2d) :
    number s = some (s, []) := by
  cases s with
  | nil => exact nomatch read
  | cons c s =>
    have plus : ¬ c = 0x2d := fun minus => positive (congrArg some minus)
    unfold number
    simp [if_neg plus, read, JsonText.optional]

theorem number_negative (s : Bytes) (read : whole s = some (s, [])) :
    number (0x2d :: s) = some (0x2d :: s, []) := by
  unfold number
  simp [read, JsonText.optional, prepend]

theorem leading_digit (n : Nat) (positive : 0 < n) : (Nat.toDigits 10 n).head? ≠ some '0' := by
  induction n using Nat.strongRecOn with
  | ind n ih =>
    by_cases small : n < 10
    · rw [Nat.toDigits_of_lt_base small]
      have digit : n = 1 ∨ n = 2 ∨ n = 3 ∨ n = 4 ∨ n = 5 ∨ n = 6 ∨ n = 7 ∨ n = 8 ∨ n = 9 := by omega
      rcases digit with rfl | rfl | rfl | rfl | rfl | rfl | rfl | rfl | rfl <;> decide
    · have before := ih (n / 10) (by omega) (by omega)
      rw [Nat.toDigits_of_base_le (by decide) (by omega),
        List.head?_append, List.head?_eq_some_head Nat.toDigits_ne_nil]
      rw [List.head?_eq_some_head Nat.toDigits_ne_nil] at before
      exact before

theorem whole_decimal (n : Nat) : whole (decimal n) = some (decimal n, []) := by
  have nonempty : decimal n ≠ [] := by
    rw [decimal_nat]
    exact fun none => Nat.toDigits_ne_nil (List.map_eq_nil_iff.mp none)
  refine whole_digits (decimal n) nonempty ?_ ?_
  · refine List.all_eq_true.mpr fun c member => ?_
    obtain ⟨lower, upper⟩ := decimal_digits n c member
    unfold digit
    rw [Bool.and_eq_true, decide_eq_true_iff, decide_eq_true_iff]
    exact ⟨UInt8.le_iff_toNat_le.mpr lower, UInt8.le_iff_toNat_le.mpr upper⟩
  · intro zero
    by_cases positive : 0 < n
    · rw [decimal_nat, List.head?_map] at zero
      obtain ⟨c, first, byte⟩ := Option.map_eq_some_iff.mp zero
      have inside := List.mem_of_head? first
      obtain ⟨lower, upper⟩ :=
        digit_range c (Nat.isDigit_of_mem_toDigits (by decide) (by decide) inside)
      have value : c.toNat = 48 := by
        have same := congrArg UInt8.toNat byte
        rw [UInt8.toNat_ofNat_of_lt' (show c.toNat < 2 ^ 8 by omega)] at same
        exact same
      have zero : c = '0' := Char.toNat_inj.mp value
      rw [zero] at first
      exact (leading_digit n positive first).elim
    · obtain rfl : n = 0 := by omega
      decide +kernel

theorem decimal_negSucc (n : Nat) : decimal (Int.negSucc n) = 0x2d :: decimal (n + 1 : Nat) := by
  unfold decimal
  rw [ascii_eq, ascii_eq]
  have text : (toString (Int.negSucc n)).toList =
      '-' :: (toString ((n + 1 : Nat) : Int)).toList := by
    exact String.toList_append
  rw [text, List.flatMap_cons]
  rfl

theorem number_decimal (n : Int) : number (decimal n) = some (decimal n, []) := by
  cases n with
  | ofNat n =>
    refine number_whole (decimal n) (whole_decimal n) fun minus => ?_
    have lower := (decimal_digits n 0x2d (List.mem_of_head? minus)).1
    exact absurd lower (by decide)
  | negSucc n =>
    rw [decimal_negSucc]
    exact number_negative _ (whole_decimal (n + 1))

end CgminerT4.Library.JsonForm
