import CgminerT4.Library.ByteString

/-!
# JSON texts

A reader of JSON as the standard has it: a text in UTF-8 is one value between
white space. A number stays as it is written. The fuel of the reader bounds the
depth of the recursion; the length of the text is always enough.
-/
namespace CgminerT4.Library.JsonText
open ByteString

inductive Value where
  | null
  | bool (value : Bool)
  | number (text : Bytes)
  | string (text : Bytes)
  | array (items : List Value)
  | object (members : List (Bytes × Value))

def quote : UInt8 := 0x22
def backslash : UInt8 := 0x5c
def comma : UInt8 := 0x2c
def colon : UInt8 := 0x3a
def openBracket : UInt8 := 0x5b
def closeBracket : UInt8 := 0x5d
def openBrace : UInt8 := 0x7b
def closeBrace : UInt8 := 0x7d

/-! ## UTF-8 -/

def continuation (b : UInt8) : Bool := 0x80 ≤ b && b < 0xc0

/-- Every character is complete and in its shortest form, and none is a surrogate. -/
def utf8 : Bytes → Bool
  | [] => true
  | a :: s =>
    if a < 0x80 then utf8 s
    else if 0xc2 ≤ a && a < 0xe0 then
      match s with
      | b :: s => continuation b && utf8 s
      | _ => false
    else if 0xe0 ≤ a && a < 0xf0 then
      match s with
      | b :: c :: s =>
        continuation b && continuation c && (a != 0xe0 || 0xa0 ≤ b) &&
          (a != 0xed || b < 0xa0) && utf8 s
      | _ => false
    else if 0xf0 ≤ a && a < 0xf5 then
      match s with
      | b :: c :: d :: s =>
        continuation b && continuation c && continuation d && (a != 0xf0 || 0x90 ≤ b) &&
          (a != 0xf4 || b < 0x90) && utf8 s
      | _ => false
    else false

/-- The bytes of a character. -/
def encode (n : Nat) : Bytes :=
  if n < 0x80 then [UInt8.ofNat n]
  else if n < 0x800 then [UInt8.ofNat (0xc0 + n / 64), UInt8.ofNat (0x80 + n % 64)]
  else if n < 0x10000 then
    [UInt8.ofNat (0xe0 + n / 4096), UInt8.ofNat (0x80 + n / 64 % 64), UInt8.ofNat (0x80 + n % 64)]
  else
    [UInt8.ofNat (0xf0 + n / 262144), UInt8.ofNat (0x80 + n / 4096 % 64),
      UInt8.ofNat (0x80 + n / 64 % 64), UInt8.ofNat (0x80 + n % 64)]

/-! ## Strings -/

def hexValue (c : UInt8) : Option Nat :=
  if 0x30 ≤ c && c ≤ 0x39 then some (c.toNat - 0x30)
  else if 0x61 ≤ c && c ≤ 0x66 then some (c.toNat - 0x61 + 10)
  else if 0x41 ≤ c && c ≤ 0x46 then some (c.toNat - 0x41 + 10)
  else none

/-- The code unit behind \u. -/
def codeUnit (a b c d : UInt8) : Option Nat := do
  let a ← hexValue a
  let b ← hexValue b
  let c ← hexValue c
  let d ← hexValue d
  some (((a * 16 + b) * 16 + c) * 16 + d)

/-- The escapes of one character. -/
def plainEscape (c : UInt8) : Option UInt8 :=
  if c = quote then some quote
  else if c = backslash then some backslash
  else if c = 0x2f then some 0x2f
  else if c = 0x62 then some 0x08
  else if c = 0x66 then some 0x0c
  else if c = 0x6e then some 0x0a
  else if c = 0x72 then some 0x0d
  else if c = 0x74 then some 0x09
  else none

def prepend (front : Bytes) (read : Bytes × Bytes) : Bytes × Bytes := (front ++ read.1, read.2)

/-- The characters of a string up to its closing quote, and what follows it. -/
def characters : Bytes → Option (Bytes × Bytes)
  | [] => none
  | c :: s =>
    if c = quote then some ([], s)
    else if c = backslash then
      match s with
      | [] => none
      | e :: s =>
        if e = 0x75 then
          match s with
          | h1 :: h2 :: h3 :: h4 :: s =>
            match codeUnit h1 h2 h3 h4 with
            | none => none
            | some unit =>
              if 0xd800 ≤ unit ∧ unit < 0xdc00 then
                match s with
                | b :: u :: l1 :: l2 :: l3 :: l4 :: s =>
                  match codeUnit l1 l2 l3 l4 with
                  | none => none
                  | some low =>
                    if b = backslash ∧ u = 0x75 ∧ 0xdc00 ≤ low ∧ low < 0xe000 then
                      (characters s).map
                        (prepend (encode (0x10000 + (unit - 0xd800) * 0x400 + (low - 0xdc00))))
                    else none
                | _ => none
              else if 0xdc00 ≤ unit ∧ unit < 0xe000 then none
              else (characters s).map (prepend (encode unit))
          | _ => none
        else
          match plainEscape e with
          | some e => (characters s).map (prepend [e])
          | none => none
    else if c < 0x20 then none
    else (characters s).map (prepend [c])

/-- A string behind its opening quote. -/
def text (s : Bytes) : Option (Bytes × Bytes) := (characters s).filter fun read => utf8 read.1

/-! ## Values -/

def space (c : UInt8) : Bool := c = 0x20 || c = 0x09 || c = 0x0a || c = 0x0d

def skip (s : Bytes) : Bytes := s.dropWhile space

def digit (c : UInt8) : Bool := 0x30 ≤ c && c ≤ 0x39

/-- A part of a number, when its first character is there. -/
def optional (starts : UInt8 → Bool) (part : Bytes → Option (Bytes × Bytes)) :
    Bytes → Option (Bytes × Bytes)
  | [] => some ([], [])
  | c :: s => if starts c then (part s).map (prepend [c]) else some ([], c :: s)

def digits (s : Bytes) : Option (Bytes × Bytes) :=
  if s.takeWhile digit = [] then none else some (s.takeWhile digit, s.dropWhile digit)

/-- No zero stands before other digits. -/
def whole : Bytes → Option (Bytes × Bytes)
  | [] => none
  | c :: s => if c = 0x30 then some ([c], s) else digits (c :: s)

def exponent (s : Bytes) : Option (Bytes × Bytes) :=
  match s with
  | [] => none
  | c :: rest => if c = 0x2b || c = 0x2d then (digits rest).map (prepend [c]) else digits s

def number (s : Bytes) : Option (Bytes × Bytes) := do
  let (front, s) ← match s with
    | [] => none
    | c :: rest => if c = 0x2d then (whole rest).map (prepend [c]) else whole s
  let (fraction, s) ← optional (· = 0x2e) digits s
  let (power, s) ← optional (fun c => c = 0x65 || c = 0x45) exponent s
  some (front ++ fraction ++ power, s)

/-- A literal name or a number. -/
def scalar (s : Bytes) : Option (Value × Bytes) :=
  if (ascii "true").isPrefixOf s then some (.bool true, s.drop 4)
  else if (ascii "false").isPrefixOf s then some (.bool false, s.drop 5)
  else if (ascii "null").isPrefixOf s then some (.null, s.drop 4)
  else (number s).map fun read => (.number read.1, read.2)

mutual

def value : Nat → Bytes → Option (Value × Bytes)
  | 0, _ => none
  | n + 1, s =>
    match skip s with
    | [] => none
    | c :: s =>
      if c = quote then (text s).map fun read => (.string read.1, read.2)
      else if c = openBracket then
        if (skip s).head? = some closeBracket then some (.array [], (skip s).drop 1)
        else (elements n s).map fun read => (.array read.1, read.2)
      else if c = openBrace then
        if (skip s).head? = some closeBrace then some (.object [], (skip s).drop 1)
        else (members n s).map fun read => (.object read.1, read.2)
      else scalar (c :: s)

/-- The items of an array up to its end. -/
def elements : Nat → Bytes → Option (List Value × Bytes)
  | 0, _ => none
  | n + 1, s =>
    match value n s with
    | none => none
    | some (item, s) =>
      match skip s with
      | [] => none
      | c :: s =>
        if c = comma then (elements n s).map fun read => (item :: read.1, read.2)
        else if c = closeBracket then some ([item], s)
        else none

/-- The members of an object up to its end. -/
def members : Nat → Bytes → Option (List (Bytes × Value) × Bytes)
  | 0, _ => none
  | n + 1, s =>
    match skip s with
    | [] => none
    | c :: s =>
      if c = quote then
        match text s with
        | none => none
        | some (name, s) =>
          match skip s with
          | [] => none
          | c :: s =>
            if c = colon then
              match value n s with
              | none => none
              | some (item, s) =>
                match skip s with
                | [] => none
                | c :: s =>
                  if c = comma then (members n s).map fun read => ((name, item) :: read.1, read.2)
                  else if c = closeBrace then some ([(name, item)], s)
                  else none
            else none
      else none

end

/-- The value of a whole text. -/
def read (s : Bytes) : Option Value :=
  match value (s.length + 1) s with
  | some (v, rest) => if skip rest = [] then some v else none
  | none => none

/-! ## Strings as they are written -/

/-- A string with the escapes that it needs when it has no control characters. -/
def escaped (s : Bytes) : Bytes :=
  s.flatMap fun c => if c = backslash ∨ c = quote then [backslash, c] else [c]

/-- What may stand in a string in this way. -/
def clean (s : Bytes) : Bool := s.all (fun c => 0x20 ≤ c) && utf8 s

@[simp] theorem escaped_nil : escaped [] = [] := rfl

theorem escaped_cons (c : UInt8) (s : Bytes) :
    escaped (c :: s) = (if c = backslash ∨ c = quote then [backslash, c] else [c]) ++ escaped s :=
  rfl

theorem escaped_append (a b : Bytes) : escaped (a ++ b) = escaped a ++ escaped b :=
  List.flatMap_append

theorem escaped_plain (s : Bytes)
    (plain : ∀ c ∈ s, ¬ (c = backslash ∨ c = quote)) : escaped s = s := by
  induction s with
  | nil => rfl
  | cons c s ih =>
    rw [escaped_cons, if_neg (plain c List.mem_cons_self),
      ih fun d member => plain d (List.mem_cons_of_mem c member)]
    rfl

theorem utf8_ascii (c : UInt8) (s : Bytes) (sevenBit : c < 0x80) : utf8 (c :: s) = utf8 s := by
  rw [utf8.eq_def]
  exact if_pos sevenBit

/-- A character of seven bits ends what stands before it. -/
theorem utf8_split (a : Bytes) (c : UInt8) (b : Bytes) (sevenBit : c < 0x80) :
    utf8 (a ++ c :: b) = (utf8 a && utf8 b) := by
  have ended : continuation c = false := by
    unfold continuation
    simp [UInt8.not_le.mpr sevenBit]
  fun_induction utf8 a with
  | case1 => rw [List.nil_append, utf8_ascii c b sevenBit, Bool.true_and]
  | case2 x s small ih => rw [List.cons_append, utf8_ascii x _ small, ih]
  | case3 x high two y s ih =>
    rw [List.cons_append, List.cons_append, utf8.eq_def]
    simp only [if_neg high, if_pos two, ih, Bool.and_assoc]
  | case4 x s high two short =>
    cases s with
    | nil =>
      rw [List.cons_append, List.nil_append, utf8.eq_def]
      simp only [if_neg high, if_pos two, ended, Bool.false_and]
    | cons y s => exact (short y s rfl).elim
  | case5 x high two three y z s ih =>
    rw [List.cons_append, List.cons_append, List.cons_append, utf8.eq_def]
    simp only [if_neg high, if_neg two, if_pos three, ih, Bool.and_assoc]
  | case6 x s high two three short =>
    rw [List.cons_append, utf8.eq_def]
    simp only [if_neg high, if_neg two, if_pos three]
    match s, short with
    | [], _ => cases b <;> simp [ended]
    | [y], _ => simp [ended]
    | y :: z :: s, short => exact (short y z s rfl).elim
  | case7 x high two three four y z w s ih =>
    rw [List.cons_append, List.cons_append, List.cons_append, List.cons_append, utf8.eq_def]
    simp only [if_neg high, if_neg two, if_neg three, if_pos four, ih, Bool.and_assoc]
  | case8 x s high two three four short =>
    rw [List.cons_append, utf8.eq_def]
    simp only [if_neg high, if_neg two, if_neg three, if_pos four]
    match s, short with
    | [], _ => rcases b with _ | ⟨b1, _ | ⟨b2, b⟩⟩ <;> simp [ended]
    | [y], _ => cases b <;> simp [ended]
    | [y, z], _ => simp [ended]
    | y :: z :: w :: s, short => exact (short y z w s rfl).elim
  | case9 x s high two three four =>
    rw [List.cons_append, utf8.eq_def]
    simp only [if_neg high, if_neg two, if_neg three, if_neg four, Bool.false_and]

/-- A printable character of seven bits adds no condition. -/
theorem clean_cons (c : UInt8) (s : Bytes) (printable : 0x20 ≤ c) (sevenBit : c < 0x80) :
    clean (c :: s) = clean s := by
  unfold clean
  rw [List.all_cons, decide_eq_true printable, Bool.true_and, utf8_ascii c s sevenBit]

theorem clean_plain (p s : Bytes)
    (plain : ∀ c ∈ p, 0x20 ≤ c ∧ c < 0x80) : clean (p ++ s) = clean s := by
  induction p with
  | nil => rfl
  | cons c p ih =>
    obtain ⟨printable, sevenBit⟩ := plain c List.mem_cons_self
    rw [List.cons_append, clean_cons c _ printable sevenBit,
      ih fun d member => plain d (List.mem_cons_of_mem c member)]

theorem clean_split (a : Bytes) (c : UInt8) (b : Bytes) (printable : 0x20 ≤ c)
    (sevenBit : c < 0x80) :
    clean (a ++ c :: b) = (clean a && clean b) := by
  unfold clean
  rw [List.all_append, List.all_cons, decide_eq_true printable, Bool.true_and,
    utf8_split a c b sevenBit]
  cases a.all fun c => decide (0x20 ≤ c) <;> cases b.all fun c => decide (0x20 ≤ c) <;> simp

theorem characters_quote (s : Bytes) : characters (quote :: s) = some ([], s) := by
  rw [characters.eq_def]
  exact if_pos rfl

theorem characters_escape (c : UInt8) (s : Bytes) (special : c = backslash ∨ c = quote) :
    characters (backslash :: c :: s) = (characters s).map (prepend [c]) := by
  rw [characters.eq_def]
  rcases special with rfl | rfl
  · exact (if_neg (by decide)).trans ((if_pos rfl).trans (if_neg (by decide)))
  · exact (if_neg (by decide)).trans ((if_pos rfl).trans (if_neg (by decide)))

theorem characters_cons (c : UInt8) (s : Bytes) (plain : ¬ (c = backslash ∨ c = quote)) :
    characters (c :: s) = if c < 0x20 then none else (characters s).map (prepend [c]) := by
  rw [not_or] at plain
  rw [characters.eq_def]
  exact (if_neg plain.2).trans (if_neg plain.1)

/-- Reading back the characters of a string. -/
theorem characters_escaped (s rest : Bytes) :
    characters (escaped s ++ quote :: rest) =
      if s.all (fun c => 0x20 ≤ c) then some (s, rest) else none := by
  induction s with
  | nil => exact characters_quote rest
  | cons c s ih =>
    rw [escaped_cons, List.append_assoc, List.all_cons]
    by_cases special : c = backslash ∨ c = quote
    · have printable : decide (0x20 ≤ c) = true := by rcases special with rfl | rfl <;> rfl
      rw [if_pos special, List.cons_append, List.cons_append, List.nil_append,
        characters_escape c _ special, ih, printable, Bool.true_and]
      split <;> rfl
    · rw [if_neg special, List.cons_append, List.nil_append, characters_cons c _ special, ih]
      by_cases control : c < 0x20
      · rw [if_pos control, decide_eq_false (UInt8.not_le.mpr control)]
        rfl
      · rw [if_neg control, decide_eq_true (UInt8.not_lt.mp control), Bool.true_and]
        split <;> rfl

theorem text_escaped (s rest : Bytes) :
    text (escaped s ++ quote :: rest) = if clean s then some (s, rest) else none := by
  unfold text clean
  rw [characters_escaped]
  by_cases printable : s.all (fun c => 0x20 ≤ c)
  · rw [if_pos printable, printable, Bool.true_and]
    by_cases valid : utf8 s
    · rw [if_pos valid]
      exact Option.filter_some_pos valid
    · rw [if_neg valid]
      exact Option.filter_some_neg (Bool.not_eq_true _ |>.mp valid)
  · rw [if_neg printable, Bool.not_eq_true _ |>.mp printable, Bool.false_and]
    rfl

/-! ## White space -/

theorem skip_spaces (w s : Bytes) (spaces : w.all space) : skip (w ++ s) = skip s := by
  unfold skip
  exact List.dropWhile_append_of_pos fun c member => List.all_eq_true.mp spaces c member

theorem skip_solid (c : UInt8) (s : Bytes) (solid : space c = false) : skip (c :: s) = c :: s := by
  unfold skip
  rw [List.dropWhile_cons_of_neg (by rw [solid]; decide)]

theorem skip_to (w : Bytes) (c : UInt8) (s : Bytes) (spaces : w.all space)
    (solid : space c = false) :
    skip (w ++ c :: s) = c :: s := by
  rw [skip_spaces w _ spaces, skip_solid c s solid]

/-! ## Objects of strings as they are written -/

/-- A member with white space in front of its name, of the colon and of its value. -/
def memberText (w name w2 w3 v : Bytes) (rest : Bytes) : Bytes :=
  w ++ quote :: (escaped name ++
    quote :: (w2 ++ colon :: (w3 ++ quote :: (escaped v ++ quote :: rest))))

theorem value_string (n : Nat) (w v rest : Bytes) (spaces : w.all space) :
    value (n + 1) (w ++ quote :: (escaped v ++ quote :: rest)) =
      if clean v then some (.string v, rest) else none := by
  rw [value, skip_to w quote _ spaces (by decide)]
  show (text _).map _ = _
  rw [text_escaped]
  split <;> rfl

/-- A member is read up to what follows it. -/
theorem members_value (n : Nat) (w name w2 s : Bytes) (spaces : w.all space)
    (spaces2 : w2.all space) (named : clean name) :
    members (n + 1) (w ++ quote :: (escaped name ++ quote :: (w2 ++ colon :: s))) =
      match value n s with
      | none => none
      | some (item, rest) =>
        match skip rest with
        | [] => none
        | c :: s =>
          if c = comma then (members n s).map fun read => ((name, item) :: read.1, read.2)
          else if c = closeBrace then some ([(name, item)], s)
          else none := by
  rw [members, skip_to w quote _ spaces (by decide)]
  simp only [if_true, text_escaped, named, skip_to w2 colon _ spaces2 (by decide)]

theorem members_more (n : Nat) (w name w2 w3 v rest : Bytes) (spaces : w.all space)
    (spaces2 : w2.all space) (spaces3 : w3.all space) (named : clean name) :
    members (n + 2) (memberText w name w2 w3 v (comma :: rest)) =
      if clean v then (members (n + 1) rest).map fun read =>
        ((name, .string v) :: read.1, read.2) else none := by
  unfold memberText
  rw [members_value (n + 1) w name w2 _ spaces spaces2 named, value_string n w3 v _ spaces3]
  cases clean v
  · rfl
  · simp only [if_true, skip_solid comma rest (by decide)]

theorem members_last (n : Nat) (w name w2 w3 v w4 rest : Bytes) (spaces : w.all space)
    (spaces2 : w2.all space) (spaces3 : w3.all space) (spaces4 : w4.all space)
    (named : clean name) :
    members (n + 2) (memberText w name w2 w3 v (w4 ++ closeBrace :: rest)) =
      if clean v then some ([(name, .string v)], rest) else none := by
  unfold memberText
  rw [members_value (n + 1) w name w2 _ spaces spaces2 named, value_string n w3 v _ spaces3]
  cases clean v
  · rfl
  · simp only [if_true, skip_to w4 closeBrace rest spaces4 (by decide)]
    rfl

/-- A value that is not empty behind a bracket. -/
theorem value_array (n : Nat) (w s : Bytes) (spaces : w.all space)
    (items : (skip s).head? ≠ some closeBracket) :
    value (n + 1) (w ++ openBracket :: s) = (elements n s).map fun read =>
      (.array read.1, read.2) := by
  rw [value, skip_to w openBracket _ spaces (by decide)]
  exact if_neg items

theorem value_emptyArray (n : Nat) (w w2 s : Bytes) (spaces : w.all space)
    (spaces2 : w2.all space) :
    value (n + 1) (w ++ openBracket :: (w2 ++ closeBracket :: s)) = some (.array [], s) := by
  have behind : skip (w2 ++ closeBracket :: s) = closeBracket :: s :=
    skip_to w2 closeBracket s spaces2 (by decide)
  rw [value, skip_to w openBracket _ spaces (by decide)]
  simp only [if_neg (show ¬ openBracket = quote by decide), behind]
  rfl

theorem value_object (n : Nat) (w s : Bytes) (spaces : w.all space)
    (items : (skip s).head? ≠ some closeBrace) :
    value (n + 1) (w ++ openBrace :: s) = (members n s).map fun read =>
      (.object read.1, read.2) := by
  rw [value, skip_to w openBrace _ spaces (by decide)]
  exact if_neg items

end CgminerT4.Library.JsonText
