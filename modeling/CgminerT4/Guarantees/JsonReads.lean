import CgminerT4.Guarantees.JsonStrings
import CgminerT4.Library.DecimalNumber

/-!
# What jansson reads

The parser gives the value that the standard reads from the text, as far as the
library can hold it, and an error otherwise.
-/
namespace CgminerT4.Guarantees.JsonReads
open Library.ByteString Library.JsonText Source.JsonUtf Source.JsonLoad

variable {R : Type}

/-! ## Tokens -/

variable (strtod : Bytes → Option R) (flags : Flags)

def scalarValue : Value → Option (JsonValue R)
  | .null => some .null
  | .bool value => some (.bool value)
  | .number text => numberValue strtod flags text
  | _ => none

/-- The token in front of the text is scanned. -/
def Scanned (lex : Lexer R) (s : Bytes) : Prop :=
  match skip s with
  | [] => lex.token = .eof
  | c :: t =>
    if isPunctuation c then lex.token = .char c ∧ Ready lex.stream t
    else if c = quote then
      match text t with
      | none => lex.token = .invalid
      | some (value, rest) => lex.token = .string value ∧ Ready lex.stream rest
    else
      match scalar (c :: t) with
      | none => lex.token = .invalid
      | some (v, rest) => Lexed lex (scalarValue strtod flags v) rest

variable {strtod flags}

theorem isAlpha_small (c : UInt8) (found : isAlpha c = true) : c < 0x80 := by
  simp only [isAlpha, Bool.or_eq_true, Bool.and_eq_true, decide_eq_true_eq] at found
  rcases found with ⟨_, high⟩ | ⟨_, high⟩ <;> exact UInt8.lt_of_le_of_lt high (by decide)

theorem number_start {c : UInt8} {t : Bytes} {read : Bytes × Bytes}
    (reads : number (c :: t) = some read) :
    isDigit c = true ∨ c = 0x2D := by
  rw [number_behind, Option.bind_eq_some_iff] at reads
  obtain ⟨front, first, _⟩ := reads
  rw [numberFront] at first
  split at first
  · next minus => exact .inr minus
  · rw [whole] at first
    split at first
    · next zero =>
      subst zero
      exact .inl rfl
    · unfold digits at first
      split at first
      · cases first
      · next filled =>
        by_cases found : digit c = true
        · exact .inl found
        · exact absurd (List.takeWhile_cons_of_neg found) filled

/-- A literal name in front of the text. -/
theorem name_front {name s : Bytes} (front : name.isPrefixOf s) :
    s = name ++ s.drop name.length := by
  obtain ⟨t, rfl⟩ := List.isPrefixOf_iff_prefix.mp front
  rw [List.drop_left' rfl]

theorem scalar_start {c : UInt8} {t : Bytes} {read : Value × Bytes}
    (scanned : scalar (c :: t) = some read) :
    (isDigit c || decide (c = 0x2D)) = true ∨ isAlpha c = true := by
  have letter {a : UInt8} {name : Bytes} (front : (a :: name).isPrefixOf (c :: t)) : c = a :=
    (List.cons.inj (name_front front)).1
  unfold scalar at scanned
  rw [true_bytes, false_bytes, null_bytes] at scanned
  split at scanned
  · next front => exact .inr (by rw [letter front]; decide)
  · split at scanned
    · next front => exact .inr (by rw [letter front]; decide)
    · split at scanned
      · next front => exact .inr (by rw [letter front]; decide)
      · obtain ⟨numeral, some', _⟩ := Option.map_eq_some_iff.mp scanned
        rcases number_start some' with firstDigit | minus
        · exact .inl (by rw [firstDigit]; rfl)
        · exact .inl (by rw [minus]; rfl)

/-- What follows a name that goes on with a letter. -/
theorem stray_alpha {c : UInt8} {t : Bytes} (found : isAlpha c = true) : Stray (c :: t) := by
  have solid : space c = false := by
    cases spaced : space c with
    | false => rfl
    | true =>
      simp only [space, Bool.or_eq_true, decide_eq_true_eq] at spaced
      rcases spaced with ((rfl | rfl) | rfl) | rfl <;> exact absurd found (by decide)
  refine ⟨c, t, skip_solid c t solid, ?_, ?_, ?_⟩ <;> rintro rfl <;> exact absurd found (by decide)

/-- A literal name is the whole word, or the word goes on behind it. -/
theorem name_word {name s : Bytes} (front : name.isPrefixOf s) (letters : name.all isAlpha = true) :
    (s.takeWhile isAlpha = name ∧ s.dropWhile isAlpha = s.drop name.length) ∨
      (Stray (s.drop name.length) ∧ ∃ c t, s.takeWhile isAlpha = name ++ c :: t) := by
  have split := name_front front
  have word : s.takeWhile isAlpha = name ++ (s.drop name.length).takeWhile isAlpha := by
    rw [split, List.takeWhile_append_of_pos (List.all_eq_true.mp letters), ← split]
  have behind : s.dropWhile isAlpha = (s.drop name.length).dropWhile isAlpha := by
    rw [split, List.dropWhile_append_of_pos (List.all_eq_true.mp letters), ← split]
  rcases rest : s.drop name.length with _ | ⟨c, t⟩
  · rw [rest] at word behind
    exact .inl ⟨by rw [word]; exact List.append_nil _, behind⟩
  · rw [rest] at word behind
    cases found : isAlpha c with
    | true =>
      rw [List.takeWhile_cons_of_pos found] at word
      exact .inr ⟨stray_alpha found, c, _, word⟩
    | false =>
      rw [List.takeWhile_cons_of_neg (by rw [found]; decide), List.append_nil] at word
      rw [List.dropWhile_cons_of_neg (by rw [found]; decide)] at behind
      exact .inl ⟨word, behind⟩

theorem alpha_other {c : UInt8} (found : isAlpha c = true) : ¬ (isDigit c = true ∨ c = 0x2D) := by
  simp only [isAlpha, isDigit, Bool.or_eq_true, Bool.and_eq_true, decide_eq_true_eq,
    UInt8.le_iff_toNat_le, ← UInt8.toNat_inj, UInt8.reduceToNat] at found ⊢
  omega

/-- The loop over letters reads the literal names. -/
theorem identifier_lexed {lex : Lexer R} {s : Bytes} {c : UInt8} {t : Bytes} (split : s = c :: t)
    (found : isAlpha c = true) (ready : Ready lex.stream (s.dropWhile isAlpha))
    (token : lex.token = identifierToken (s.takeWhile isAlpha)) :
    match scalar s with
    | none => lex.token = .invalid
    | some (v, rest) => Lexed lex (scalarValue strtod flags v) rest := by
  have lexed {name : Bytes} {v : Value} {value : JsonValue R} (front : name.isPrefixOf s)
      (letters : name.all isAlpha = true) (holds : scalarValue strtod flags v = some value)
      (named : identifierToken (R := R) name = tokenOf value)
      (longer : ∀ c t, identifierToken (R := R) (name ++ c :: t) = .invalid) :
      Lexed lex (scalarValue strtod flags v) (s.drop name.length) := by
    rcases name_word front letters with ⟨word, behind⟩ | ⟨stray, d, t', word⟩
    · exact .inl ⟨value, holds, by rw [token, word, named], by rw [← behind]; exact ready⟩
    · exact .inr ⟨by rw [token, word, longer], .inr stray⟩
  unfold scalar identifierToken at *
  rw [true_bytes, false_bytes, null_bytes] at *
  by_cases isTrue : [0x74, 0x72, 0x75, 0x65].isPrefixOf s
  · rw [if_pos isTrue]
    exact lexed (v := .bool true) isTrue (by decide) rfl rfl fun c t => by simp
  · by_cases isFalseName : [0x66, 0x61, 0x6C, 0x73, 0x65].isPrefixOf s
    · rw [if_neg isTrue, if_pos isFalseName]
      exact lexed (v := .bool false) isFalseName (by decide) rfl rfl fun c t => by simp
    · by_cases isNull : [0x6E, 0x75, 0x6C, 0x6C].isPrefixOf s
      · rw [if_neg isTrue, if_neg isFalseName, if_pos isNull]
        exact lexed (v := .null) isNull (by decide) rfl rfl fun c t => by simp
      · have noNumber : number s = none := by
          cases read : number s with
          | none => rfl
          | some out =>
            subst split
            exact absurd (number_start read) (alpha_other found)
        have differs {name : Bytes} (away : ¬ name.isPrefixOf s = true) :
            s.takeWhile isAlpha ≠ name := by
          rintro rfl
          exact away (List.isPrefixOf_iff_prefix.mpr (List.takeWhile_prefix isAlpha))
        rw [if_neg isTrue, if_neg isFalseName, if_neg isNull, noNumber, token]
        dsimp only [Option.map_none]
        rw [if_neg (differs isTrue), if_neg (differs isFalseName), if_neg (differs isNull)]

/-- No value begins with such a character. -/
theorem scalar_other {c : UInt8} {t : Bytes} (noNumber : (isDigit c || decide (c = 0x2D)) = false)
    (noName : isAlpha c = false) :
    scalar (c :: t) = none := by
  cases read : scalar (c :: t) with
  | none => rfl
  | some out =>
    rcases scalar_start read with begins | name
    · rw [noNumber] at begins
      cases begins
    · rw [noName] at name
      cases name

theorem scalar_number {c : UInt8} {t : Bytes} (noName : isAlpha c = false) :
    scalar (c :: t) = (number (c :: t)).map fun read => (.number read.1, read.2) := by
  have letter {a : UInt8} {name : Bytes} (first : isAlpha a = true) :
      ¬ (a :: name).isPrefixOf (c :: t) = true := by
    intro front
    obtain rfl := (List.cons.inj (name_front front)).1
    rw [first] at noName
    cases noName
  unfold scalar
  rw [true_bytes, false_bytes, null_bytes, if_neg (letter (by decide)), if_neg (letter (by decide)),
    if_neg (letter (by decide))]

theorem isPunctuation_small (c : UInt8) (found : isPunctuation c = true) : c < 0x80 := by
  simp only [isPunctuation, Bool.or_eq_true, decide_eq_true_eq] at found
  rcases found with ((((rfl | rfl) | rfl) | rfl) | rfl) | rfl <;> decide

/-- lex_scan reads the token in front of the text. -/
theorem lexScan_scanned (strtod : Bytes → Option R) (flags : Flags) (lex : Lexer R) (s : Bytes)
    (ready : Ready lex.stream s) :
    Scanned strtod flags (lexScan strtod flags lex) s ∧
      (lexScan strtod flags lex).depth = lex.depth := by
  obtain ⟨got, lex1, skipped, stopped, saved, kept⟩ :=
    skipSpaces_ready (lex.stream.left + 1) ({ lex with savedText := [] } : Lexer R) s ready
      (Nat.lt_succ_of_le (takeWhile_left isSpace isSpace_small ready))
  unfold lexScan Scanned
  dsimp only
  rw [skipped]
  cases got with
  | eof =>
    dsimp only
    generalize front : skip s = s' at stopped
    cases stopped
    exact ⟨rfl, kept.1⟩
  | error =>
    dsimp only
    generalize front : skip s = s' at stopped
    cases stopped with
    | error _ _ broken =>
      refine ⟨?_, kept.1⟩
      cases s' with
      | nil => exact absurd rfl broken.1
      | cons c t =>
        have large : ¬ c < 0x80 := fun small => broken.2 [c] t (.one c small) rfl
        have noDigit : (isDigit c || decide (c = 0x2D)) = false := by
          by_contra found
          simp only [Bool.not_eq_false, Bool.or_eq_true, decide_eq_true_eq] at found
          rcases found with isOne | rfl
          · exact large (isDigit_small c isOne)
          · exact large (by decide)
        have noName : isAlpha c = false := by
          by_contra found
          exact large (isAlpha_small c (by simpa using found))
        dsimp only
        rw [if_neg fun found => large (isPunctuation_small c found),
          if_neg (by rintro rfl; exact large (by decide)), scalar_other noDigit noName]
  | byte c =>
    dsimp only
    generalize front : skip s = s' at stopped
    obtain ⟨t, rfl⟩ : ∃ t, s' = c :: t := by
      cases stopped with
      | byte _ e t => exact ⟨e ++ t, rfl⟩
    have savedC : (lexSave lex1 c).savedText = [c] := by
      rw [lexSave, saved]
      rfl
    dsimp only
    by_cases punctuation : isPunctuation c = true
    · obtain ⟨t', same, ready'⟩ := stopped.ascii (isPunctuation_small c punctuation)
      obtain rfl := (List.cons.inj same).2
      rw [if_pos punctuation, if_pos punctuation]
      exact ⟨⟨rfl, ready'⟩, kept.1⟩
    · rw [if_neg punctuation, if_neg punctuation]
      by_cases string : c = quote
      · subst string
        obtain ⟨t', same, ready'⟩ := stopped.ascii (by decide)
        obtain rfl := (List.cons.inj same).2
        rw [if_pos rfl, if_pos rfl]
        obtain ⟨read, depth⟩ := lexScanString_read (lexSave lex1 quote) t ready' savedC
        refine ⟨?_, depth.trans kept.1⟩
        cases string : text t with
        | none =>
          rw [string] at read
          exact read
        | some out =>
          rw [string] at read
          exact read
      · rw [if_neg string, if_neg string]
        by_cases begins : (isDigit c || decide (c = 0x2D)) = true
        · have noName : isAlpha c = false := by
            by_contra found
            simp only [Bool.or_eq_true, decide_eq_true_eq] at begins
            exact alpha_other (by simpa using found) begins
          rw [if_pos begins, scalar_number noName]
          obtain ⟨lexed, depth⟩ := lexScanNumber_lexed (lexSave lex1 c) c t stopped savedC
          refine ⟨?_, depth.trans kept.1⟩
          cases read : number (c :: t) with
          | none =>
            rw [read] at lexed
            exact lexed
          | some out =>
            rw [read] at lexed
            exact lexed
        · rw [if_neg begins]
          by_cases name : isAlpha c = true
          · obtain ⟨t', same, ready'⟩ := stopped.ascii (isAlpha_small c name)
            obtain rfl := (List.cons.inj same).2
            obtain ⟨got', lex2, scanned, stopped', saved', kept'⟩ :=
              scanAll_ready isAlpha isAlpha_small (lexSave lex1 c) t ready'
            rw [if_pos name, scanned]
            obtain ⟨ready2, spelled, kept2⟩ := ungetUnsave_spec stopped' saved'
            refine ⟨identifier_lexed rfl name ?_ ?_, kept2.1.trans (kept'.1.trans kept.1)⟩
            · rw [List.dropWhile_cons_of_pos name]
              exact ready2
            · rw [List.takeWhile_cons_of_pos name]
              dsimp only
              rw [spelled, savedC]
              rfl
          · rw [if_neg name, scalar_other (by simpa using begins) (by simpa using name)]
            exact ⟨rfl, kept.1⟩

/-! ## The values that the library holds -/

variable (strtod flags)

/-- A member set in an object that has been built so far. -/
def addMember (build : Value → Option (JsonValue R)) (object : List (Bytes × JsonValue R))
    (member : Bytes × Value) :
    Option (List (Bytes × JsonValue R)) :=
  if member.1.contains 0 then none
  else if flags.rejectDuplicates && (object.any fun other => other.1 = member.1) then none
  else (build member.2).map fun value => objectSet object member.1 value

/-- The value of a JSON value of at most `depth` levels: no NUL in a string unless it is
allowed, none in a key, numbers in range, no key twice where that is refused. -/
def build : Nat → Value → Option (JsonValue R)
  | 0, _ => none
  | _ + 1, .string value =>
    if !flags.allowNul && value.contains 0 then none else some (.string value)
  | depth + 1, .array items => (items.mapM (build depth)).map .array
  | depth + 1, .object members => (members.foldlM (addMember flags (build depth)) []).map .object
  | _ + 1, v => scalarValue strtod flags v

variable {strtod flags}

theorem scalar_build (strtod : Bytes → Option R) (flags : Flags) {s rest : Bytes} {v : Value}
    (depth : Nat) (read : scalar s = some (v, rest)) :
    build strtod flags (depth + 1) v = scalarValue strtod flags v := by
  unfold scalar at read
  split at read
  · cases read
    rfl
  · split at read
    · cases read
      rfl
    · split at read
      · cases read
        rfl
      · obtain ⟨numeral, _, same⟩ := Option.map_eq_some_iff.mp read
        cases same
        rfl

variable (strtod flags)

/-- The rest of an array of which these items are built. -/
def buildItems (depth : Nat) (front : List (JsonValue R)) (items : List Value) :
    Option (JsonValue R) :=
  (items.mapM (build strtod flags depth)).map fun built => .array (front ++ built)

/-- The rest of an object of which these members are set. -/
def buildMembers (depth : Nat) (object : List (Bytes × JsonValue R))
    (pairs : List (Bytes × Value)) : Option (JsonValue R) :=
  (pairs.foldlM (addMember flags (build strtod flags depth)) object).map .object

variable {strtod flags}

theorem buildItems_cons (depth : Nat) (front : List (JsonValue R)) (item : Value)
    (items : List Value) :
    buildItems strtod flags depth front (item :: items) =
      (build strtod flags depth item).bind fun value =>
        buildItems strtod flags depth (front ++ [value]) items := by
  unfold buildItems
  rw [List.mapM_cons]
  cases build strtod flags depth item with
  | none => rfl
  | some value =>
    cases items.mapM (build strtod flags depth) with
    | none => rfl
    | some built =>
      show some (JsonValue.array (front ++ value :: built)) = _
      rw [Option.bind_some, Option.map_some, List.append_assoc]
      rfl

theorem buildMembers_cons (depth : Nat) (object : List (Bytes × JsonValue R)) (pair : Bytes × Value)
    (pairs : List (Bytes × Value)) :
    buildMembers strtod flags depth object (pair :: pairs) =
      (addMember flags (build strtod flags depth) object pair).bind fun object =>
        buildMembers strtod flags depth object pairs := by
  unfold buildMembers
  rw [List.foldlM_cons]
  cases addMember flags (build strtod flags depth) object pair <;> rfl

/-! ## The parser -/

/-- The parser stopped with an error. -/
def Fails (out : Option (JsonValue R) × Lexer R) : Prop := out.1 = none ∧ out.2.error.text ≠ []

theorem ascii_filled {s : String} (filled : s ≠ "") : ascii s ≠ [] := by
  rw [ascii_eq]
  intro empty
  cases chars : s.toList with
  | nil => exact filled (String.toList_eq_nil_iff.mp chars)
  | cons c l =>
    rw [chars, List.flatMap_cons, List.append_eq_nil_iff] at empty
    have length := congrArg List.length empty.1
    rw [String.length_utf8EncodeChar] at length
    exact absurd length (Nat.ne_of_gt (Char.utf8Size_pos c))

theorem failed_fails (lex : Lexer R) (msg : String) (filled : msg ≠ "") : Fails (failed lex msg) :=
  ⟨rfl, errorSet_text lex (ascii msg) (ascii_filled filled)⟩

/-- The parser gives what was read, or it stopped where there is nothing to give. -/
def Parsed {α : Type} (depth : Nat) (out : Option (JsonValue R) × Lexer R)
    (read : Option (α × Bytes)) (builds : α → Option (JsonValue R)) : Prop :=
  (∃ v rest value, read = some (v, rest) ∧ builds v = some value ∧ out.1 = some value ∧
    Ready out.2.stream rest ∧
    out.2.depth = depth) ∨
  (Fails out ∧ ∀ v rest, read = some (v, rest) → builds v = none ∨ Stray rest)

theorem Parsed.nothing {α : Type} {depth : Nat} {out : Option (JsonValue R) × Lexer R}
    {read : Option (α × Bytes)} {builds : α → Option (JsonValue R)} (fails : Fails out)
    (missing : read = none) : Parsed depth out read builds :=
  .inr ⟨fails, fun v rest given => by rw [missing] at given; cases given⟩

/-- The token is this character, and the stream is behind it. -/
theorem Scanned.char {lex : Lexer R} {s : Bytes} {c : UInt8} (scanned : Scanned strtod flags lex s)
    (punctuation : isPunctuation c = true) :
    (lex.token.isChar c = true ∧ ∃ t, skip s = c :: t ∧ Ready lex.stream t) ∨
      (lex.token.isChar c = false ∧ ∀ t, skip s ≠ c :: t) := by
  unfold Scanned at scanned
  cases front : skip s with
  | nil =>
    rw [front] at scanned
    right
    exact ⟨by rw [scanned]; rfl, by simp⟩
  | cons d t =>
    rw [front] at scanned
    dsimp only at scanned
    by_cases same : d = c
    · subst same
      rw [if_pos punctuation] at scanned
      exact .inl ⟨by rw [scanned.1]; exact decide_eq_true rfl, t, rfl, scanned.2⟩
    · right
      refine ⟨?_, fun t' other => same (List.cons.inj other).1⟩
      split at scanned
      · rw [scanned.1]
        exact decide_eq_false fun other => same other.symm
      · split at scanned
        · split at scanned
          · rw [scanned]
            rfl
          · rw [scanned.1]
            rfl
        · split at scanned
          · rw [scanned]
            rfl
          · rcases scanned with ⟨v, _, token, _⟩ | ⟨token, _⟩
            · rw [token]
              cases v with
              | bool b => cases b <;> rfl
              | _ => rfl
            · rw [token]
              rfl

/-- The values of the tokens that are no strings. -/
theorem scalarValue_cases {v : Value} {held : JsonValue R}
    (built : scalarValue strtod flags v = some held) :
    held = .null ∨ (∃ value, held = .bool value) ∨ (∃ value, held = .integer value) ∨
      ∃ value, held = .real value := by
  cases v with
  | null => exact .inl (Option.some.inj built).symm
  | bool value => exact .inr (.inl ⟨value, (Option.some.inj built).symm⟩)
  | number text =>
    rw [scalarValue, numberValue] at built
    split at built
    · split at built
      · exact .inr (.inr (.inl ⟨_, (Option.some.inj built).symm⟩))
      · cases built
    · obtain ⟨value, _, real⟩ := Option.map_eq_some_iff.mp built
      exact .inr (.inr (.inr ⟨value, real.symm⟩))
  | string => cases built
  | array => cases built
  | object => cases built

theorem scalarValue_token {v : Value} {held : JsonValue R}
    (built : scalarValue strtod flags v = some held) (value : Bytes) :
    tokenOf held ≠ .string value := by
  rcases scalarValue_cases built with rfl | ⟨b, rfl⟩ | ⟨i, rfl⟩ | ⟨r, rfl⟩
  · simp [tokenOf]
  · cases b <;> simp [tokenOf]
  · simp [tokenOf]
  · simp [tokenOf]

/-- A string token is the string in front of the text. -/
theorem Scanned.string {lex : Lexer R} {s : Bytes} (scanned : Scanned strtod flags lex s) :
    (∃ t value rest, skip s = quote :: t ∧ text t = some (value, rest) ∧ lex.token = .string value ∧
      Ready lex.stream rest) ∨
      ((∀ value, lex.token ≠ .string value) ∧ ∀ t, skip s = quote :: t → text t = none) := by
  unfold Scanned at scanned
  cases front : skip s with
  | nil =>
    rw [front] at scanned
    right
    exact ⟨by rw [scanned]; simp, by simp⟩
  | cons c t =>
    rw [front] at scanned
    dsimp only at scanned
    split at scanned
    · next punctuation =>
      right
      refine ⟨by rw [scanned.1]; simp, ?_⟩
      intro t' same
      obtain rfl := (List.cons.inj same).1
      exact absurd punctuation (by decide)
    · split at scanned
      · next string =>
        subst string
        cases read : text t with
        | none =>
          rw [read] at scanned
          right
          refine ⟨by rw [scanned]; simp, ?_⟩
          intro t' same
          rw [← (List.cons.inj same).2, read]
        | some out =>
          rw [read] at scanned
          exact .inl ⟨t, out.1, out.2, rfl, read, scanned.1, scanned.2⟩
      · next other =>
        right
        refine ⟨?_, fun t' same => absurd (List.cons.inj same).1 other⟩
        cases read : scalar (c :: t) with
        | none =>
          rw [read] at scanned
          rw [scanned]
          simp
        | some out =>
          rw [read] at scanned
          rcases scanned with ⟨v, built, token, _⟩ | ⟨token, _⟩
          · rw [token]
            exact scalarValue_token built
          · rw [token]
            simp

/-- The end of the text is scanned exactly where only white space is left. -/
theorem Scanned.eof {lex : Lexer R} {s : Bytes} (scanned : Scanned strtod flags lex s) :
    lex.token = .eof ↔ skip s = [] := by
  unfold Scanned at scanned
  cases front : skip s with
  | nil =>
    rw [front] at scanned
    exact iff_of_true scanned rfl
  | cons c t =>
    rw [front] at scanned
    refine iff_of_false ?_ (List.cons_ne_nil c t)
    dsimp only at scanned
    split at scanned
    · rw [scanned.1]
      simp
    · split at scanned
      · split at scanned
        · rw [scanned]
          simp
        · rw [scanned.1]
          simp
      · split at scanned
        · rw [scanned]
          simp
        · rcases scanned with ⟨v, _, token, _⟩ | ⟨token, _⟩
          · rw [token]
            cases v with
            | bool b => cases b <;> simp [tokenOf]
            | _ => simp [tokenOf]
          · rw [token]
            simp

variable (strtod flags)

def ValueParsed (n : Nat) : Prop :=
  ∀ (lex : Lexer R) (s : Bytes) (d : Nat), Scanned strtod flags lex s → lex.depth + d = maxDepth →
    2 * s.length + 1 ≤ n →
    Parsed lex.depth (parseValue strtod flags n lex) (value n s) (build strtod flags d)

def ItemsParsed (n : Nat) : Prop :=
  ∀ (lex : Lexer R) (s : Bytes) (d : Nat) (front : List (JsonValue R)), Scanned strtod flags lex s →
    lex.depth + d = maxDepth →
    2 * s.length + 2 ≤ n → Parsed lex.depth (parseItems strtod flags n front lex) (elements n s)
      (buildItems strtod flags d front)

def MembersParsed (n : Nat) : Prop :=
  ∀ (lex : Lexer R) (s : Bytes) (d : Nat) (object : List (Bytes × JsonValue R)),
    Scanned strtod flags lex s →
    lex.depth + d = maxDepth → 2 * s.length + 2 ≤ n →
      Parsed lex.depth (parseMembers strtod flags n object lex) (members n s)
      (buildMembers strtod flags d object)

variable {strtod flags}

/-- Behind an item: a comma, the end, or neither. -/
theorem Scanned.separator {lex : Lexer R} {s : Bytes} (close : UInt8)
    (scanned : Scanned strtod flags lex s) (closes : isPunctuation close = true)
    (other : close ≠ comma) :
    (lex.token.isChar comma = true ∧ ∃ t, skip s = comma :: t ∧ Ready lex.stream t) ∨
      (lex.token.isChar comma = false ∧ lex.token.isChar close = true ∧ ∃ t, skip s = close :: t ∧
        Ready lex.stream t) ∨
      (lex.token.isChar comma = false ∧ lex.token.isChar close = false ∧ ∀ c t, skip s = c :: t →
        c ≠ comma ∧ c ≠ close) := by
  rcases scanned.char (c := comma) (by decide) with more | ⟨noMore, noComma⟩
  · exact .inl more
  · rcases scanned.char closes with ⟨last, behind⟩ | ⟨noLast, noClose⟩
    · exact .inr (.inl ⟨noMore, last, behind⟩)
    · refine .inr (.inr ⟨noMore, noLast, fun c t front => ⟨?_, ?_⟩⟩)
      · rintro rfl
        exact noComma t front
      · rintro rfl
        exact noClose t front

theorem elementsTail_first {n : Nat} {item : Value} {s rest : Bytes} {l : List Value}
    (read : elementsTail n item s = some (l, rest)) : ∃ items, l = item :: items := by
  unfold elementsTail at read
  cases behind : skip s with
  | nil =>
    rw [behind] at read
    cases read
  | cons c t =>
    rw [behind] at read
    dsimp only at read
    split at read
    · obtain ⟨_, _, same⟩ := Option.map_eq_some_iff.mp read
      cases same
      exact ⟨_, rfl⟩
    · split at read
      · cases read
        exact ⟨[], rfl⟩
      · cases read

theorem membersTail_first {n : Nat} {name : Bytes} {item : Value} {s rest : Bytes}
    {l : List (Bytes × Value)} (read : membersTail n name item s = some (l, rest)) :
    ∃ pairs, l = (name, item) :: pairs := by
  unfold membersTail at read
  cases behind : skip s with
  | nil =>
    rw [behind] at read
    cases read
  | cons c t =>
    rw [behind] at read
    dsimp only at read
    split at read
    · obtain ⟨_, _, same⟩ := Option.map_eq_some_iff.mp read
      cases same
      exact ⟨_, rfl⟩
    · split at read
      · cases read
        exact ⟨[], rfl⟩
      · cases read

theorem elementsTail_other {n : Nat} {item : Value} {s : Bytes}
    (other : ∀ c t, skip s = c :: t → c ≠ comma ∧ c ≠ closeBracket) : elementsTail n item s =
      none := by
  unfold elementsTail
  cases behind : skip s with
  | nil => rfl
  | cons c t =>
    obtain ⟨noComma, noBracket⟩ := other c t behind
    exact (if_neg noComma).trans (if_neg noBracket)

theorem membersTail_other {n : Nat} {name : Bytes} {item : Value} {s : Bytes}
    (other : ∀ c t, skip s = c :: t → c ≠ comma ∧ c ≠ closeBrace) : membersTail n name item s =
      none := by
  unfold membersTail
  cases behind : skip s with
  | nil => rfl
  | cons c t =>
    obtain ⟨noComma, noBrace⟩ := other c t behind
    exact (if_neg noComma).trans (if_neg noBrace)

theorem Stray.noTail {s : Bytes} (stray : Stray s) (n : Nat) (item : Value) (name : Bytes) :
    elementsTail n item s = none ∧ membersTail n name item s = none := by
  obtain ⟨c, t, front, noComma, noBracket, noBrace⟩ := stray
  refine ⟨elementsTail_other fun d t' same => ?_, membersTail_other fun d t' same => ?_⟩
  · cases front.symm.trans same
    exact ⟨noComma, noBracket⟩
  · cases front.symm.trans same
    exact ⟨noComma, noBrace⟩

theorem parseItems_succ (n : Nat) (front : List (JsonValue R)) (lex : Lexer R)
    (more : lex.token ≠ .eof) :
    parseItems strtod flags (n + 1) front lex =
      match parseValue strtod flags n lex with
      | (none, lex) => (none, lex)
      | (some elem, lex) =>
        let array := front ++ [elem]
        let lex := lexScan strtod flags lex
        if lex.token.isChar comma then parseItems strtod flags n array (lexScan strtod flags lex)
        else if lex.token.isChar closeBracket then (some (.array array), lex)
        else failed lex "']' expected" := by
  rw [parseItems]
  split
  · next ended => exact absurd ended more
  · rfl

theorem items_parsed (n : Nat) (values : ValueParsed (R := R) strtod flags n)
    (items : ItemsParsed (R := R) strtod flags n) :
    ItemsParsed (R := R) strtod flags (n + 1) := by
  intro lex s d front scanned depth enough
  by_cases ended : lex.token = .eof
  · have blank := scanned.eof.mp ended
    refine Parsed.nothing ?_ ?_
    · rw [parseItems, ended]
      exact failed_fails lex _ (by decide)
    · rw [elements_succ, value_blank blank]
      rfl
  · rw [parseItems_succ n front lex ended, elements_succ]
    rcases values lex s d scanned depth (by omega) with
      ⟨v, rest, elem, read, built, given, ready, depth1⟩ | ⟨fails, missing⟩
    · rcases first : parseValue strtod flags n lex with ⟨out, lex1⟩
      rw [first] at given ready depth1
      cases given
      have shorter := ((readers_enough n).1 s v rest read).1
      obtain ⟨scanned2, depth2⟩ := lexScan_scanned strtod flags lex1 rest ready
      have item (items : List Value) : buildItems strtod flags d front (v :: items) =
          buildItems strtod flags d (front ++ [elem]) items := by
        rw [buildItems_cons, built, Option.bind_some]
      rw [read, Option.bind_some]
      dsimp only
      rcases scanned2.separator closeBracket (by decide) (by decide) with
        ⟨more, t, behind, ready3⟩ | ⟨noMore, last, t, behind, ready3⟩ | ⟨noMore, noLast, other⟩
      · have shorter2 := length_of_skip behind
        obtain ⟨scanned3, depth3⟩ :=
          lexScan_scanned strtod flags (lexScan strtod flags lex1) t ready3
        have depths := depth3.trans (depth2.trans depth1)
        rw [if_pos more, elementsTail, behind]
        dsimp only
        rw [if_pos rfl]
        rcases items _ t d (front ++ [elem]) scanned3 (by rw [depths]; exact depth) (by omega) with
          ⟨l, rest', value, read', built', given, ready', depth'⟩ | ⟨fails, missing⟩
        · exact .inl ⟨v :: l, rest', value, by rw [read']; rfl, by rw [item, built'], given, ready',
            depth'.trans depths⟩
        · refine .inr ⟨fails, fun l rest' read' => ?_⟩
          obtain ⟨⟨l', rest''⟩, restRead, same⟩ := Option.map_eq_some_iff.mp read'
          cases same
          rw [item]
          exact missing l' _ restRead
      · rw [noMore, if_neg Bool.false_ne_true, if_pos last, elementsTail, behind]
        dsimp only
        rw [if_neg (show ¬ closeBracket = comma by decide), if_pos rfl]
        refine .inl ⟨[v], t, .array (front ++ [elem]), rfl, ?_, rfl, ready3, depth2.trans depth1⟩
        rw [item]
        show some (JsonValue.array (front ++ [elem] ++ [])) = _
        rw [List.append_nil]
      · rw [noMore, if_neg Bool.false_ne_true, noLast, if_neg Bool.false_ne_true]
        exact Parsed.nothing (failed_fails _ _ (by decide)) (elementsTail_other other)
    · rcases first : parseValue strtod flags n lex with ⟨out, lex1⟩
      rw [first] at fails
      obtain ⟨given, message⟩ := fails
      cases given
      refine .inr ⟨⟨rfl, message⟩, fun l rest' read' => ?_⟩
      obtain ⟨⟨v, rest⟩, read, tail⟩ := Option.bind_eq_some_iff.mp read'
      rcases missing v rest read with unbuilt | stray
      · obtain ⟨items', rfl⟩ := elementsTail_first tail
        exact .inl (by rw [buildItems_cons, unbuilt]; rfl)
      · exact absurd ((stray.noTail n v []).1.symm.trans tail) (by simp)

theorem parseMembers_string (n : Nat) (object : List (Bytes × JsonValue R)) (lex : Lexer R)
    (key : Bytes) (string : lex.token = .string key) :
    parseMembers strtod flags (n + 1) object lex =
      if key.contains 0 then failed lex "NUL byte in object key not supported"
      else if flags.rejectDuplicates && (object.any fun member => member.1 = key) then failed lex
        "duplicate object key"
      else
        let lex := lexScan strtod flags lex
        if !lex.token.isChar colon then failed lex "':' expected"
        else
          match parseValue strtod flags n (lexScan strtod flags lex) with
          | (none, lex) => (none, lex)
          | (some value, lex) =>
            let object := objectSet object key value
            let lex := lexScan strtod flags lex
            if lex.token.isChar comma then
              parseMembers strtod flags n object (lexScan strtod flags lex)
            else if lex.token.isChar closeBrace then (some (.object object), lex)
            else failed lex "'\x7d' expected" := by
  rw [parseMembers]
  split
  · next key' token =>
    obtain rfl := Token.string.inj (string.symm.trans token)
    rfl
  · next other => exact absurd string (other key)

theorem parseMembers_other (n : Nat) (object : List (Bytes × JsonValue R)) (lex : Lexer R)
    (other : ∀ key, lex.token ≠ .string key) :
    parseMembers strtod flags (n + 1) object lex = failed lex "string or '\x7d' expected" := by
  rw [parseMembers]
  split
  · next key string => exact absurd string (other key)
  · rfl

/-- A key that may not be set. -/
theorem addMember_refused {builds : Value → Option (JsonValue R)}
    {object : List (Bytes × JsonValue R)} {key : Bytes} (item : Value)
    (refused : key.contains 0 = true ∨
      (flags.rejectDuplicates && (object.any fun other => other.1 = key)) = true) :
    addMember flags builds object (key, item) = none := by
  unfold addMember
  rcases refused with zero | twice
  · rw [if_pos zero]
  · dsimp only
    rw [if_pos twice]
    split <;> rfl

/-- The parts of a member behind its key. -/
theorem memberValue_parts {n : Nat} {key s rest : Bytes} {l : List (Bytes × Value)}
    (read : memberValue n key s = some (l, rest)) :
    ∃ t item rest1, skip s = colon :: t ∧ value n t = some (item, rest1) ∧
      membersTail n key item rest1 = some (l, rest) := by
  unfold memberValue at read
  cases front : skip s with
  | nil =>
    rw [front] at read
    cases read
  | cons c t =>
    rw [front] at read
    dsimp only at read
    split at read
    · next separated =>
      subst separated
      obtain ⟨⟨item, rest1⟩, first, tail⟩ := Option.bind_eq_some_iff.mp read
      exact ⟨t, item, rest1, rfl, first, tail⟩
    · cases read

theorem members_parsed (n : Nat) (values : ValueParsed (R := R) strtod flags n)
    (pairs : MembersParsed (R := R) strtod flags n) :
      MembersParsed (R := R) strtod flags (n + 1) := by
  intro lex s d object scanned depth enough
  rw [members_succ]
  rcases scanned.string with ⟨t1, key, s2, front, named, string, ready⟩ | ⟨other, missing⟩
  · have shorter1 := length_of_skip front
    have shorter2 := text_length named
    rw [parseMembers_string n object lex key string, front]
    dsimp only
    rw [if_pos rfl, named, Option.bind_some]
    dsimp only
    have refuse {out : Option (JsonValue R) × Lexer R} (fails : Fails out)
        (refused : key.contains 0 = true ∨
          (flags.rejectDuplicates && (object.any fun other => other.1 = key)) = true) :
        Parsed lex.depth out (memberValue n key s2) (buildMembers strtod flags d object) := by
      refine .inr ⟨fails, fun l rest read => ?_⟩
      obtain ⟨_, item, _, _, _, tail⟩ := memberValue_parts read
      obtain ⟨pairs', rfl⟩ := membersTail_first tail
      exact .inl (by rw [buildMembers_cons, addMember_refused item refused]; rfl)
    split
    · next zero => exact refuse (failed_fails _ _ (by decide)) (.inl zero)
    · next noZero =>
      split
      · next twice => exact refuse (failed_fails _ _ (by decide)) (.inr twice)
      · next once =>
        have added (item : Value) : addMember flags (build strtod flags d) object (key, item) =
            (build strtod flags d item).map fun value => objectSet object key value := by
          rw [addMember, if_neg noZero, if_neg once]
        obtain ⟨scanned2, depth2⟩ := lexScan_scanned strtod flags lex s2 ready
        rcases scanned2.char (c := colon) (by decide) with ⟨separated, s3, front2,
          ready3⟩ | ⟨noColon, away⟩
        · have shorter3 := length_of_skip front2
          obtain ⟨scanned3, depth3⟩ :=
            lexScan_scanned strtod flags (lexScan strtod flags lex) s3 ready3
          have unfolded : memberValue n key s2 = (value n s3).bind fun read =>
              membersTail n key read.1 read.2 := by
            rw [memberValue, front2]
            exact if_pos rfl
          rw [separated, unfolded, if_neg (show ¬ (!true) = true by decide)]
          rcases values _ s3 d scanned3 (by rw [depth3, depth2]; exact depth) (by omega) with
            ⟨item, s4, held, read, built, given, ready4, depth4⟩ | ⟨fails, missing⟩
          · rcases member :
              parseValue strtod flags n
              (lexScan strtod flags (lexScan strtod flags lex)) with ⟨out, lex4⟩
            rw [member] at given ready4 depth4
            cases given
            have shorter4 := ((readers_enough n).1 s3 item s4 read).1
            obtain ⟨scanned5, depth5⟩ := lexScan_scanned strtod flags lex4 s4 ready4
            have depths := depth5.trans (depth4.trans (depth3.trans depth2))
            have first (pairs : List (Bytes × Value)) :
                buildMembers strtod flags d object ((key, item) :: pairs) =
                buildMembers strtod flags d (objectSet object key held) pairs := by
              rw [buildMembers_cons, added, built]
              rfl
            rw [read, Option.bind_some]
            dsimp only
            rcases scanned5.separator closeBrace (by decide) (by decide) with
              ⟨more, t, behind, ready6⟩ | ⟨noMore, last, t, behind, ready6⟩ | ⟨noMore,
                noLast, other⟩
            · have shorter5 := length_of_skip behind
              obtain ⟨scanned6, depth6⟩ :=
                lexScan_scanned strtod flags (lexScan strtod flags lex4) t ready6
              rw [if_pos more, membersTail, behind]
              dsimp only
              rw [if_pos rfl]
              rcases pairs _ t d (objectSet object key held) scanned6
                  (by rw [depth6, depths]; exact depth) (by omega) with
                ⟨l, rest', value, read', built', given, ready', depth'⟩ | ⟨fails, missing⟩
              · exact .inl ⟨(key, item) :: l, rest',
                  value, by rw [read']; rfl, by rw [first, built'], given, ready',
                  depth'.trans (depth6.trans depths)⟩
              · refine .inr ⟨fails, fun l rest' read' => ?_⟩
                obtain ⟨⟨l', rest''⟩, restRead, same⟩ := Option.map_eq_some_iff.mp read'
                cases same
                rw [first]
                exact missing l' _ restRead
            · rw [noMore, if_neg Bool.false_ne_true, if_pos last, membersTail, behind]
              dsimp only
              rw [if_neg (show ¬ closeBrace = comma by decide), if_pos rfl]
              exact .inl ⟨[(key, item)], t, .object (objectSet object key held),
                rfl, first [], rfl, ready6, depths⟩
            · rw [noMore, if_neg Bool.false_ne_true, noLast, if_neg Bool.false_ne_true]
              exact Parsed.nothing (failed_fails _ _ (by decide)) (membersTail_other other)
          · rcases member :
              parseValue strtod flags n
              (lexScan strtod flags (lexScan strtod flags lex)) with ⟨out, lex4⟩
            rw [member] at fails
            obtain ⟨given, message⟩ := fails
            cases given
            refine .inr ⟨⟨rfl, message⟩, fun l rest' read' => ?_⟩
            obtain ⟨⟨item, s4⟩, read, tail⟩ := Option.bind_eq_some_iff.mp read'
            rcases missing item s4 read with unbuilt | stray
            · obtain ⟨pairs', rfl⟩ := membersTail_first tail
              exact .inl (by rw [buildMembers_cons, added, unbuilt]; rfl)
            · exact absurd ((stray.noTail n item key).2.symm.trans tail) (by simp)
        · rw [noColon, if_pos (show (!false) = true by decide)]
          refine .inr ⟨failed_fails _ _ (by decide), fun l rest read => ?_⟩
          obtain ⟨t, _, _, front2, _⟩ := memberValue_parts read
          exact absurd front2 (away t)
  · rw [parseMembers_other n object lex other]
    refine Parsed.nothing (failed_fails _ _ (by decide)) ?_
    cases front : skip s with
    | nil => rfl
    | cons c t =>
      dsimp only
      split
      · next string =>
        subst string
        rw [missing t front]
        rfl
      · rfl

/-- The end of parse_value for an array or an object. -/
theorem Parsed.wrap {α : Type} {depth : Nat} {out : Option (JsonValue R) × Lexer R}
    {read : Option (α × Bytes)} {builds : α → Option (JsonValue R)}
    {builds' : Value → Option (JsonValue R)} (inner : Parsed (depth + 1) out read builds)
    (shape : α → Value) (same : ∀ v, builds' (shape v) = builds v) :
    Parsed depth (parsed out.1 out.2) (read.map fun read => (shape read.1, read.2)) builds' := by
  rcases out with ⟨given, lex⟩
  rcases inner with ⟨v, rest, value, rfl, built, given', ready, depth'⟩ | ⟨⟨given', message⟩,
    missing⟩
  · cases given'
    exact .inl ⟨shape v, rest, value, rfl, (same v).trans built, rfl,
      ready, by rw [parsed, depth']; rfl⟩
  · cases given'
    refine .inr ⟨⟨rfl, message⟩, fun w rest read' => ?_⟩
    obtain ⟨⟨v, rest'⟩, inside, same'⟩ := Option.map_eq_some_iff.mp read'
    cases same'
    rw [same]
    exact missing v _ inside

theorem isPunctuation_cases {c : UInt8} (found : isPunctuation c = true) (noBrace : c ≠ openBrace)
    (noBracket : c ≠ openBracket) :
    (isDigit c || decide (c = 0x2D)) = false ∧ isAlpha c = false ∧ c ≠ quote := by
  simp only [isPunctuation, Bool.or_eq_true, decide_eq_true_eq] at found
  rcases found with ((((rfl | rfl) | rfl) | rfl) | rfl) | rfl
  · exact absurd rfl noBrace
  · decide
  · exact absurd rfl noBracket
  · decide
  · decide
  · decide

theorem value_parsed (n : Nat) (items : ItemsParsed (R := R) strtod flags n)
    (pairs : MembersParsed (R := R) strtod flags n) :
    ValueParsed (R := R) strtod flags (n + 1) := by
  intro lex s d scanned depth enough
  rw [parseValue]
  dsimp only
  split
  · next deep =>
    obtain rfl : d = 0 := by omega
    exact .inr ⟨failed_fails _ _ (by decide), fun v rest _ => .inl rfl⟩
  · obtain ⟨d, rfl⟩ : ∃ k, d = k + 1 := ⟨d - 1, by omega⟩
    have depth' : lex.depth + 1 + d = maxDepth := by omega
    unfold Scanned at scanned
    cases front : skip s with
    | nil =>
      rw [front] at scanned
      rw [scanned]
      exact Parsed.nothing (failed_fails _ _ (by decide)) (value_blank front)
    | cons c t =>
      have shorter := length_of_skip front
      rw [front] at scanned
      rw [value_skip front]
      unfold valueBody
      dsimp only at scanned
      split at scanned
      · next punctuation =>
        obtain ⟨token, ready⟩ := scanned
        obtain ⟨scanned1, depth1⟩ :=
          lexScan_scanned strtod flags
            ({ lex with depth := lex.depth + 1, token := .char c } : Lexer R) t ready
        rw [token]
        dsimp only
        by_cases object : c = openBrace
        · subst object
          rw [if_pos rfl, if_neg (show ¬ openBrace = quote by decide),
            if_neg (show ¬ openBrace = openBracket by decide), if_pos rfl]
          rcases scanned1.char (c := closeBrace) (by decide) with ⟨ends, t', behind,
            ready'⟩ | ⟨goes, away⟩
          · rw [if_pos ends, behind, if_pos (show (closeBrace :: t').head? =
              some closeBrace from rfl)]
            exact .inl ⟨.object [], t', .object [], rfl, rfl, rfl,
              ready', by rw [parsed, depth1]; rfl⟩
          · have filled : ¬ (skip t).head? = some closeBrace := by
              cases behind : skip t with
              | nil => simp
              | cons e t' =>
                intro same
                obtain rfl := Option.some.inj same
                exact away t' behind
            have inner := pairs _ t d [] scanned1 (by rw [depth1]; exact depth') (by omega)
            rw [depth1] at inner
            rw [goes, if_neg Bool.false_ne_true, if_neg filled]
            exact Parsed.wrap inner .object fun l => rfl
        · rw [if_neg object]
          by_cases array : c = openBracket
          · subst array
            rw [if_pos rfl, if_neg (show ¬ openBracket = quote by decide), if_pos rfl]
            rcases scanned1.char (c := closeBracket) (by decide) with ⟨ends, t', behind,
              ready'⟩ | ⟨goes, away⟩
            · rw [if_pos ends, behind, if_pos (show (closeBracket :: t').head? =
                some closeBracket from rfl)]
              exact .inl ⟨.array [], t', .array [], rfl, rfl, rfl,
                ready', by rw [parsed, depth1]; rfl⟩
            · have filled : ¬ (skip t).head? = some closeBracket := by
                cases behind : skip t with
                | nil => simp
                | cons e t' =>
                  intro same
                  obtain rfl := Option.some.inj same
                  exact away t' behind
              have inner := items _ t d [] scanned1 (by rw [depth1]; exact depth') (by omega)
              rw [depth1] at inner
              rw [goes, if_neg Bool.false_ne_true, if_neg filled]
              exact Parsed.wrap inner .array fun l => rfl
          · obtain ⟨noNumber, noName, noQuote⟩ := isPunctuation_cases punctuation object array
            rw [if_neg array, if_neg noQuote, if_neg array, if_neg object,
              scalar_other noNumber noName]
            exact Parsed.nothing (failed_fails _ _ (by decide)) rfl
      · next noPunctuation =>
        split at scanned
        · next string =>
          subst string
          rw [if_pos rfl]
          cases read : text t with
          | none =>
            rw [read] at scanned
            rw [scanned]
            exact Parsed.nothing (failed_fails _ _ (by decide)) rfl
          | some out =>
            obtain ⟨value, rest⟩ := out
            rw [read] at scanned
            obtain ⟨token, ready⟩ := scanned
            rw [token]
            dsimp only [Option.map_some]
            split
            · next zero =>
              refine .inr ⟨failed_fails _ _ (by decide), fun v rest' same => .inl ?_⟩
              cases same
              exact if_pos zero
            · next allowed =>
                exact .inl ⟨.string value, rest, .string value, rfl, if_neg allowed, rfl,
                  ready, rfl⟩
        · next noString =>
          have noBrace : c ≠ openBrace := by
            rintro rfl
            exact noPunctuation (by decide)
          have noBracket : c ≠ openBracket := by
            rintro rfl
            exact noPunctuation (by decide)
          rw [if_neg noString, if_neg noBracket, if_neg noBrace]
          cases read : scalar (c :: t) with
          | none =>
            rw [read] at scanned
            rw [scanned]
            exact Parsed.nothing (failed_fails _ _ (by decide)) rfl
          | some out =>
            obtain ⟨v, rest⟩ := out
            rw [read] at scanned
            have builds := scalar_build strtod flags d read
            rcases scanned with ⟨held, built, token, ready⟩ | ⟨token, missing⟩
            · rw [token]
              refine .inl ⟨v, rest, held, rfl, builds.trans built, ?_⟩
              rcases scalarValue_cases built with rfl | ⟨b, rfl⟩ | ⟨i, rfl⟩ | ⟨r, rfl⟩
              · exact ⟨rfl, ready, rfl⟩
              · cases b <;> exact ⟨rfl, ready, rfl⟩
              · exact ⟨rfl, ready, rfl⟩
              · exact ⟨rfl, ready, rfl⟩
            · rw [token]
              refine .inr ⟨failed_fails _ _ (by decide), fun v' rest' same => ?_⟩
              cases same
              rw [builds]
              exact missing

/-- The parser follows the reader of the standard on every text. -/
theorem parser_parsed (n : Nat) :
    ValueParsed (R := R) strtod flags n ∧ ItemsParsed (R := R) strtod flags n ∧
      MembersParsed (R := R) strtod flags n := by
  induction n with
  | zero =>
    exact ⟨fun _ _ _ _ _ enough => by omega, fun _ _ _ _ _ _ enough => by omega,
      fun _ _ _ _ _ _ enough => by omega⟩
  | succ n ih =>
    obtain ⟨values, items, pairs⟩ := ih
    exact ⟨value_parsed n items pairs, items_parsed n values items, members_parsed n values pairs⟩

/-! ## A whole text -/

def isContainer : Value → Bool
  | .array _ => true
  | .object _ => true
  | _ => false

theorem scalar_container {s rest : Bytes} {v : Value} (read : scalar s = some (v, rest)) :
    isContainer v = false := by
  unfold scalar at read
  split at read
  · cases read
    rfl
  · split at read
    · cases read
      rfl
    · split at read
      · cases read
        rfl
      · obtain ⟨numeral, _, same⟩ := Option.map_eq_some_iff.mp read
        cases same
        rfl

/-- An array and an object are what begins with a bracket and a brace. -/
theorem value_container {n : Nat} {s rest : Bytes} {v : Value} (read : value n s = some (v, rest)) :
    isContainer v = true ↔ ∃ t, skip s = openBracket :: t ∨ skip s = openBrace :: t := by
  cases n with
  | zero =>
    rw [value] at read
    cases read
  | succ n =>
    cases front : skip s with
    | nil =>
      rw [value_blank front] at read
      cases read
    | cons c t =>
      rw [value_skip front] at read
      unfold valueBody at read
      split at read
      · next string =>
        subst string
        obtain ⟨_, _, same⟩ := Option.map_eq_some_iff.mp read
        cases same
        refine iff_of_false Bool.false_ne_true ?_
        rintro ⟨t', same | same⟩ <;> exact absurd (List.cons.inj same).1 (by decide)
      · split at read
        · next array =>
          subst array
          refine iff_of_true ?_ ⟨t, .inl rfl⟩
          split at read
          · cases read
            rfl
          · obtain ⟨_, _, same⟩ := Option.map_eq_some_iff.mp read
            cases same
            rfl
        · next noArray =>
          split at read
          · next object =>
            subst object
            refine iff_of_true ?_ ⟨t, .inr rfl⟩
            split at read
            · cases read
              rfl
            · obtain ⟨_, _, same⟩ := Option.map_eq_some_iff.mp read
              cases same
              rfl
          · next noObject =>
            refine iff_of_false (by rw [scalar_container read]; decide) ?_
            rintro ⟨t', same | same⟩
            · exact noArray (List.cons.inj same).1
            · exact noObject (List.cons.inj same).1

theorem lexInit_ready (data : Bytes) (noNul : 0 ∉ data) :
    Ready (lexInit (R := R) data).stream data :=
  ⟨noNul, .inl ⟨rfl, Nat.le_refl 0, rfl⟩⟩

variable (strtod flags)

/-- The value of a whole text: one that is no array and no object only where any value may
be decoded. -/
def buildText (v : Value) : Option (JsonValue R) :=
  if flags.decodeAny || isContainer v then build strtod flags maxDepth v else none

variable {strtod flags}

/-- The first token of a text that only may be an array or an object. -/
theorem first_token {data : Bytes} {lex : Lexer R} (scanned : Scanned strtod flags lex data) :
    (!flags.decodeAny && !lex.token.isChar openBracket && !lex.token.isChar openBrace) = true ↔
      flags.decodeAny = false ∧
        ∀ t, ¬ (skip data = openBracket :: t ∨ skip data = openBrace :: t) := by
  rw [Bool.and_eq_true, Bool.and_eq_true, Bool.not_eq_true', Bool.not_eq_true', Bool.not_eq_true',
    and_assoc]
  refine and_congr_right fun _ => ?_
  rcases scanned.char (c := openBracket) (by decide) with ⟨found, t, front, _⟩ | ⟨missed, away⟩
  · rw [found]
    exact iff_of_false (by simp) fun neither => neither t (.inl front)
  · rcases scanned.char (c := openBrace) (by decide) with ⟨found, t, front, _⟩ | ⟨missed', away'⟩
    · rw [missed, found]
      exact iff_of_false (by simp) fun neither => neither t (.inr front)
    · rw [missed, missed']
      refine iff_of_true ⟨rfl, rfl⟩ ?_
      rintro t (same | same)
      · exact away t same
      · exact away' t same

/-- What the first token lets through. -/
theorem buildText_value {data rest : Bytes} {lex : Lexer R} {n : Nat} {v : Value}
    (scanned : Scanned strtod flags lex data) (valued : value n data = some (v, rest)) :
    buildText strtod flags v =
      if (!flags.decodeAny && !lex.token.isChar openBracket &&
        !lex.token.isChar openBrace) = true then none
      else build strtod flags maxDepth v := by
  have kept : (flags.decodeAny || isContainer v) = true ↔
      ¬ (!flags.decodeAny && !lex.token.isChar openBracket && !lex.token.isChar openBrace) =
        true := by
    rw [first_token scanned, Bool.or_eq_true, value_container valued]
    constructor
    · rintro (any | ⟨t, front⟩) ⟨only, away⟩
      · rw [only] at any
        cases any
      · exact away t front
    · intro through
      by_contra neither
      rw [not_or, Bool.not_eq_true] at neither
      exact through ⟨neither.1, fun t front => neither.2 ⟨t, front⟩⟩
  rw [buildText]
  by_cases refused :
    (!flags.decodeAny && !lex.token.isChar openBracket && !lex.token.isChar openBrace) = true
  · rw [if_pos refused, if_neg fun through => kept.mp through refused]
  · rw [if_neg refused, if_pos (kept.mpr refused)]

theorem read_bind (f : Value → Option (JsonValue R)) (s : Bytes) (m : Nat) (large : s.length < m) :
    (read s).bind f = match value m s with
      | some (v, rest) => if skip rest = [] then f v else none
      | none => none := by
  rw [read_of_fuel s m large]
  cases value m s with
  | none => rfl
  | some out =>
    dsimp only
    split <;> rfl

theorem parseStream_reads (strtod : Bytes → Option R) (flags : Flags) (data : Bytes)
    (noNul : 0 ∉ data) (whole : flags.disableEofCheck = false) :
    (parseStream strtod flags data).1 = (read data).bind (buildText strtod flags) ∧
      ((parseStream strtod flags data).1 = none → (parseStream strtod flags data).2.text ≠ []) := by
  obtain ⟨scanned, depth⟩ := lexScan_scanned strtod flags _ data (lexInit_ready (R := R) data noNul)
  rw [read_bind _ data (2 * data.length + 2) (by omega)]
  unfold parseStream
  dsimp only
  by_cases refused :
      (!flags.decodeAny && !(lexScan strtod flags (lexInit data)).token.isChar openBracket &&
      !(lexScan strtod flags (lexInit data)).token.isChar openBrace) = true
  · rw [if_pos refused]
    refine ⟨?_, fun _ => errorSet_text _ _ (ascii_filled (by decide))⟩
    cases valued : value (2 * data.length + 2) data with
    | none => rfl
    | some out =>
      dsimp only
      rw [buildText_value scanned valued, if_pos refused]
      split <;> rfl
  · rw [if_neg refused]
    rcases (parser_parsed (2 * data.length + 2)).1 _ data maxDepth scanned
        (by rw [depth]; exact Nat.zero_add _) (by omega) with
      ⟨v, rest, held, valued, built, given, ready, _⟩ | ⟨⟨given, message⟩, missing⟩
    · rcases outcome :
        parseValue strtod flags (2 * data.length + 2)
        (lexScan strtod flags (lexInit data)) with ⟨out, lex⟩
      rw [outcome] at given ready
      cases given
      obtain ⟨scanned2, _⟩ := lexScan_scanned strtod flags lex rest ready
      rw [valued, whole]
      dsimp only
      rw [if_neg Bool.false_ne_true, buildText_value scanned valued, if_neg refused, built]
      by_cases blank : skip rest = []
      · rw [if_pos blank, scanned2.eof.mpr blank]
        exact ⟨rfl, fun nothing => by cases nothing⟩
      · rw [if_neg blank]
        have more : (lexScan strtod flags lex).token ≠ .eof :=
          fun ended => blank (scanned2.eof.mp ended)
        split
        · next ended => exact absurd ended more
        · exact ⟨rfl, fun _ => errorSet_text _ _ (ascii_filled (by decide))⟩
    · rcases outcome :
        parseValue strtod flags (2 * data.length + 2)
        (lexScan strtod flags (lexInit data)) with ⟨out, lex⟩
      rw [outcome] at given message
      cases given
      refine ⟨?_, fun _ => message⟩
      cases valued : value (2 * data.length + 2) data with
      | none => rfl
      | some out =>
        obtain ⟨v, rest⟩ := out
        dsimp only
        rw [buildText_value scanned valued, if_neg refused]
        rcases missing v rest valued with unbuilt | ⟨c, t, front, _⟩
        · rw [unbuilt, ite_self]
        · rw [front, if_neg (List.cons_ne_nil c t)]

/-- Whatever source jansson reads from, a text without NUL that its ints can count gives
exactly the value that the standard reads from it, as far as the library holds it, and an
error with a message otherwise. -/
theorem parse_json_reads (strtod : Bytes → Option R) (flags : Flags) (data : Bytes)
    (noNul : 0 ∉ data) (counted : data.length < intMax) (whole : flags.disableEofCheck = false) :
    ∃ error, parseJson strtod flags data = some ((read data).bind (buildText strtod flags), error) ∧
      ((read data).bind (buildText strtod flags) = none → error.text ≠ []) := by
  obtain ⟨value, message⟩ := parseStream_reads strtod flags data noNul whole
  refine ⟨(parseStream strtod flags data).2, ?_, value ▸ message⟩
  rw [parseJson, if_pos counted, ← value]

/-- Two members, with a NUL in a string and an integer that may be read as a real. -/
def membersText : Bytes := ascii "\x7b\"n\":1,\"a\":[\"\\u0000\",true,-2.5e1]\x7d"

/-- A reader that keeps every numeral as the number it names. -/
def exactReal (text : Bytes) : Option (Bool × ℚ) := some (Library.DecimalNumber.decimalNumber text)

theorem parse_json_reads_members :
    (∃ error, parseJson exactReal ⟨true, false, false, true, true⟩ membersText =
      some (some (.object [(ascii "n", .real (false, 1)),
        (ascii "a", .array [.string [0], .bool true, .real (true, 25)])]), error)) ∧
    ∃ error, parseJson exactReal ⟨true, false, false, true, false⟩ membersText =
      some (none, error) ∧
      error.text ≠ [] := by
  constructor
  · obtain ⟨error, given, _⟩ :=
      parse_json_reads exactReal ⟨true, false, false, true, true⟩ membersText
      (by decide +kernel) (by decide +kernel) rfl
    have built : (read membersText).bind (buildText exactReal ⟨true, false, false, true, true⟩) =
        some (.object [(ascii "n", .real (false, 1)),
          (ascii "a", .array [.string [0], .bool true, .real (true, 25)])]) := by decide +kernel
    exact ⟨error, by rw [given, built]⟩
  · obtain ⟨error, given, message⟩ :=
      parse_json_reads exactReal ⟨true, false, false, true, false⟩ membersText
      (by decide +kernel) (by decide +kernel) rfl
    have refused :
        (read membersText).bind (buildText exactReal ⟨true, false, false, true, false⟩) = none := by
      decide +kernel
    rw [refused] at given message
    exact ⟨error, given, message rfl⟩

end CgminerT4.Guarantees.JsonReads
