import CgminerT4.Library.JsonText
import CgminerT4.Library.StringBuffer
import CgminerT4.Source.JsonUtf

/-!
# Reading JSON (load.c of jansson)

The stream that checks UTF-8 as it reads, the lexer and the parser. Objects keep
their members in the order in which the keys were first set. `strtod` is the
conversion of the C library in the C locale, with no result for an overflow, and a
stream ends where `get` first returns EOF. The line and the column of a stream, the
position in an error and the `pos` of string_get are ints, so a text that could carry
one of them past INT_MAX has no result. Allocation does not fail, and the name of the
source is left out of the errors. Twice the length of the text bounds the recursion of
the parser.
-/
namespace CgminerT4.Source.JsonLoad
open Library.ByteString JsonUtf
open Library.StringBuffer (CText)
open Library.JsonText (quote backslash comma colon openBracket closeBracket openBrace closeBrace)

/-! ## The stream -/

inductive StreamState where
  | ok
  | eof
  | error
  deriving DecidableEq

/-- stream_t, with the bytes `get` has still to return. -/
structure Stream where
  data : Bytes
  /-- `buffer` up to its NUL. -/
  buffer : Bytes
  bufferPos : Nat
  state : StreamState
  line : Int
  column : Int
  lastColumn : Int
  position : Nat
  deriving DecidableEq

/-- json_error_t; no error is set while the text is empty. -/
structure JsonError where
  text : Bytes
  line : Int
  column : Int
  position : Nat
  deriving DecidableEq

/-- json_t -/
inductive JsonValue (R : Type) where
  | null
  | bool (value : Bool)
  | integer (value : Int)
  | real (value : R)
  | string (value : Bytes)
  | array (items : List (JsonValue R))
  | object (members : List (Bytes × JsonValue R))

namespace JsonValue
variable {R : Type} [DecidableEq R]

mutual

/-- The same value, member by member in the same order. -/
def beq : JsonValue R → JsonValue R → Bool
  | .null, .null => true
  | .bool a, .bool b => a == b
  | .integer a, .integer b => a == b
  | .real a, .real b => a == b
  | .string a, .string b => a == b
  | .array a, .array b => beqItems a b
  | .object a, .object b => beqMembers a b
  | _, _ => false

def beqItems : List (JsonValue R) → List (JsonValue R) → Bool
  | [], [] => true
  | v :: a, w :: b => beq v w && beqItems a b
  | _, _ => false

def beqMembers : List (Bytes × JsonValue R) → List (Bytes × JsonValue R) → Bool
  | [], [] => true
  | (k, v) :: a, (l, w) :: b => k == l && beq v w && beqMembers a b
  | _, _ => false

end

mutual

theorem beq_iff : ∀ v w : JsonValue R, beq v w = true ↔ v = w
  | .null, w => by cases w <;> simp [beq]
  | .bool _, w => by cases w <;> simp [beq]
  | .integer _, w => by cases w <;> simp [beq]
  | .real _, w => by cases w <;> simp [beq]
  | .string _, w => by cases w <;> simp [beq]
  | .array a, w => by
    cases w with
    | array b => simp [beq, beqItems_iff a b]
    | _ => simp [beq]
  | .object a, w => by
    cases w with
    | object b => simp [beq, beqMembers_iff a b]
    | _ => simp [beq]

theorem beqItems_iff : ∀ a b : List (JsonValue R), beqItems a b = true ↔ a = b
  | [], b => by cases b <;> simp [beqItems]
  | v :: a, b => by
    cases b with
    | nil => simp [beqItems]
    | cons w b => simp [beqItems, beq_iff v w, beqItems_iff a b]

theorem beqMembers_iff : ∀ a b : List (Bytes × JsonValue R), beqMembers a b = true ↔ a = b
  | [], b => by cases b <;> simp [beqMembers]
  | (k, v) :: a, b => by
    cases b with
    | nil => simp [beqMembers]
    | cons pair b => simp [beqMembers, beq_iff v pair.2, beqMembers_iff a b, Prod.ext_iff]

end

instance : DecidableEq (JsonValue R) := fun v w => decidable_of_iff _ (beq_iff v w)

end JsonValue

inductive Token (R : Type) where
  | invalid
  | eof
  | char (c : UInt8)
  | string (value : Bytes)
  | integer (value : Int)
  | real (value : R)
  | true
  | false
  | null

def Token.isChar {R : Type} (c : UInt8) : Token R → Bool
  | .char d => c = d
  | _ => .false

/-- The flags of the decoder. -/
structure Flags where
  rejectDuplicates : Bool
  disableEofCheck : Bool
  decodeAny : Bool
  decodeIntAsReal : Bool
  allowNul : Bool

/-- lex_t, and the error that is reported. -/
structure Lexer (R : Type) where
  stream : Stream
  savedText : Bytes
  depth : Nat
  token : Token R
  error : JsonError

/-- What reading a character gives: a byte or a state other than OK. -/
inductive Got where
  | byte (c : UInt8)
  | eof
  | error
  deriving DecidableEq

variable {R : Type}

/-- error_set and jsonp_error_set: only the first error stays. -/
def errorSet (lex : Lexer R) (msg : Bytes) : Lexer R :=
  if lex.error.text = [] then
    let near :=
      if cString lex.savedText = [] then
        if lex.stream.state = .error then [] else ascii " near end of file"
      else if lex.savedText.length ≤ 20 then ascii " near '" ++ cString lex.savedText ++ ascii "'"
      else []
    { lex with error := ⟨msg ++ near, lex.stream.line, lex.stream.column, lex.stream.position⟩ }
  else lex

/-- The conversion %x. -/
def hexText (n : Nat) : Bytes := ascii (String.ofList (Nat.toDigits 16 n))

def streamInit (data : Bytes) : Stream where
  data := data
  buffer := []
  bufferPos := 0
  state := .ok
  line := 1
  column := 0
  lastColumn := 0
  position := 0

/-- The next buffered byte. -/
def Stream.advance (s : Stream) : UInt8 × Stream :=
  let c := s.buffer.getD s.bufferPos 0
  let s := { s with bufferPos := s.bufferPos + 1, position := s.position + 1 }
  (c, if c = 0x0A then { s with line := s.line + 1, lastColumn := s.column, column := 0 }
    else if utf8CheckFirst c ≠ 0 then { s with column := s.column + 1 }
    else s)

/-- The buffer filled from `get`, or the byte that cannot be decoded. -/
def Stream.fill (s : Stream) (c : UInt8) (data : Bytes) : Stream × Option UInt8 :=
  if c < 0x80 then ({ s with data, buffer := [c], bufferPos := 0 }, none)
  else
    let count := utf8CheckFirst c
    let tail := data.take (count - 1)
    -- EOF is stored as the byte 0xFF
    let buffer := c :: (tail ++ List.replicate (count - 1 - tail.length) 0xFF)
    let s := { s with data := data.drop (count - 1), buffer, bufferPos := 0 }
    if count = 0 ∨ utf8CheckFull buffer = none then (s, some c) else (s, none)

/-- stream_get -/
def lexGet (lex : Lexer R) : Got × Lexer R :=
  match lex.stream.state with
  | .eof => (.eof, lex)
  | .error => (.error, lex)
  | .ok =>
    if lex.stream.buffer.getD lex.stream.bufferPos 0 ≠ 0 then
      let (c, stream) := lex.stream.advance
      (.byte c, { lex with stream })
    else
      match lex.stream.data with
      | [] => (.eof, { lex with stream := { lex.stream with state := .eof } })
      | c :: data =>
        match lex.stream.fill c data with
        | (stream, none) =>
          let (c, stream) := stream.advance
          (.byte c, { lex with stream })
        | (stream, some c) =>
          (.error, errorSet { lex with stream := { stream with state := .error } }
            (ascii "unable to decode byte 0x" ++ hexText c.toNat))

def streamUnget (s : Stream) (c : UInt8) : Stream :=
  let s := { s with position := s.position - 1, bufferPos := s.bufferPos - 1 }
  if c = 0x0A then { s with line := s.line - 1, column := s.lastColumn }
  else if utf8CheckFirst c ≠ 0 then { s with column := s.column - 1 }
  else s

/-! ## The lexer -/

def lexSave (lex : Lexer R) (c : UInt8) : Lexer R := { lex with savedText := lex.savedText ++ [c] }

def lexGetSave (lex : Lexer R) : Got × Lexer R :=
  match lexGet lex with
  | (.byte c, lex) => (.byte c, lexSave lex c)
  | (got, lex) => (got, lex)

def lexUnget (lex : Lexer R) : Got → Lexer R
  | .byte c => { lex with stream := streamUnget lex.stream c }
  | _ => lex

def lexUngetUnsave (lex : Lexer R) : Got → Lexer R
  | .byte c => { lex with stream := streamUnget lex.stream c, savedText := lex.savedText.dropLast }
  | _ => lex

/-- The rest of the sequence in the buffer. -/
def lexSaveCached (lex : Lexer R) : Lexer R :=
  let rest := cString (lex.stream.buffer.drop lex.stream.bufferPos)
  { lex with
    savedText := lex.savedText ++ rest
    stream := { lex.stream with
      bufferPos := lex.stream.bufferPos + rest.length
      position := lex.stream.position + rest.length } }

/-- The bytes left to read bound the loops below. -/
def Stream.left (s : Stream) : Nat := s.data.length + (s.buffer.length - s.bufferPos)

def isDigit (c : UInt8) : Bool := 0x30 ≤ c && c ≤ 0x39

def isAlpha (c : UInt8) : Bool := (0x41 ≤ c && c ≤ 0x5A) || (0x61 ≤ c && c ≤ 0x7A)

def isXdigit (c : UInt8) : Bool := isDigit c || (0x41 ≤ c && c ≤ 0x46) || (0x61 ≤ c && c ≤ 0x66)

/-- A predicate of characters on what was read. -/
def Got.is (p : UInt8 → Bool) : Got → Bool
  | .byte c => p c
  | _ => false

/-- `do c = lex_get_save(lex); while(p(c));` -/
def scanWhile (p : UInt8 → Bool) : Nat → Lexer R → Got × Lexer R
  | 0, lex => (.eof, lex)
  | fuel + 1, lex =>
    match lexGetSave lex with
    | (c, lex) => if c.is p then scanWhile p fuel lex else (c, lex)

def scanAll (p : UInt8 → Bool) (lex : Lexer R) : Got × Lexer R :=
  scanWhile p (lex.stream.left + 1) lex

/-- The four digits behind \u; what was read behind them, or none. -/
def scanHex : Nat → Lexer R → Option Got × Lexer R
  | n, lex =>
    match lexGetSave lex with
    | (c, lex) =>
      match n with
      | 0 => (some c, lex)
      | n + 1 => if c.is isXdigit then scanHex n lex else (none, lex)

/-- An escape behind its backslash. -/
def scanEscape (lex : Lexer R) : Option Got × Lexer R :=
  match lexGetSave lex with
  | (c, lex) =>
    if c = .byte 0x75 then scanHex 4 lex
    else if c = .byte quote ∨ c = .byte backslash ∨ c = .byte 0x2F ∨ c = .byte 0x62 ∨
        c = .byte 0x66 ∨ c = .byte 0x6E ∨
        c = .byte 0x72 ∨ c = .byte 0x74 then
      match lexGetSave lex with
      | (c, lex) => (some c, lex)
    else (none, lex)

/-- The loop to the closing quote. -/
def scanString : Nat → Got → Lexer R → Bool × Lexer R
  | 0, _, lex => (false, lex)
  | _ + 1, .error, lex => (false, lex)
  | _ + 1, .eof, lex => (false, errorSet lex (ascii "premature end of input"))
  | fuel + 1, .byte c, lex =>
    if c = quote then (true, lex)
    else if c ≤ 0x1F then
      let lex := lexUngetUnsave lex (.byte c)
      (false, errorSet lex
        (if c = 0x0A then ascii "unexpected newline" else
          ascii "control character 0x" ++ hexText c.toNat))
    else if c = backslash then
      match scanEscape lex with
      | (some c, lex) => scanString fuel c lex
      | (none, lex) => (false, errorSet lex (ascii "invalid escape"))
    else
      match lexGetSave lex with
      | (c, lex) => scanString fuel c lex

/-- The value of a character of decode_unicode_escape. -/
def escapeDigit (c : UInt8) : Option Nat :=
  if isDigit c then some (c.toNat - 0x30)
  else if 0x61 ≤ c ∧ c ≤ 0x7A then some (c.toNat - 0x61 + 10)
  else if 0x41 ≤ c ∧ c ≤ 0x5A then some (c.toNat - 0x41 + 10)
  else none

def decodeUnicodeEscape (a b c d : UInt8) : Option Nat :=
  (escapeDigit a).bind fun a => (escapeDigit b).bind fun b => (escapeDigit c).bind fun c =>
    (escapeDigit d).map fun d => ((a <<< 4 + b) <<< 4 + c) <<< 4 + d

/-- The second loop of lex_scan_string, from behind the opening quote: the string, or
the message of an error. The first loop leaves a quote at the end. -/
def unescape : Bytes → Except Bytes Bytes
  | [] => .ok []
  | c :: p =>
    if c = quote then .ok []
    else if c = backslash then
      match p with
      | [] => .ok []
      | u :: p =>
        if u = 0x75 then
          match p with
          | h1 :: h2 :: h3 :: h4 :: p =>
            match decodeUnicodeEscape h1 h2 h3 h4 with
            | none =>
              .error (ascii "invalid Unicode escape '" ++ [c, u, h1, h2, h3, h4] ++ ascii "'")
            | some value =>
              if 0xD800 ≤ value ∧ value ≤ 0xDBFF then
                match p with
                | b :: v :: l1 :: l2 :: l3 :: l4 :: p =>
                  if b = backslash ∧ v = 0x75 then
                    match decodeUnicodeEscape l1 l2 l3 l4 with
                    | none =>
                      .error (ascii "invalid Unicode escape '" ++ [b, v, l1, l2, l3, l4] ++
                        ascii "'")
                    | some value2 =>
                      if 0xDC00 ≤ value2 ∧ value2 ≤ 0xDFFF then
                        (unescape p).map
                          (utf8Encode (((value - 0xD800) <<< 10) + (value2 - 0xDC00) +
                            0x10000) ++ ·)
                      else
                        .error (ascii "invalid Unicode '\\u" ++ hex4 value ++ ascii "\\u" ++
                          hex4 value2 ++ ascii "'")
                  else .error (ascii "invalid Unicode '\\u" ++ hex4 value ++ ascii "'")
                | _ => .error (ascii "invalid Unicode '\\u" ++ hex4 value ++ ascii "'")
              else if 0xDC00 ≤ value ∧ value ≤ 0xDFFF then
                .error (ascii "invalid Unicode '\\u" ++ hex4 value ++ ascii "'")
              else (unescape p).map (utf8Encode value ++ ·)
          | _ => .ok []
        else
          let t :=
            if u = 0x62 then 0x08
            else if u = 0x66 then 0x0C
            else if u = 0x6E then 0x0A
            else if u = 0x72 then 0x0D
            else if u = 0x74 then 0x09
            else u
          (unescape p).map (t :: ·)
    else (unescape p).map (c :: ·)

def lexScanString (lex : Lexer R) : Lexer R :=
  let lex := { lex with token := .invalid }
  match lexGetSave lex with
  | (c, lex) =>
    match scanString (lex.stream.left + 2) c lex with
    | (false, lex) => lex
    | (true, lex) =>
      match unescape (lex.savedText.drop 1) with
      | .ok value => { lex with token := .string value }
      | .error msg => errorSet lex msg

variable (strtod : Bytes → Option R) (flags : Flags)

/-- The number a text of digits with an optional minus sign names. -/
def decimalValue : Bytes → Int
  | 0x2D :: digits => -(digits.foldl (fun n c => 10 * n + (c.toNat - 0x30)) 0 : Nat)
  | digits => (digits.foldl (fun n c => 10 * n + (c.toNat - 0x30)) 0 : Nat)

/-- The end of an integer token; strtoll fails outside of its range. -/
def integerToken (lex : Lexer R) : Lexer R :=
  let value := decimalValue lex.savedText
  if -2 ^ 63 ≤ value ∧ value < 2 ^ 63 then { lex with token := .integer value }
  else errorSet lex (if value < 0 then ascii "too big negative integer" else
    ascii "too big integer")

def realToken (lex : Lexer R) : Lexer R :=
  match strtod lex.savedText with
  | some value => { lex with token := .real value }
  | none => errorSet lex (ascii "real number overflow")

/-- A fraction when there is one; the character behind it, or none. -/
def scanFraction (c : Got) (lex : Lexer R) : Option Got × Lexer R :=
  if c = .byte 0x2E then
    match lexGet lex with
    | (.byte d, lex) =>
      if isDigit d then
        match scanAll isDigit (lexSave lex d) with
        | (c, lex) => (some c, lex)
      else (none, lexUnget lex (.byte d))
    | (_, lex) => (none, lex)
  else (some c, lex)

/-- An exponent when there is one; the character behind it, or none. -/
def scanExponent (c : Got) (lex : Lexer R) : Option Got × Lexer R :=
  if c = .byte 0x45 ∨ c = .byte 0x65 then
    match lexGetSave lex with
    | (c, lex) =>
      match if c = .byte 0x2B ∨ c = .byte 0x2D then lexGetSave lex else (c, lex) with
      | (c, lex) =>
        if c.is isDigit then
          match scanAll isDigit lex with
          | (c, lex) => (some c, lex)
        else (none, lexUngetUnsave lex c)
  else (some c, lex)

/-- lex_scan_number behind the whole part, with the character that follows it. -/
def scanTail (c : Got) (lex : Lexer R) : Lexer R :=
  if !flags.decodeIntAsReal ∧ c ≠ .byte 0x2E ∧ c ≠ .byte 0x45 ∧ c ≠ .byte 0x65 then
    integerToken (lexUngetUnsave lex c)
  else
    match scanFraction c lex with
    | (none, lex) => lex
    | (some c, lex) =>
      match scanExponent c lex with
      | (none, lex) => lex
      | (some c, lex) => realToken strtod (lexUngetUnsave lex c)

def lexScanNumber (c : UInt8) (lex : Lexer R) : Lexer R :=
  let lex := { lex with token := .invalid }
  match if c = 0x2D then lexGetSave lex else (.byte c, lex) with
  | (c, lex) =>
    if c = .byte 0x30 then
      match lexGetSave lex with
      | (c, lex) => if c.is isDigit then lexUngetUnsave lex c else scanTail strtod flags c lex
    else if c.is isDigit then
      match scanAll isDigit lex with
      | (c, lex) => scanTail strtod flags c lex
    else lexUngetUnsave lex c

/-- `c` is a blank, a tab or the end of a line. -/
def isSpace (c : UInt8) : Bool := c = 0x20 || c = 0x09 || c = 0x0A || c = 0x0D

/-- The loop over white space. -/
def skipSpaces : Nat → Lexer R → Got × Lexer R
  | 0, lex => (.eof, lex)
  | fuel + 1, lex =>
    match lexGet lex with
    | (c, lex) => if c.is isSpace then skipSpaces fuel lex else (c, lex)

def identifierToken (text : Bytes) : Token R :=
  if text = ascii "true" then .true
  else if text = ascii "false" then .false
  else if text = ascii "null" then .null
  else .invalid

def isPunctuation (c : UInt8) : Bool :=
  c = openBrace || c = closeBrace || c = openBracket || c = closeBracket || c = colon || c = comma

def lexScan (lex : Lexer R) : Lexer R :=
  let lex := { lex with savedText := [] }
  match skipSpaces (lex.stream.left + 1) lex with
  | (.eof, lex) => { lex with token := .eof }
  | (.error, lex) => { lex with token := .invalid }
  | (.byte c, lex) =>
    let lex := lexSave lex c
    if isPunctuation c then { lex with token := .char c }
    else if c = quote then lexScanString lex
    else if isDigit c || c = 0x2D then lexScanNumber strtod flags c lex
    else if isAlpha c then
      match scanAll isAlpha lex with
      | (c, lex) =>
        let lex := lexUngetUnsave lex c
        { lex with token := identifierToken lex.savedText }
    else { lexSaveCached lex with token := .invalid }

/-! ## The parser -/

/-- json_object_set_nocheck -/
def objectSet (object : List (Bytes × JsonValue R)) (key : Bytes) (value : JsonValue R) :
    List (Bytes × JsonValue R) :=
  if (object.any fun member => member.1 = key) then
    object.map fun member => if member.1 = key then (key, value) else member
  else object ++ [(key, value)]

/-- JSON_PARSER_MAX_DEPTH -/
def maxDepth : Nat := 2048

/-- The result of a parse that fails. -/
def failed (lex : Lexer R) (msg : String) : Option (JsonValue R) × Lexer R :=
  (none, errorSet lex (ascii msg))

/-- The end of parse_value. -/
def parsed (value : Option (JsonValue R)) (lex : Lexer R) : Option (JsonValue R) × Lexer R :=
  match value with
  | none => (none, lex)
  | some value => (some value, { lex with depth := lex.depth - 1 })

mutual

def parseValue : Nat → Lexer R → Option (JsonValue R) × Lexer R
  | 0, lex => (none, lex)
  | n + 1, lex =>
    let lex := { lex with depth := lex.depth + 1 }
    if lex.depth > maxDepth then failed lex "maximum parsing depth reached"
    else
      match lex.token with
      | .string value =>
        if !flags.allowNul && value.contains 0 then failed lex
          "\\u0000 is not allowed without JSON_ALLOW_NUL"
        else parsed (some (.string value)) lex
      | .integer value => parsed (some (.integer value)) lex
      | .real value => parsed (some (.real value)) lex
      | .true => parsed (some (.bool true)) lex
      | .false => parsed (some (.bool false)) lex
      | .null => parsed (some .null) lex
      | .char c =>
        if c = openBrace then
          let lex := lexScan strtod flags lex
          if lex.token.isChar closeBrace then parsed (some (.object [])) lex
          else
            match parseMembers n [] lex with
            | (value, lex) => parsed value lex
        else if c = openBracket then
          let lex := lexScan strtod flags lex
          if lex.token.isChar closeBracket then parsed (some (.array [])) lex
          else
            match parseItems n [] lex with
            | (value, lex) => parsed value lex
        else failed lex "unexpected token"
      | .invalid => failed lex "invalid token"
      | .eof => failed lex "unexpected token"

/-- The loop of parse_object. -/
def parseMembers : Nat → List (Bytes × JsonValue R) → Lexer R → Option (JsonValue R) × Lexer R
  | 0, _, lex => (none, lex)
  | n + 1, object, lex =>
    match lex.token with
    | .string key =>
      if key.contains 0 then failed lex "NUL byte in object key not supported"
      else if flags.rejectDuplicates && (object.any fun member => member.1 = key) then failed lex
        "duplicate object key"
      else
        let lex := lexScan strtod flags lex
        if !lex.token.isChar colon then failed lex "':' expected"
        else
          match parseValue n (lexScan strtod flags lex) with
          | (none, lex) => (none, lex)
          | (some value, lex) =>
            let object := objectSet object key value
            let lex := lexScan strtod flags lex
            if lex.token.isChar comma then parseMembers n object (lexScan strtod flags lex)
            else if lex.token.isChar closeBrace then (some (.object object), lex)
            else failed lex "'\x7d' expected"
    | _ => failed lex "string or '\x7d' expected"

/-- The loop of parse_array. -/
def parseItems : Nat → List (JsonValue R) → Lexer R → Option (JsonValue R) × Lexer R
  | 0, _, lex => (none, lex)
  | n + 1, array, lex =>
    match lex.token with
    | .eof => failed lex "']' expected"
    | _ =>
      match parseValue n lex with
      | (none, lex) => (none, lex)
      | (some elem, lex) =>
        let array := array ++ [elem]
        let lex := lexScan strtod flags lex
        if lex.token.isChar comma then parseItems n array (lexScan strtod flags lex)
        else if lex.token.isChar closeBracket then (some (.array array), lex)
        else failed lex "']' expected"

end

def lexInit (data : Bytes) : Lexer R where
  stream := streamInit data
  savedText := []
  depth := 0
  token := .invalid
  error := ⟨[], -1, -1, 0⟩

/-- parse_json, over a stream of these bytes; the position is kept although there was no error. -/
def parseStream (data : Bytes) : Option (JsonValue R) × JsonError :=
  let lex := lexScan strtod flags (lexInit data)
  if !flags.decodeAny && !lex.token.isChar openBracket && !lex.token.isChar openBrace then
    (none, (errorSet lex (ascii "'[' or '\x7b' expected")).error)
  else
    match parseValue strtod flags (2 * data.length + 2) lex with
    | (none, lex) => (none, lex.error)
    | (some result, lex) =>
      if flags.disableEofCheck then
        (some result, { lex.error with position := lex.stream.position })
      else
        let lex := lexScan strtod flags lex
        match lex.token with
        | .eof => (some result, { lex.error with position := lex.stream.position })
        | _ => (none, (errorSet lex (ascii "end of file expected")).error)

/-- INT_MAX -/
def intMax : Nat := 2 ^ 31 - 1

/-- parse_json where its ints are large enough: every byte may end a line, and the first
line is number 1. -/
def parseJson (data : Bytes) : Option (Option (JsonValue R) × JsonError) :=
  if data.length < intMax then some (parseStream strtod flags data) else none

def jsonLoads (string : CText) : Option (Option (JsonValue R) × JsonError) :=
  parseJson strtod flags string.bytes

def jsonLoadb (buffer : Bytes) : Option (Option (JsonValue R) × JsonError) :=
  parseJson strtod flags buffer

/-- json_loadf over what the file holds. -/
def jsonLoadf (input : Bytes) : Option (Option (JsonValue R) × JsonError) :=
  parseJson strtod flags input

end CgminerT4.Source.JsonLoad
