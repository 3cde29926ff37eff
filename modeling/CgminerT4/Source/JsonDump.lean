import CgminerT4.Source.JsonLoad

/-!
# Writing JSON (dump.c and strconv.c of jansson)

What is written and whether writing succeeded. Values are trees, so none is visited
twice, the callback itself does not fail, and keys are not sorted. `snprintf` is the
conversion %.*g of the C library in the C locale.
-/
namespace CgminerT4.Source.JsonDump
open Library.ByteString JsonUtf JsonLoad
open Library.JsonText (quote backslash comma colon openBracket closeBracket openBrace closeBrace)

/-- The flags of the encoder. -/
structure DumpFlags where
  indent : Nat
  compact : Bool
  ensureAscii : Bool
  escapeSlash : Bool
  encodeAny : Bool

/-- What was written, and whether all of it was. -/
abbrev Dumped := Bytes × Bool

/-- Writing goes on only when nothing failed. -/
def Dumped.andThen (a b : Dumped) : Dumped := if a.2 then (a.1 ++ b.1, b.2) else a

variable (flags : DumpFlags)

def dumpIndent (depth : Nat) (space : Bool) : Bytes :=
  if flags.indent > 0 then 0x0A :: List.replicate (depth * flags.indent) 0x20
  else if space && !flags.compact then [0x20]
  else []

/-- A code point that is not written as it is. -/
def needsEscape (codepoint : Nat) : Bool :=
  codepoint = 0x5C || codepoint = 0x22 || codepoint < 0x20 ||
    (flags.escapeSlash && codepoint = 0x2F) ||
    (flags.ensureAscii && codepoint > 0x7F)

def escapeText (codepoint : Nat) : Bytes :=
  if codepoint = 0x5C then [backslash, backslash]
  else if codepoint = 0x22 then [backslash, quote]
  else if codepoint = 0x08 then [backslash, 0x62]
  else if codepoint = 0x0C then [backslash, 0x66]
  else if codepoint = 0x0A then [backslash, 0x6E]
  else if codepoint = 0x0D then [backslash, 0x72]
  else if codepoint = 0x09 then [backslash, 0x74]
  else if codepoint = 0x2F then [backslash, 0x2F]
  else if codepoint < 0x10000 then [backslash, 0x75] ++ hex4 codepoint
  else
    let codepoint := codepoint - 0x10000
    [backslash, 0x75] ++ hex4 (0xD800 ||| ((codepoint &&& 0xFFC00) >>> 10)) ++ [backslash, 0x75] ++
      hex4 (0xDC00 ||| (codepoint &&& 0x003FF))

/-- The loops of dump_string; `run` is what may be written as it is, and is not when the
next bytes are no code point. -/
def dumpChars : Nat → Bytes → Bytes → Dumped
  | _, run, [] => (run, true)
  | 0, _, _ => ([], false)
  | fuel + 1, run, pos =>
    match utf8Iterate pos with
    | none => ([], false)
    | some (codepoint, end_) =>
      if needsEscape flags codepoint then
        Dumped.andThen (run ++ escapeText codepoint, true) (dumpChars fuel [] end_)
      else dumpChars fuel (run ++ pos.take (pos.length - end_.length)) end_

def dumpString (str : Bytes) : Dumped :=
  Dumped.andThen (Dumped.andThen ([quote], true) (dumpChars flags str.length [] str))
    ([quote], true)

/-- The exponent without a plus sign and without leading zeros; `rest` follows the letter. -/
def trimExponent (rest : Bytes) : Bytes :=
  let sign := if rest.head? = some 0x2D then [0x2D] else []
  sign ++ (rest.drop 1).dropWhile (· = 0x30)

def maxRealLength : Nat := 100

/-- jsonp_dtostr, behind snprintf. -/
def jsonpDtostr (buffer : Bytes) : Option Bytes :=
  if buffer.length ≥ maxRealLength then none
  else
    let plain := !buffer.contains 0x2E && !buffer.contains 0x65
    if plain && buffer.length + 3 ≥ maxRealLength then none
    else
      let buffer := if plain then buffer ++ [0x2E, 0x30] else buffer
      let start := buffer.dropWhile (· ≠ 0x65)
      match start with
      | [] => some buffer
      | e :: rest => some (buffer.takeWhile (· ≠ 0x65) ++ e :: trimExponent rest)

variable {R : Type} (snprintf : R → Bytes)

mutual

def doDump (depth : Nat) : JsonValue R → Dumped
  | .null => (ascii "null", true)
  | .bool value => (if value then ascii "true" else ascii "false", true)
  | .integer value => (decimal value, true)
  | .real value =>
    match jsonpDtostr (snprintf value) with
    | some text => (text, true)
    | none => ([], false)
  | .string value => dumpString flags value
  | .array items =>
    Dumped.andThen ([openBracket], true)
      (Dumped.andThen
        (if items.isEmpty then ([], true)
          else Dumped.andThen (dumpIndent flags (depth + 1) false, true) (dumpItems depth items))
        ([closeBracket], true))
  | .object members =>
    Dumped.andThen ([openBrace], true)
      (Dumped.andThen
        (if members.isEmpty then ([], true)
          else Dumped.andThen (dumpIndent flags (depth + 1) false,
            true) (dumpMembers depth members))
        ([closeBrace], true))

/-- The loop over the items of an array at this depth. -/
def dumpItems (depth : Nat) : List (JsonValue R) → Dumped
  | [] => ([], true)
  | item :: items =>
    Dumped.andThen (doDump (depth + 1) item)
      (if items.isEmpty then (dumpIndent flags depth false, true)
        else
          Dumped.andThen (comma :: dumpIndent flags (depth + 1) true, true) (dumpItems depth items))

/-- The loop over the members of an object at this depth; a key is not checked. -/
def dumpMembers (depth : Nat) : List (Bytes × JsonValue R) → Dumped
  | [] => ([], true)
  | (key, value) :: members =>
    Dumped.andThen ((dumpString flags key).1 ++
      (if flags.compact then [colon] else [colon, 0x20]), true)
      (Dumped.andThen (doDump (depth + 1) value)
        (if members.isEmpty then (dumpIndent flags depth false, true)
          else
            Dumped.andThen (comma :: dumpIndent flags (depth + 1) true, true)
              (dumpMembers depth members)))

end

def jsonIsContainer : JsonValue R → Bool
  | .array _ => true
  | .object _ => true
  | _ => false

/-- json_dumps, whose result ends at the first NUL. -/
def jsonDumps (json : JsonValue R) : Option Bytes :=
  if !flags.encodeAny && !jsonIsContainer json then none
  else
    let dumped := doDump flags snprintf 0 json
    if dumped.2 then some (cString dumped.1) else none

end CgminerT4.Source.JsonDump
