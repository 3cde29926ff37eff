import CgminerT4.Library.ByteString

/-!
# UTF-8 in jansson (utf.c)

A code point is a number; `utf8Encode` is called with code points of Unicode only.
`hex4` is the conversion %04X of a UTF-16 code unit.
-/
namespace CgminerT4.Source.JsonUtf
open Library.ByteString

def utf8Encode (codepoint : Nat) : Bytes :=
  if codepoint < 0x80 then [UInt8.ofNat codepoint]
  else if codepoint < 0x800 then
    [UInt8.ofNat (0xC0 + ((codepoint &&& 0x7C0) >>> 6)), UInt8.ofNat (0x80 + (codepoint &&& 0x03F))]
  else if codepoint < 0x10000 then
    [UInt8.ofNat (0xE0 + ((codepoint &&& 0xF000) >>> 12)),
      UInt8.ofNat (0x80 + ((codepoint &&& 0x0FC0) >>> 6)),
      UInt8.ofNat (0x80 + (codepoint &&& 0x003F))]
  else
    [UInt8.ofNat (0xF0 + ((codepoint &&& 0x1C0000) >>> 18)),
      UInt8.ofNat (0x80 + ((codepoint &&& 0x03F000) >>> 12)),
      UInt8.ofNat (0x80 + ((codepoint &&& 0x000FC0) >>> 6)),
      UInt8.ofNat (0x80 + (codepoint &&& 0x00003F))]

/-- The length of the sequence a byte begins; zero when it begins none. -/
def utf8CheckFirst (u : UInt8) : Nat :=
  if u < 0x80 then 1
  else if 0x80 ≤ u ∧ u ≤ 0xBF then 0
  else if u = 0xC0 ∨ u = 0xC1 then 0
  else if 0xC2 ≤ u ∧ u ≤ 0xDF then 2
  else if 0xE0 ≤ u ∧ u ≤ 0xEF then 3
  else if 0xF0 ≤ u ∧ u ≤ 0xF4 then 4
  else 0

/-- The loop over the continuation bytes. -/
def utf8Continue : Nat → Bytes → Option Nat
  | value, [] => some value
  | value, u :: rest =>
    if u < 0x80 ∨ u > 0xBF then none else utf8Continue ((value <<< 6) + (u.toNat &&& 0x3F)) rest

/-- The bits of the first byte of a sequence of `size` bytes. -/
def utf8First (size : Nat) (u : UInt8) : Option Nat :=
  if size = 2 then some (u.toNat &&& 0x1F)
  else if size = 3 then some (u.toNat &&& 0xF)
  else if size = 4 then some (u.toNat &&& 0x7)
  else none

/-- The code point of a sequence of `buffer.length` bytes. -/
def utf8CheckFull (buffer : Bytes) : Option Nat :=
  match buffer with
  | [] => none
  | u :: rest =>
    let size := buffer.length
    (utf8First size u).bind fun first =>
      (utf8Continue first rest).bind fun value =>
        if value > 0x10FFFF then none
        else if 0xD800 ≤ value ∧ value ≤ 0xDFFF then none
        else if (size = 2 ∧ value < 0x80) ∨ (size = 3 ∧ value < 0x800) ∨ (size = 4 ∧
          value < 0x10000) then none
        else some value

/-- The code point in front of a text, and what follows it; a text that is not empty. -/
def utf8Iterate (buffer : Bytes) : Option (Nat × Bytes) :=
  match buffer with
  | [] => none
  | u :: _ =>
    let count := utf8CheckFirst u
    if count = 0 then none
    else if count = 1 then some (u.toNat, buffer.drop 1)
    else if count > buffer.length then none
    else (utf8CheckFull (buffer.take count)).map fun value => (value, buffer.drop count)

def hexDigit (n : Nat) : UInt8 :=
  if n < 10 then UInt8.ofNat (0x30 + n) else UInt8.ofNat (0x41 + (n - 10))

def hex4 (n : Nat) : Bytes :=
  [hexDigit (n / 4096 % 16), hexDigit (n / 256 % 16), hexDigit (n / 16 % 16), hexDigit (n % 16)]

end CgminerT4.Source.JsonUtf
