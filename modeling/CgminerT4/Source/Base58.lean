import CgminerT4.Source.Jansson
import CgminerT4.Source.WorkRoll

/-!
# Base58 (util.c)

b58tobin keeps a number in seven words, the most significant one first. A byte
behind the table has no digit, and the length of the string is an int.
-/
namespace CgminerT4.Source.Base58
open Library.ByteString
open Jansson (toInt)
open WorkRoll (htobe32)

def b58tobinTbl : List Int :=
  [-1, -1, -1, -1, -1, -1, -1, -1, -1, -1, -1, -1, -1, -1, -1, -1,
    -1, -1, -1, -1, -1, -1, -1, -1, -1, -1, -1, -1, -1, -1, -1, -1,
    -1, -1, -1, -1, -1, -1, -1, -1, -1, -1, -1, -1, -1, -1, -1, -1,
    -1, 0, 1, 2, 3, 4, 5, 6, 7, 8, -1, -1, -1, -1, -1, -1,
    -1, 9, 10, 11, 12, 13, 14, 15, 16, -1, 17, 18, 19, 20, 21, -1,
    22, 23, 24, 25, 26, 27, 28, 29, 30, 31, 32, -1, -1, -1, -1, -1,
    -1, 33, 34, 35, 36, 37, 38, 39, 40, 41, 42, 43, -1, 44, 45, 46,
    47, 48, 49, 50, 51, 52, 53, 54, 55, 56, 57]

/-- The digit as it is stored in `c`. -/
def digit (c : UInt8) : Option UInt32 := (b58tobinTbl[c.toNat]?).map UInt32.ofInt

/-- One word: what stays in it, and the carry. -/
def multiplyWord (word c : UInt32) : UInt32 × UInt32 :=
  let t := word.toUInt64 * 58 + c.toUInt64
  ((t &&& 0xffffffff).toUInt32, ((t &&& 0x3f00000000) >>> 32).toUInt32)

/-- The inner loop, from the last word to the first, with the carry that is left. -/
def multiplyAdd (bin32 : List UInt32) (c : UInt32) : List UInt32 × UInt32 :=
  bin32.foldr (fun word (done, c) => ((multiplyWord word c).1 :: done,
    (multiplyWord word c).2)) ([], c)

/-- The loop over the characters. -/
def addDigits (bin32 : List UInt32) : Bytes → Option (List UInt32)
  | [] => some bin32
  | c :: b58 => (digit c).bind fun c => addDigits (multiplyAdd bin32 c).1 b58

/-- The last byte of the first word, and the others. -/
def storeWords : List UInt32 → Bytes
  | [] => []
  | word :: bin32 => (word &&& 0xff).toUInt8 :: bin32.flatMap htobe32

def b58tobin (b58 : Bytes) : Option Bytes :=
  (addDigits (List.replicate 7 0) (b58.take (toInt b58.length).toNat)).map storeWords

end CgminerT4.Source.Base58
