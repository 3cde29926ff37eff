import CgminerT4.Library.Pattern
import CgminerT4.Library.StringBuffer
import CgminerT4.Source.Jansson
import CgminerT4.Source.PoolConfig

/-!
# Searching without regard to case (Strcasestr in util.c)

Both strings are copied in lower case into memory of exactly their lengths, which
are kept in ints, and the copies are given to strstr. strstr is defined on strings:
memory without a NUL has no result. `hayEnd` and `needleEnd` are what belongs to the
copies behind their characters, which is nothing in the code.
-/
namespace CgminerT4.Source.CaseSearch
open Library.ByteString Library.StringBuffer
open Jansson (toInt)
open PoolConfig (lower)

/-- The offset of the first place of `s2` in `s1`. -/
def strstr (s1 s2 : Bytes) : Option (Option Nat) :=
  if 0 ∈ s1 ∧ 0 ∈ s2 then some (((cString s1).dropInfix? (cString s2)).map fun found =>
    found.1.length) else none

/-- `alloca(len)` and the loop that fills it; a negative length is converted to a size
that no stack has. -/
def lowerCopy (s : CText) (len : Int) : Option Bytes :=
  if 0 ≤ len then some ((s.bytes.take len.toNat).map lower) else none

def searchCopies (hayEnd needleEnd : Bytes) (haystack needle : CText) : Option (Option Nat) :=
  let hlen := toInt haystack.bytes.length
  let nlen := toInt needle.bytes.length
  if hlen = 0 ∨ nlen = 0 then some none
  else
    (lowerCopy haystack hlen).bind fun lowhay =>
      (lowerCopy needle nlen).bind fun lowneedle =>
        strstr (lowhay ++ hayEnd) (lowneedle ++ needleEnd)

/-- `ofs`, by which `haystack` is moved on, or NULL. -/
def strcasestr (haystack needle : Option CText) : Option (Option Nat) :=
  match haystack, needle with
  | some haystack, some needle => searchCopies [] [] haystack needle
  | _, _ => some none

theorem lower_ne_zero (b : UInt8) (nonzero : b ≠ 0) : lower b ≠ 0 := by
  unfold lower
  split
  · rename_i upper
    intro zero
    have low := UInt8.le_iff_toNat_le.mp upper.1
    have high := UInt8.le_iff_toNat_le.mp upper.2
    have sum := congrArg UInt8.toNat zero
    simp at low high sum
    omega
  · exact nonzero

/-- No copy contains a terminator. -/
theorem zero_not_mem_lowerCopy (s : CText) (len : Int) (copy : Bytes)
    (copied : lowerCopy s len = some copy) :
    0 ∉ copy := by
  unfold lowerCopy at copied
  split at copied
  · cases copied
    intro member
    obtain ⟨b, taken, zero⟩ := List.mem_map.mp member
    exact lower_ne_zero b (fun nul => s.plain (nul ▸ List.mem_of_mem_take taken)) zero
  · cases copied

/-- A string whose length is an int is copied whole. -/
theorem lowerCopy_of_lt (s : CText) (short : s.bytes.length < 2 ^ 31) :
    lowerCopy s (toInt s.bytes.length) = some (s.bytes.map lower) := by
  rw [Jansson.toInt_of_lt _ short, lowerCopy, if_pos (Int.natCast_nonneg _),
    Int.toNat_natCast, List.take_length]

end CgminerT4.Source.CaseSearch
