import CgminerT4.Source.CaseSearch

/-!
# What Strcasestr finds

The lower case copies have room for the characters alone, so no terminator follows
them and strstr reads on behind both for every pair of strings that reaches it. The
function does what its name says only where it does not search: a length is 0 as an
int, and there is nothing to be found. With a zero byte behind each copy it would
return the first place of the needle on every pair of strings below 2^31 bytes.
-/
namespace CgminerT4.Guarantees.SubstringPlace
open Library.ByteString Library.Pattern Library.StringBuffer
open Source.Jansson (toInt)
open Source.PoolConfig (lower)
open Source.CaseSearch

/-- The needle stands at this place, without regard to the case of ASCII letters. -/
def OccursAt (haystack needle : CText) (i : Nat) : Prop :=
  needle.bytes.map lower <+: (haystack.bytes.map lower).drop i

instance (haystack needle : CText) (i : Nat) : Decidable (OccursAt haystack needle i) := by
  unfold OccursAt
  infer_instance

structure Finds (haystack needle : CText) (result : Option Nat) : Prop where
  place : ∀ i, result = some i → OccursAt haystack needle i ∧ ∀ j < i, ¬ OccursAt haystack needle j
  null : result = none ↔ haystack.bytes = [] ∨ needle.bytes = [] ∨ ∀ i, ¬ OccursAt haystack needle i

/-- The call reads nothing else than the strings and its copies, and finds the needle. -/
def Searches (haystack needle : CText) : Prop :=
  ∃ result, strcasestr (some haystack) (some needle) = some result ∧ Finds haystack needle result

theorem finds_nothing (haystack needle : CText)
    (nothing : haystack.bytes = [] ∨ needle.bytes = [] ∨ ∀ i, ¬ OccursAt haystack needle i) :
    Finds haystack needle none := by
  constructor
  · intro i found
    cases found
  · exact iff_of_true rfl nothing

/-- Where strstr is reached, it is given memory without a terminator. -/
theorem strcasestr_undefined (haystack needle : CText) (hlen : toInt haystack.bytes.length ≠ 0)
    (nlen : toInt needle.bytes.length ≠ 0) : strcasestr (some haystack) (some needle) = none := by
  unfold strcasestr
  dsimp only
  rw [searchCopies, if_neg (by simp only [hlen, nlen, or_self, not_false_eq_true])]
  cases copied : lowerCopy haystack (toInt haystack.bytes.length) with
  | none => rfl
  | some lowhay =>
    have plain := zero_not_mem_lowerCopy haystack _ lowhay copied
    rw [Option.bind_some]
    cases lowerCopy needle (toInt needle.bytes.length) with
    | none => rfl
    | some lowneedle =>
      rw [Option.bind_some, List.append_nil, List.append_nil, strstr, if_neg]
      exact fun both => plain both.1

/-- strstr on two terminated copies. -/
theorem strstr_finds (haystack needle : CText) (hay : haystack.bytes ≠ [])
    (filled : needle.bytes ≠ []) (hayEnd needleEnd : Bytes) :
    ∃ result, strstr (haystack.bytes.map lower ++ 0 :: hayEnd)
      (needle.bytes.map lower ++ 0 :: needleEnd) =
      some result ∧ Finds haystack needle result := by
  have plain : ∀ s : CText, 0 ∉ s.bytes.map lower := by
    intro s member
    obtain ⟨b, taken, zero⟩ := List.mem_map.mp member
    exact lower_ne_zero b (fun nul => s.plain (nul ▸ taken)) zero
  rw [strstr, if_pos ⟨by simp, by simp⟩, cString_layout _ _ (plain haystack),
    cString_layout _ _ (plain needle)]
  refine ⟨_, rfl, ⟨?_, ?_⟩⟩
  · intro i found
    obtain ⟨⟨front, rest⟩, split, rfl⟩ := Option.map_eq_some_iff.mp found
    exact dropInfix?_place split
  · rw [Option.map_eq_none_iff, dropInfix?_eq_none_iff]
    constructor
    · intro nowhere
      exact .inr (.inr nowhere)
    · rintro (empty | empty | nowhere)
      · exact absurd empty hay
      · exact absurd empty filled
      · exact nowhere

theorem toInt_ne_zero (s : CText) (short : s.bytes.length < 2 ^ 31) (filled : s.bytes ≠ []) :
    toInt s.bytes.length ≠ 0 := by
  have positive := List.length_pos_of_ne_nil filled
  rw [Source.Jansson.toInt_of_lt _ short]
  omega

/-- What the copies lack is one zero byte each. -/
theorem searchCopies_terminated (haystack needle : CText)
    (shortHay : haystack.bytes.length < 2 ^ 31) (shortNeedle : needle.bytes.length < 2 ^ 31)
    (hayEnd needleEnd : Bytes) :
    ∃ result, searchCopies (0 :: hayEnd) (0 :: needleEnd) haystack needle = some result ∧
      Finds haystack needle result := by
  unfold searchCopies
  dsimp only
  by_cases empty : haystack.bytes = [] ∨ needle.bytes = []
  · have zero : toInt haystack.bytes.length = 0 ∨ toInt needle.bytes.length = 0 :=
      empty.imp (fun none => by rw [none]; rfl) (fun none => by rw [none]; rfl)
    rw [if_pos zero]
    exact ⟨none, rfl, finds_nothing haystack needle (empty.imp_right .inl)⟩
  · rw [not_or] at empty
    have hlen := toInt_ne_zero haystack shortHay empty.1
    have nlen := toInt_ne_zero needle shortNeedle empty.2
    rw [if_neg (not_or.mpr ⟨hlen, nlen⟩), lowerCopy_of_lt haystack shortHay, Option.bind_some,
      lowerCopy_of_lt needle shortNeedle, Option.bind_some]
    exact strstr_finds haystack needle empty.1 empty.2 hayEnd needleEnd

/-- The needle is searched for as the name says exactly where strstr is not reached and
there is nothing to be found. -/
theorem searches_iff (haystack needle : CText) :
    Searches haystack needle ↔
      (toInt haystack.bytes.length = 0 ∨ toInt needle.bytes.length = 0) ∧
        (haystack.bytes = [] ∨ needle.bytes = [] ∨ ∀ i, ¬ OccursAt haystack needle i) := by
  by_cases zero : toInt haystack.bytes.length = 0 ∨ toInt needle.bytes.length = 0
  · have null : strcasestr (some haystack) (some needle) = some none := by
      unfold strcasestr searchCopies
      dsimp only
      rw [if_pos zero]
    constructor
    · rintro ⟨result, returned, finds⟩
      rw [null, Option.some.injEq] at returned
      exact ⟨zero, finds.null.mp returned.symm⟩
    · rintro ⟨_, nothing⟩
      exact ⟨none, null, finds_nothing haystack needle nothing⟩
  · have reached := not_or.mp zero
    constructor
    · rintro ⟨result, returned, _⟩
      rw [strcasestr_undefined haystack needle reached.1 reached.2] at returned
      cases returned
    · exact fun nothing => absurd nothing.1 zero

def letterA : CText := ⟨[0x61], by decide⟩

/-- Already the search of a letter in itself reads behind the copies. -/
theorem letter_not_searched :
    strcasestr (some letterA) (some letterA) = none ∧ OccursAt letterA letterA 0 ∧
      ¬ Searches letterA letterA := by
  have undefined : strcasestr (some letterA) (some letterA) = none := by decide +kernel
  refine ⟨undefined, by decide +kernel, ?_⟩
  rintro ⟨result, returned, _⟩
  rw [undefined] at returned
  cases returned

end CgminerT4.Guarantees.SubstringPlace
