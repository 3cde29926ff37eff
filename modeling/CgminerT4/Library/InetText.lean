import CgminerT4.Library.ByteString

/-!
# Addresses in text form

Four decimal octets, or up to eight groups of hexadecimal digits with one gap and, at the
end, four octets: what inet_pton reads, as bytes in the order of the network.
-/
namespace CgminerT4.Library.InetText
open ByteString

def dot : UInt8 := 0x2e
def colon : UInt8 := 0x3a

def digit (c : UInt8) : Bool := 48 ≤ c && c ≤ 57

/-- The number of a text of digits. -/
def number (text : Bytes) : Nat := text.foldl (fun n c => 10 * n + (c.toNat - 48)) 0

/-- One to three digits up to 255, and no zero in front of others. -/
def octet (text : Bytes) : Option UInt8 :=
  if text ≠ [] ∧ text.length ≤ 3 ∧ text.all digit ∧ (text.head? = some 0x30 →
    text.length = 1) ∧ number text ≤ 255 then
    some (UInt8.ofNat (number text))
  else none

/-- AF_INET -/
def quad (text : Bytes) : Option Bytes :=
  if (text.splitOn dot).length = 4 then (text.splitOn dot).mapM octet else none

def hexValue (c : UInt8) : Option Nat :=
  if digit c then some (c.toNat - 48)
  else if 0x61 ≤ c ∧ c ≤ 0x66 then some (c.toNat - 87)
  else if 0x41 ≤ c ∧ c ≤ 0x46 then some (c.toNat - 55)
  else none

/-- One to four hexadecimal digits. -/
def hexGroup (text : Bytes) : Option Bytes :=
  if text ≠ [] ∧ text.length ≤ 4 then
    (text.mapM hexValue).map fun digits =>
      let n := digits.foldl (fun n d => 16 * n + d) 0
      [UInt8.ofNat (n / 256), UInt8.ofNat (n % 256)]
  else none

/-- The bytes of groups; the last of an address may be four octets. -/
def groups (last : Bool) : List Bytes → Option Bytes
  | [] => some []
  | [text] => if last ∧ dot ∈ text then quad text else hexGroup text
  | text :: rest =>
    (hexGroup text).bind fun front => (groups last rest).map fun back => front ++ back

/-- One side of a gap. -/
def side (last : Bool) (text : Bytes) : Option Bytes :=
  if text = [] then some [] else groups last (text.splitOn colon)

/-- The texts before and behind the first "::". -/
def gap : Bytes → Option (Bytes × Bytes)
  | [] => none
  | [_] => none
  | c :: d :: text =>
    if c = colon ∧ d = colon then some ([], text) else (gap (d :: text)).map fun (front, back) =>
      (c :: front, back)

/-- AF_INET6 -/
def wide (text : Bytes) : Option Bytes :=
  match gap text with
  | none => (groups true (text.splitOn colon)).filter fun bytes => bytes.length = 16
  | some (front, back) =>
    (side false front).bind fun front => (side true back).bind fun back =>
      if front.length + back.length < 16 then
        some (front ++ List.replicate (16 - front.length - back.length) 0 ++ back)
      else none

abbrev Address := Fin 16 → UInt8

def address (bytes : Bytes) : Address := fun j => bytes.getD j 0

def inetPton6 (text : Bytes) : Option Address := (wide text).map address

/-! ## Octets -/

theorem octet_length (text : Bytes) (n : UInt8) (taken : octet text = some n) :
    text.length ≤ 3 := by
  unfold octet at taken
  split at taken
  · rename_i form
    exact form.2.1
  · cases taken

theorem octets_cons (part : Bytes) (parts : List Bytes) :
    (part :: parts).mapM octet = (octet part).bind fun n => (parts.mapM octet).map (n :: ·) := by
  rw [List.mapM_cons]
  cases octet part with
  | none => rfl
  | some n => cases parts.mapM octet <;> rfl

theorem octets_length (parts : List Bytes) (bytes : Bytes) (taken : parts.mapM octet = some bytes) :
    bytes.length = parts.length ∧ ∀ part ∈ parts, part.length ≤ 3 := by
  induction parts generalizing bytes with
  | nil =>
    cases taken
    exact ⟨rfl, fun _ inside => absurd inside List.not_mem_nil⟩
  | cons part parts ih =>
    rw [octets_cons] at taken
    obtain ⟨n, first, taken⟩ := Option.bind_eq_some_iff.mp taken
    obtain ⟨rest, others, rfl⟩ := Option.map_eq_some_iff.mp taken
    obtain ⟨length, short⟩ := ih rest others
    exact ⟨congrArg (· + 1) length, List.forall_mem_cons.mpr ⟨octet_length part n first, short⟩⟩

/-- A text is as long as its parts with a mark between them. -/
theorem length_splitOn (mark : UInt8) (text : Bytes) :
    text.length + 1 = ((text.splitOn mark).map fun part => List.length part + 1).sum := by
  induction text with
  | nil => rfl
  | cons c text ih =>
    rw [List.splitOn_cons_eq_if_modifyHead]
    split
    · rw [List.map_cons, List.sum_cons, ← ih, List.length_cons, List.length_nil]
      omega
    · cases parts : text.splitOn mark with
      | nil => exact absurd parts (List.splitOn_ne_nil mark text)
      | cons part parts' =>
        rw [parts, List.map_cons, List.sum_cons] at ih
        rw [List.modifyHead_cons, List.map_cons, List.sum_cons, List.length_cons, List.length_cons]
        omega

/-- Up to four octets are a short text. -/
theorem length_octets (text bytes : Bytes) (few : (text.splitOn dot).length ≤ 4)
    (taken : (text.splitOn dot).mapM octet = some bytes) : text.length ≤ 15 := by
  have short := (octets_length _ _ taken).2
  have bound : ∀ parts : List Bytes, (∀ part ∈ parts, part.length ≤ 3) →
      (parts.map fun part => List.length part + 1).sum ≤ 4 * parts.length := by
    intro parts short
    induction parts with
    | nil => exact le_rfl
    | cons part parts ih =>
      have first := short part List.mem_cons_self
      have rest := ih fun part inside => short part (List.mem_cons_of_mem _ inside)
      rw [List.map_cons, List.sum_cons, List.length_cons]
      omega
  have parts := bound _ short
  have length := length_splitOn dot text
  omega

theorem quad_length (text bytes : Bytes) (taken : quad text = some bytes) :
    text.length ≤ 15 ∧ bytes.length = 4 := by
  unfold quad at taken
  split at taken
  · rename_i four
    exact ⟨length_octets text bytes four.le taken, (octets_length _ _ taken).1.trans four⟩
  · cases taken

theorem quad_dot (text bytes : Bytes) (taken : quad text = some bytes) : dot ∈ text := by
  by_contra none
  unfold quad at taken
  rw [List.splitOn_eq_singleton none] at taken
  cases taken

/-! ## Octets behind "::ffff:" -/

def mappedText : Bytes := [colon, colon, 0x66, 0x66, 0x66, 0x66, colon]

def mapped (octets : Bytes) : Address := address (List.replicate 10 0 ++ [0xff, 0xff] ++ octets)

theorem gap_mapped (text : Bytes) :
    gap (mappedText ++ text) = some ([], [0x66, 0x66, 0x66, 0x66] ++ colon :: text) := rfl

/-- The last group is not looked at when there is a dot in it. -/
theorem side_mapped (text : Bytes) (plain : colon ∉ text) :
    side true ([0x66, 0x66, 0x66, 0x66] ++ colon :: text) =
      (if dot ∈ text then quad text else hexGroup text).map fun back => [0xff, 0xff] ++ back := by
  have parts : ([0x66, 0x66, 0x66, 0x66] ++ colon :: text).splitOn colon =
      [[0x66, 0x66, 0x66, 0x66], text] := by
    rw [List.splitOn_append_cons_self_of_not_mem (by decide), List.splitOn_eq_singleton plain]
  have front : hexGroup [0x66, 0x66, 0x66, 0x66] = some [0xff, 0xff] := by decide
  unfold side
  rw [if_neg (List.append_ne_nil_of_left_ne_nil (List.cons_ne_nil _ _) _), parts]
  show ((hexGroup _).bind fun front =>
    (if true = true ∧ dot ∈ text then quad text else hexGroup text).map fun back =>
      front ++ back) = _
  rw [front]
  simp only [true_and, Option.bind_some]

theorem wide_mapped (text : Bytes) (plain : colon ∉ text) (dotted : dot ∈ text) :
    wide (mappedText ++ text) = (quad text).map fun octets =>
      List.replicate 10 0 ++ [0xff, 0xff] ++ octets := by
  unfold wide
  rw [gap_mapped]
  dsimp only
  rw [side_mapped text plain, if_pos dotted]
  cases taken : quad text with
  | none => rfl
  | some octets =>
    have four := (quad_length _ _ taken).2
    show (if [].length + ([0xff, 0xff] ++ octets).length < 16 then _ else _) = _
    rw [List.length_append, four]
    rfl

theorem inetPton6_mapped (text : Bytes) (plain : colon ∉ text) (dotted : dot ∈ text) :
    inetPton6 (mappedText ++ text) = (quad text).map mapped := by
  unfold inetPton6
  rw [wide_mapped text plain dotted, Option.map_map]
  rfl

theorem mapped_short (text : Bytes) (plain : colon ∉ text) (ip : Address)
    (taken : inetPton6 (mappedText ++ text) = some ip) :
    text.length ≤ 15 := by
  by_cases dotted : dot ∈ text
  · rw [inetPton6_mapped text plain dotted] at taken
    obtain ⟨octets, taken, _⟩ := Option.map_eq_some_iff.mp taken
    exact (quad_length text octets taken).1
  · obtain ⟨bytes, taken, _⟩ := Option.map_eq_some_iff.mp taken
    unfold wide at taken
    rw [gap_mapped] at taken
    dsimp only at taken
    rw [side_mapped text plain, if_neg dotted] at taken
    unfold hexGroup at taken
    split at taken
    · omega
    · cases taken

/-! ## The characters of an address -/

def spelled (c : UInt8) : Bool := (hexValue c).isSome || c = dot || c = colon

theorem mem_splitOn (mark c : UInt8) (text : Bytes) (inside : c ∈ text) :
    c = mark ∨ ∃ part ∈ text.splitOn mark, c ∈ part := by
  by_cases here : c = mark
  · exact .inl here
  · right
    have whole : [mark].intercalate (text.splitOn mark) = text := List.intercalate_splitOn mark
    rw [← whole] at inside
    revert inside
    generalize text.splitOn mark = parts
    intro inside
    induction parts with
    | nil => exact absurd inside List.not_mem_nil
    | cons part parts ih =>
      cases parts with
      | nil =>
        rw [List.intercalate_singleton] at inside
        exact ⟨part, List.mem_cons_self, inside⟩
      | cons next parts =>
        rw [List.intercalate_cons_cons, List.mem_append, List.mem_append,
          List.mem_singleton] at inside
        obtain (first | mark') | later := inside
        · exact ⟨part, List.mem_cons_self, first⟩
        · exact absurd mark' here
        · obtain ⟨part', among, inside⟩ := ih later
          exact ⟨part', List.mem_cons_of_mem _ among, inside⟩

theorem digit_spelled (c : UInt8) (decimal : digit c) : spelled c := by
  unfold spelled hexValue
  rw [if_pos decimal]
  rfl

theorem octet_digits (text : Bytes) (n : UInt8) (taken : octet text = some n) :
    ∀ c ∈ text, digit c := by
  unfold octet at taken
  split at taken
  · rename_i form
    exact List.all_eq_true.mp form.2.2.1
  · cases taken

theorem octets_digits (parts : List Bytes) (bytes : Bytes) (taken : parts.mapM octet = some bytes) :
    ∀ part ∈ parts, ∀ c ∈ part, digit c := by
  induction parts generalizing bytes with
  | nil => exact fun _ inside => absurd inside List.not_mem_nil
  | cons part parts ih =>
    rw [octets_cons] at taken
    obtain ⟨n, first, taken⟩ := Option.bind_eq_some_iff.mp taken
    obtain ⟨rest, others, rfl⟩ := Option.map_eq_some_iff.mp taken
    exact List.forall_mem_cons.mpr ⟨octet_digits part n first, ih rest others⟩

/-- Octets with dots between them have no other characters. -/
theorem octets_chars (text bytes : Bytes) (taken : (text.splitOn dot).mapM octet = some bytes) :
    ∀ c ∈ text, digit c = true ∨ c = dot := by
  intro c inside
  obtain mark | ⟨part, among, inside⟩ := mem_splitOn dot c text inside
  · exact .inr mark
  · exact .inl (octets_digits _ _ taken part among c inside)

theorem quad_chars (text bytes : Bytes) (taken : quad text = some bytes) :
    ∀ c ∈ text, digit c = true ∨ c = dot := by
  unfold quad at taken
  split at taken
  · exact octets_chars text bytes taken
  · cases taken

theorem quad_plain (text bytes : Bytes) (taken : quad text = some bytes) : colon ∉ text := by
  intro inside
  obtain decimal | same := quad_chars text bytes taken colon inside
  · exact absurd decimal (by decide)
  · exact absurd same (by decide)

theorem quad_spelled (text bytes : Bytes) (taken : quad text = some bytes) :
    ∀ c ∈ text, spelled c := by
  intro c inside
  obtain decimal | rfl := quad_chars text bytes taken c inside
  · exact digit_spelled c decimal
  · rfl

theorem hexGroup_spelled (text bytes : Bytes) (taken : hexGroup text = some bytes) :
    ∀ c ∈ text, spelled c := by
  have digits : ∀ (text : Bytes) (values : List Nat), text.mapM hexValue = some values →
      ∀ c ∈ text, spelled c := by
    intro text
    induction text with
    | nil => exact fun _ _ _ inside => absurd inside List.not_mem_nil
    | cons d text ih =>
      intro values taken
      rw [List.mapM_cons] at taken
      obtain ⟨n, first, taken⟩ := Option.bind_eq_some_iff.mp taken
      obtain ⟨rest, others, _⟩ := Option.bind_eq_some_iff.mp taken
      refine List.forall_mem_cons.mpr ⟨?_, ih rest others⟩
      unfold spelled
      rw [first]
      rfl
  unfold hexGroup at taken
  split at taken
  · obtain ⟨values, taken, _⟩ := Option.map_eq_some_iff.mp taken
    exact digits text values taken
  · cases taken

theorem groups_spelled (last : Bool) (parts : List Bytes) (bytes : Bytes)
    (taken : groups last parts = some bytes) :
    ∀ part ∈ parts, ∀ c ∈ part, spelled c := by
  fun_induction groups last parts generalizing bytes with
  | case1 => exact fun _ inside => absurd inside List.not_mem_nil
  | case2 text four => exact List.forall_mem_singleton.mpr (quad_spelled text bytes taken)
  | case3 text four => exact List.forall_mem_singleton.mpr (hexGroup_spelled text bytes taken)
  | case4 text rest more ih =>
    obtain ⟨front, first, taken⟩ := Option.bind_eq_some_iff.mp taken
    obtain ⟨back, others, _⟩ := Option.map_eq_some_iff.mp taken
    exact List.forall_mem_cons.mpr ⟨hexGroup_spelled text front first, ih back others⟩

theorem side_spelled (last : Bool) (text bytes : Bytes) (taken : side last text = some bytes) :
    ∀ c ∈ text, spelled c := by
  intro c inside
  unfold side at taken
  split at taken
  · rename_i empty
    rw [empty] at inside
    exact absurd inside List.not_mem_nil
  · obtain mark | ⟨part, among, inside⟩ := mem_splitOn colon c text inside
    · rw [mark]
      rfl
    · exact groups_spelled last _ _ taken part among c inside

theorem gap_text (text front back : Bytes) (found : gap text = some (front, back)) :
    text = front ++ colon :: colon :: back := by
  fun_induction gap text generalizing front with
  | case1 => cases found
  | case2 => cases found
  | case3 c d text marks =>
    cases found
    rw [marks.1, marks.2]
    rfl
  | case4 c d text marks ih =>
    obtain ⟨⟨front', back'⟩, later, same⟩ := Option.map_eq_some_iff.mp found
    cases same
    rw [ih front' later]
    rfl

theorem inetPton6_spelled (text : Bytes) (ip : Address) (taken : inetPton6 text = some ip) :
    ∀ c ∈ text, spelled c := by
  obtain ⟨bytes, taken, _⟩ := Option.map_eq_some_iff.mp taken
  unfold wide at taken
  split at taken
  · rename_i none
    obtain ⟨taken, _⟩ := Option.filter_eq_some_iff.mp taken
    intro c inside
    obtain mark | ⟨part, among, inside⟩ := mem_splitOn colon c text inside
    · rw [mark]
      rfl
    · exact groups_spelled true _ _ taken part among c inside
  · rename_i front back found
    obtain ⟨before, first, taken⟩ := Option.bind_eq_some_iff.mp taken
    obtain ⟨behind, second, _⟩ := Option.bind_eq_some_iff.mp taken
    intro c inside
    rw [gap_text text front back found, List.mem_append, List.mem_cons, List.mem_cons] at inside
    obtain inside | rfl | rfl | inside := inside
    · exact side_spelled false front before first c inside
    · rfl
    · rfl
    · exact side_spelled true back behind second c inside

end CgminerT4.Library.InetText
