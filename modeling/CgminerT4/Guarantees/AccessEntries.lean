import CgminerT4.Library.PrefixMask
import CgminerT4.Source.IpAccess

/-!
# Entries of the access list

The code reads a prefix with atoi and pads an address before inet_pton sees it. What it
reads is what an entry says if the prefix is a plain number and only an address in
brackets has a colon.
-/
namespace CgminerT4.Guarantees.AccessEntries
open Library.ByteString Library.InetText Library.PrefixMask Source.IpAccess
open Source.PoolControl (atoi)

/-! ## Masks -/

theorem maskStep_run (n : Nat) :
    maskStep^[n] (fun _ => 0, 0, 7) = (prefixMask n, n / 8, 7 - n % 8) := by
  induction n with
  | zero =>
    rw [prefixMask_zero]
    rfl
  | succ n ih =>
    rw [Function.iterate_succ_apply', ih, prefixMask_succ]
    unfold maskStep
    dsimp only
    refine Prod.ext rfl ?_
    dsimp only
    split
    · refine Prod.ext ?_ ?_ <;> dsimp only <;> omega
    · refine Prod.ext ?_ ?_ <;> dsimp only <;> omega

theorem maskBits_prefixMask (n : Nat) : maskBits n = prefixMask n := by
  unfold maskBits
  rw [maskStep_run]

/-- The row of a masked address takes in the addresses with the same first bits. -/
theorem row_agree (n : Nat) (client ip : In6Addr) :
    (∀ j, client j &&& prefixMask n j = (ip j &&& prefixMask n j)) ↔ Agree n client ip :=
  masked_eq_iff n client ip

/-! ## Prefixes -/

/-- A plain number from 1 to the limit. -/
def numeral (limit : Nat) (text : Bytes) : Option Nat :=
  if text ≠ [] ∧ text.all digit ∧ 1 ≤ number text ∧
    number text ≤ limit then some (number text) else none

theorem digits_number (text : Bytes) (digits : ∀ c ∈ text, digit c = true) (n : Nat) :
    text.foldl (fun (n : Int) c => 10 * n + (c.toNat - 48)) n =
      (text.foldl (fun n c => 10 * n + (c.toNat - 48)) n : Nat) := by
  induction text generalizing n with
  | nil => rfl
  | cons c text ih =>
    have decimal := digits c List.mem_cons_self
    unfold digit at decimal
    rw [Bool.and_eq_true, decide_eq_true_iff, decide_eq_true_iff, UInt8.le_iff_toNat_le,
      UInt8.le_iff_toNat_le] at decimal
    have lower : 48 ≤ c.toNat := decimal.1
    have value : (c.toNat : Int) - 48 = ((c.toNat - 48 : Nat) : Int) := by omega
    rw [List.foldl_cons, List.foldl_cons, value]
    exact_mod_cast ih (fun d inside => digits d (List.mem_cons_of_mem c inside))
      (10 * n + (c.toNat - 48))

theorem atoi_digits (text : Bytes) (digits : ∀ c ∈ text, digit c = true)
    (small : number text < 2 ^ 31) :
    atoi text = number text := by
  have apart : ∀ c : UInt8, digit c = true →
      Source.PoolControl.isSpace c = false ∧ c ≠ 0x2d ∧ c ≠ 0x2b := by
    unfold digit Source.PoolControl.isSpace
    grind
  have start : text.dropWhile Source.PoolControl.isSpace = text := by
    cases text with
    | nil => rfl
    | cons c text =>
      rw [List.dropWhile_cons_of_neg
        (by rw [(apart c (digits c List.mem_cons_self)).1]; exact Bool.false_ne_true)]
  have unsigned : text.head? ≠ some 0x2d ∧ text.head? ≠ some 0x2b := by
    cases text with
    | nil => exact ⟨nofun, nofun⟩
    | cons c text =>
      have sign := (apart c (digits c List.mem_cons_self)).2
      simpa using sign
  have whole : text.takeWhile Source.PoolControl.isDigit = text :=
    List.takeWhile_eq_self_iff.mpr digits
  have read := digits_number text digits 0
  unfold atoi
  rw [start]
  simp only [unsigned.1, unsigned.2, or_self, if_false, whole]
  rw [show text.foldl (fun (n : Int) c => 10 * n + (c.toNat - 48)) 0 =
    (number text : Int) from read]
  rw [Int.min_eq_right (by omega), Int.max_eq_right (by omega)]
  exact Source.Jansson.toInt_of_lt _ small

theorem numeral_atoi (limit : Nat) (small : limit < 2 ^ 31) (text : Bytes) (n : Nat)
    (read : numeral limit text = some n) :
    atoi text = n ∧ 1 ≤ n ∧ n ≤ limit := by
  unfold numeral at read
  split at read
  · rename_i plain
    cases read
    exact ⟨atoi_digits text (List.all_eq_true.mp plain.2.1) (by omega), plain.2.2.1, plain.2.2.2⟩
  · cases read

/-! ## Octets -/

/-- One to four octets, and zeros for the others. -/
def octets (addr : Bytes) : Option In6Addr :=
  if (addr.splitOn dot).length ≤ 4 then
    ((addr.splitOn dot).mapM octet).map fun bytes =>
      mapped (bytes ++ List.replicate (4 - bytes.length) 0)
  else none

theorem octets_text (addr : Bytes) (ip : In6Addr) (read : octets addr = some ip) :
    addr.length ≤ 15 ∧ colon ∉ addr := by
  unfold octets at read
  split at read
  · rename_i few
    obtain ⟨bytes, taken, _⟩ := Option.map_eq_some_iff.mp read
    refine ⟨length_octets addr bytes few taken, fun inside => ?_⟩
    obtain decimal | same := octets_chars addr bytes taken colon inside
    · exact absurd decimal (by decide)
    · exact absurd same (by decide)
  · cases read

theorem behindDot_none (text : Bytes) (last : behindDot text = none) :
    text.splitOn dot = [text] := by
  unfold behindDot at last
  split at last
  · cases last
  · rename_i plain
    exact List.splitOn_eq_singleton plain

theorem behindDot_some (text rest : Bytes) (next : behindDot text = some rest) :
    ∃ part, text.splitOn dot = part :: rest.splitOn dot := by
  unfold behindDot at next
  split at next
  · rename_i dotted
    cases next
    have parts := List.takeWhile_append_dropWhile (p := (· ≠ dot)) (l := text)
    have plain : dot ∉ text.takeWhile (· ≠ dot) := by
      intro inside
      have apart := List.mem_takeWhile_imp inside
      simp at apart
    cases behind : text.dropWhile (· ≠ dot) with
    | nil =>
      rw [behind, List.append_nil] at parts
      rw [← parts] at dotted
      exact absurd dotted plain
    | cons c rest =>
      have mark : c = dot := by
        have head := List.head?_dropWhile_not (· ≠ dot) text
        rw [behind] at head
        simpa using head
      rw [behind, mark] at parts
      refine ⟨text.takeWhile (· ≠ dot), ?_⟩
      rw [← parts, List.splitOn_append_cons_self_of_not_mem plain, parts]
      rfl
  · cases next

/-- The padding is one octet for each that is missing. -/
theorem missing_eq (text : Bytes) :
    missing text = (List.replicate (4 - (text.splitOn dot).length) [dot, 0x30]).flatten := by
  unfold missing
  cases first : behindDot text with
  | none =>
    rw [behindDot_none text first]
    rfl
  | some rest =>
    obtain ⟨part, parts⟩ := behindDot_some text rest first
    rw [parts]
    dsimp only
    cases second : behindDot rest with
    | none =>
      rw [behindDot_none rest second]
      rfl
    | some rest' =>
      obtain ⟨part', parts'⟩ := behindDot_some rest rest' second
      rw [parts']
      dsimp only
      cases third : behindDot rest' with
      | none =>
        rw [behindDot_none rest' third]
        rfl
      | some rest'' =>
        obtain ⟨part'', parts''⟩ := behindDot_some rest' rest'' third
        have last := List.length_pos_iff.mpr (List.splitOn_ne_nil dot rest'')
        have full : 4 - (part :: part' :: part'' :: rest''.splitOn dot).length = 0 := by
          simp only [List.length_cons]
          omega
        rw [parts'', full]
        rfl

theorem splitOn_zeros (text : Bytes) (k : Nat) :
    (text ++ (List.replicate k [dot, 0x30]).flatten).splitOn dot =
      text.splitOn dot ++ List.replicate k [0x30] := by
  induction k generalizing text with
  | zero => simp
  | succ k ih =>
    rw [List.replicate_succ, List.flatten_cons, List.cons_append, List.splitOn_append_cons_self, ih,
      List.replicate_succ]
    rfl

theorem octets_zeros (k : Nat) :
    (List.replicate k [0x30]).mapM octet = some (List.replicate k 0) := by
  induction k with
  | zero => rfl
  | succ k ih =>
    rw [List.replicate_succ, octets_cons, ih]
    rfl

theorem quad_padded (addr : Bytes) : (quad (addr ++ missing addr)).map mapped = octets addr := by
  unfold quad octets
  rw [missing_eq, splitOn_zeros, List.length_append, List.length_replicate, List.mapM_append,
    octets_zeros]
  by_cases few : (addr.splitOn dot).length ≤ 4
  · rw [if_pos (by omega), if_pos few]
    cases taken : (addr.splitOn dot).mapM octet with
    | none => rfl
    | some bytes =>
      rw [Option.map_some, (octets_length _ _ taken).1]
      rfl
  · rw [if_neg (by omega), if_neg few]
    rfl

theorem missing_length (addr : Bytes) : (missing addr).length ≤ 6 := by
  have pieces := List.length_pos_iff.mpr (List.splitOn_ne_nil dot addr)
  rw [missing_eq, List.length_flatten, List.map_replicate, List.sum_replicate_nat]
  show (4 - _) * 2 ≤ 6
  omega

theorem missing_plain (addr : Bytes) : colon ∉ missing addr := by
  rw [missing_eq]
  intro inside
  obtain ⟨part, among, inside⟩ := List.mem_flatten.mp inside
  rw [(List.mem_replicate.mp among).2] at inside
  exact absurd inside (by decide)

theorem padded_dot (addr : Bytes) : dot ∈ addr ++ missing addr := by
  by_cases dotted : dot ∈ addr
  · exact List.mem_append_left _ dotted
  · refine List.mem_append_right _ ?_
    rw [missing_eq, List.splitOn_eq_singleton dotted]
    exact List.mem_cons_self

/-- Without a colon the padded text is read as the octets are. -/
theorem mappedTmp_octets (addr : Bytes) (plain : colon ∉ addr) :
    inetPton6 (mappedTmp addr) = octets addr := by
  have padded : colon ∉ addr ++ missing addr := by
    rw [List.mem_append]
    exact not_or.mpr ⟨plain, missing_plain addr⟩
  unfold mappedTmp
  rw [List.append_assoc]
  by_cases fits : (mappedText ++ (addr ++ missing addr)).length ≤ 63
  · rw [List.take_of_length_le fits, inetPton6_mapped _ padded (padded_dot addr), quad_padded]
  · have size : mappedText.length = 7 := rfl
    rw [List.length_append, List.length_append, size] at fits
    have zeros := missing_length addr
    have cut : (mappedText ++ (addr ++ missing addr)).take 63 =
        mappedText ++ (addr ++ missing addr).take 56 := by
      rw [List.take_append, size, List.take_of_length_le (by rw [size]; decide)]
    rw [cut]
    have long : octets addr = none := by
      cases read : octets addr with
      | none => rfl
      | some ip =>
        have short := (octets_text addr ip read).1
        omega
    cases taken : inetPton6 (mappedText ++ (addr ++ missing addr).take 56) with
    | none => rw [long]
    | some ip =>
      have short := mapped_short _ (fun inside => padded (List.mem_of_mem_take inside)) ip taken
      rw [List.length_take, List.length_append] at short
      omega

/-! ## What an entry says, and what is read -/

def behindSlash (ptr : Bytes) : Option Bytes :=
  match ptr.dropWhile (· ≠ slashChar) with
  | [] => none
  | _ :: slash => some slash

/-- An address and how many of its bits count, by a way to read prefixes and one to read
addresses without brackets. -/
def entryBy (number : Nat → Bytes → Option Nat) (unbracketed : Bytes → Option In6Addr)
    (ptr : Bytes) : Option (In6Addr × Nat) :=
  let bits (limit : Nat) := match behindSlash ptr with
    | none => some limit
    | some slash => number limit slash
  if ptr = allip then some (fun _ => 0, 0)
  else
    match bracketed (addrOf ptr) with
    | some text => (inetPton6 text).bind fun ip => (bits 128).map fun n => (ip, n)
    | none => (unbracketed (addrOf ptr)).bind fun ip => (bits 32).map fun n => (ip, 96 + n)

/-- An entry as the option describes it. -/
def documented : Bytes → Option (In6Addr × Nat) := entryBy numeral octets

def loose (limit : Nat) (slash : Bytes) : Option Nat :=
  if 1 ≤ atoi slash ∧ atoi slash ≤ limit then some (atoi slash).toNat else none

/-- An entry with atoi for the prefix and inet_pton for the padded address. -/
def taken : Bytes → Option (In6Addr × Nat) := entryBy loose fun addr => inetPton6 (mappedTmp addr)

/-- The prefix is a plain number in range, and without brackets there is no colon. -/
def Plain (ptr : Bytes) : Prop :=
  ptr = allip ∨
    (∀ slash, behindSlash ptr = some slash →
      (numeral (if (bracketed (addrOf ptr)).isSome then 128 else 32) slash).isSome) ∧
      (bracketed (addrOf ptr) = none → colon ∉ addrOf ptr)

theorem numeral_loose (limit : Nat) (small : limit < 2 ^ 31) (slash : Bytes)
    (plain : (numeral limit slash).isSome) :
    numeral limit slash = loose limit slash := by
  obtain ⟨n, read⟩ := Option.isSome_iff_exists.mp plain
  obtain ⟨value, lower, upper⟩ := numeral_atoi limit small slash n read
  unfold loose
  rw [read, value, if_pos (by omega), Int.toNat_natCast]

theorem documented_plain (ptr : Bytes) (plain : Plain ptr) : documented ptr = taken ptr := by
  unfold documented taken entryBy
  obtain rfl | ⟨number, colons⟩ := plain
  · rfl
  · dsimp only
    split
    · rfl
    cases address : bracketed (addrOf ptr) with
    | some text =>
      rw [address] at number
      cases slash : behindSlash ptr with
      | none => rfl
      | some slash' =>
        dsimp only
        rw [numeral_loose 128 (by decide) slash' (number slash' slash)]
    | none =>
      rw [address] at number
      dsimp only
      rw [mappedTmp_octets _ (colons address)]
      cases slash : behindSlash ptr with
      | none => rfl
      | some slash' =>
        dsimp only
        rw [numeral_loose 32 (by decide) slash' (number slash' slash)]

theorem documented_unplain (ptr : Bytes) (other : ¬ Plain ptr) : documented ptr = none := by
  cases read : documented ptr with
  | none => rfl
  | some entry =>
    refine absurd ?_ other
    unfold documented entryBy at read
    dsimp only at read
    split at read
    · exact .inl ‹_›
    right
    cases address : bracketed (addrOf ptr) with
    | some text =>
      rw [address] at read
      obtain ⟨ip, _, read⟩ := Option.bind_eq_some_iff.mp read
      obtain ⟨n, bits, _⟩ := Option.map_eq_some_iff.mp read
      refine ⟨fun slash behind => ?_, nofun⟩
      rw [behind] at bits
      exact Option.isSome_of_eq_some bits
    | none =>
      rw [address] at read
      obtain ⟨ip, first, read⟩ := Option.bind_eq_some_iff.mp read
      obtain ⟨n, bits, _⟩ := Option.map_eq_some_iff.mp read
      refine ⟨fun slash behind => ?_, fun _ => (octets_text _ ip first).2⟩
      rw [behind] at bits
      exact Option.isSome_of_eq_some bits

/-! ## The row of an entry -/

/-- The sum of a prefix and 96 does not fit an int. -/
def Overflows (ptr : Bytes) : Prop :=
  ptr ≠ allip ∧ bracketed (addrOf ptr) = none ∧ ∃ slash, behindSlash ptr = some slash ∧
    atoi slash + 96 > 2 ^ 31 - 1

def row (group : UInt8) (entry : In6Addr × Nat) : IPACCESS :=
  ⟨fun j => entry.1 j &&& prefixMask entry.2 j, prefixMask entry.2, group⟩

theorem checkMask_bracketed (slash : Bytes) :
    checkMask true slash = match loose 128 slash with | none => .ignored | some n => .bits n := by
  unfold checkMask loose
  dsimp only
  split
  · rw [if_neg (by omega)]
  · rw [if_pos rfl]
    split
    · rw [if_neg (by omega)]
    · rw [if_pos (by omega)]

theorem checkMask_octets (slash : Bytes) (fits : atoi slash + 96 ≤ 2 ^ 31 - 1) :
    checkMask false slash =
      match loose 32 slash with | none => .ignored | some n => .bits (96 + n) := by
  unfold checkMask loose
  dsimp only
  split
  · rw [if_neg (by omega)]
  · rw [if_neg Bool.false_ne_true, if_neg (by omega)]
    split
    · rw [if_neg (by omega)]
    · rw [if_pos (by omega)]
      dsimp only
      congr 1
      omega

theorem checkMask_overflow (slash : Bytes) (exceeds : atoi slash + 96 > 2 ^ 31 - 1) :
    checkMask false slash = .undefined := by
  unfold checkMask
  dsimp only
  rw [if_neg (by omega), if_neg Bool.false_ne_true, if_pos exceeds]

/-- A slot with what was read, or one that is skipped. -/
def Holds (answer : Option (IPACCESS × Bool)) (group : UInt8)
    (entry : Option (In6Addr × Nat)) : Prop :=
  ∃ slot, answer = some (slot, entry.isSome) ∧ ∀ read, entry = some read → slot = row group read

theorem holds_skipped (slot : IPACCESS) (group : UInt8) : Holds (some (slot, false)) group none :=
  ⟨slot, rfl, nofun⟩

theorem setIp_holds (slot : IPACCESS) (addr : Bytes) (n : Nat) (mask : slot.mask = prefixMask n) :
    Holds (some (setIp slot addr)) slot.group ((inetPton6 (addressText addr)).bind fun ip =>
      some (ip, n)) := by
  unfold setIp
  cases inetPton6 (addressText addr) with
  | none => exact holds_skipped _ _
  | some ip =>
    refine ⟨_, rfl, fun read same => ?_⟩
    cases same
    unfold row
    rw [mask]

theorem addressText_bracketed (addr text : Bytes) (address : bracketed addr = some text) :
    addressText addr = text := by
  unfold addressText
  rw [address]

theorem addressText_octets (addr : Bytes) (address : bracketed addr = none) :
    addressText addr = mappedTmp addr := by
  unfold addressText
  rw [address]

/-- Without a slash all bits count. -/
theorem setAddress_whole (slot : IPACCESS) (ptr : Bytes) (all : ptr ≠ allip)
    (behind : ptr.dropWhile (· ≠ slashChar) = []) :
    Holds (setAddress slot ptr) slot.group (taken ptr) := by
  have slashless : behindSlash ptr = none := by
    unfold behindSlash
    rw [behind]
  have whole := setIp_holds { slot with mask := fun _ => 0xff } (addrOf ptr) 128 prefixMask_all.symm
  unfold setAddress taken entryBy
  dsimp only
  rw [if_neg all, if_neg all, slashless, behind]
  cases address : bracketed (addrOf ptr) with
  | some text =>
    rw [addressText_bracketed _ text address] at whole
    exact whole
  | none =>
    rw [addressText_octets _ address] at whole
    exact whole

theorem setAddress_slash (slot : IPACCESS) (ptr slash : Bytes) (c : UInt8) (all : ptr ≠ allip)
    (behind : ptr.dropWhile (· ≠ slashChar) = c :: slash) (safe : ¬ Overflows ptr) :
    Holds (setAddress slot ptr) slot.group (taken ptr) := by
  have slashed : behindSlash ptr = some slash := by
    unfold behindSlash
    rw [behind]
  have bits :
      ∀ n, Holds (some (setIp { slot with mask := maskBits n } (addrOf ptr))) slot.group _ :=
    fun n => setIp_holds { slot with mask := maskBits n } (addrOf ptr) n (maskBits_prefixMask n)
  unfold setAddress taken entryBy
  dsimp only
  rw [if_neg all, if_neg all, slashed, behind]
  dsimp only
  cases address : bracketed (addrOf ptr) with
  | some text =>
    rw [addressText_bracketed _ text address] at bits
    rw [Option.isSome_some, checkMask_bracketed]
    dsimp only
    cases loose 128 slash with
    | none =>
      simp only [Option.map_none, Option.bind_fun_none]
      exact holds_skipped _ _
    | some n => exact bits n
  | none =>
    have fits : atoi slash + 96 ≤ 2 ^ 31 - 1 := by
      by_contra exceeds
      exact safe ⟨all, address, slash, slashed, by omega⟩
    rw [addressText_octets _ address] at bits
    rw [Option.isSome_none, checkMask_octets slash fits]
    dsimp only
    cases loose 32 slash with
    | none =>
      simp only [Option.map_none, Option.bind_fun_none]
      exact holds_skipped _ _
    | some n => exact bits (96 + n)

/-- An entry is kept as it is taken, whatever the slot holds. -/
theorem setAddress_holds (slot : IPACCESS) (ptr : Bytes) (safe : ¬ Overflows ptr) :
    Holds (setAddress slot ptr) slot.group (taken ptr) := by
  by_cases all : ptr = allip
  · rw [all]
    refine ⟨{ slot with ip := fun _ => 0, mask := fun _ => 0 }, rfl, fun read same => ?_⟩
    cases same
    unfold row
    rw [prefixMask_zero]
    simp only [UInt8.and_zero]
  · cases behind : ptr.dropWhile (· ≠ slashChar) with
    | nil => exact setAddress_whole slot ptr all behind
    | cons c slash => exact setAddress_slash slot ptr slash c all behind safe

theorem setAddress_overflow (slot : IPACCESS) (ptr : Bytes) (exceeds : Overflows ptr) :
    setAddress slot ptr = none := by
  obtain ⟨all, address, slash, slashed, exceeds⟩ := exceeds
  unfold behindSlash at slashed
  unfold setAddress
  rw [if_neg all]
  cases behind : ptr.dropWhile (· ≠ slashChar) with
  | nil =>
    rw [behind] at slashed
    cases slashed
  | cons c slash' =>
    rw [behind] at slashed
    cases slashed
    dsimp only
    rw [address, Option.isSome_none, checkMask_overflow slash exceeds]

end CgminerT4.Guarantees.AccessEntries
