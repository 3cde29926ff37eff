import Mathlib.Data.List.TakeWhile
import Mathlib.Tactic.Ring

/-!
# Byte strings: copies at an offset, little-endian numbers, word reversal

C buffers as lists. `overwrite` is the effect of copying into a buffer,
`blit` the same with the bounds check that the C code leaves to the
programmer: a copy that does not fit has no defined result. Numbers are laid
out least significant byte first. `flipWords` reverses each complete group of
four elements and leaves an incomplete last group alone.
-/
namespace CgminerT4.Library.ByteString

abbrev Bytes := List UInt8

/-- Replace the elements of `buf` from `ofs` on by `src`. -/
def overwrite (buf : List α) (ofs : Nat) (src : List α) : List α :=
  buf.take ofs ++ src ++ buf.drop (ofs + src.length)

/-- A copy that is only defined when it ends inside the destination. -/
def blit (buf : List α) (ofs : Nat) (src : List α) : Option (List α) :=
  if ofs + src.length ≤ buf.length then some (overwrite buf ofs src) else none

theorem length_overwrite (buf src : List α) (ofs : Nat) (fits : ofs + src.length ≤ buf.length) :
    (overwrite buf ofs src).length = buf.length := by
  simp only [overwrite, List.length_append, List.length_take, List.length_drop]
  omega

@[simp] theorem overwrite_nil (buf : List α) (ofs : Nat) : overwrite buf ofs [] = buf := by
  simp [overwrite]

/-- A copy over the whole buffer. -/
theorem overwrite_all (buf src : List α) (same : src.length = buf.length) :
    overwrite buf 0 src = src := by
  simp [overwrite, same]

/-- A copy to the front of a constant buffer. -/
theorem overwrite_replicate (n : Nat) (a : α) (src : List α) :
    overwrite (List.replicate n a) 0 src = src ++ List.replicate (n - src.length) a := by
  simp [overwrite]

/-- Copying over the middle of a buffer replaces exactly that middle. -/
theorem overwrite_middle (front old new back : List α) (same : new.length = old.length) :
    overwrite (front ++ old ++ back) front.length new = front ++ new ++ back := by
  have dropped : (front ++ old ++ back).drop (front.length + new.length) = back := by
    rw [same, ← List.length_append, List.drop_left]
  rw [overwrite, dropped, List.append_assoc front old back, List.take_left]

/-- A copy into the middle one of three sections. -/
theorem overwrite_inside (front mid back new : List α) (j : Nat)
    (fits : j + new.length ≤ mid.length) :
    overwrite (front ++ mid ++ back) (front.length + j) new =
      front ++ overwrite mid j new ++ back := by
  have parts : mid = mid.take j ++ (mid.drop j).take new.length ++ mid.drop (j + new.length) := by
    rw [List.append_assoc, ← List.drop_drop, List.take_append_drop, List.take_append_drop]
  have middle := overwrite_middle (front ++ mid.take j) ((mid.drop j).take new.length) new
    (mid.drop (j + new.length) ++ back) (by rw [List.length_take, List.length_drop]; omega)
  have start : (front ++ mid.take j).length = front.length + j := by
    rw [List.length_append, List.length_take, Nat.min_eq_left (by omega)]
  rw [start] at middle
  have whole : front ++ mid ++ back =
      front ++ mid.take j ++ (mid.drop j).take new.length ++
        (mid.drop (j + new.length) ++ back) := by
    nth_rewrite 1 [parts]
    simp only [List.append_assoc]
  rw [whole, middle, overwrite]
  simp only [List.append_assoc]

/-- Copying over one of several sections replaces exactly that section. -/
theorem overwrite_section (secs : List (List α)) (i ofs : Nat) (old new : List α)
    (there : secs[i]? = some old) (starts : (secs.take i).flatten.length = ofs)
    (same : new.length = old.length) :
    overwrite secs.flatten ofs new = (secs.set i new).flatten := by
  obtain ⟨inside, rfl⟩ := List.getElem?_eq_some_iff.mp there
  have parts : secs.flatten = (secs.take i).flatten ++ secs[i] ++ (secs.drop (i + 1)).flatten := by
    rw [List.append_assoc, ← List.flatten_cons, ← List.flatten_append, List.getElem_cons_drop,
      List.take_append_drop]
  rw [parts, ← starts, overwrite_middle _ _ _ _ same, List.set_eq_take_append_cons_drop,
    if_pos inside, List.flatten_append, List.flatten_cons, List.append_assoc]

theorem getElem?_overwrite (buf src : List α) (ofs i : Nat) (fits : ofs + src.length ≤ buf.length) :
    (overwrite buf ofs src)[i]? =
      if i < ofs then buf[i]?
      else if i < ofs + src.length then src[i - ofs]? else buf[i]? := by
  have front : (buf.take ofs).length = ofs := by rw [List.length_take]; omega
  rw [overwrite, List.append_assoc]
  split
  · next before =>
    rw [List.getElem?_append_left (by omega), List.getElem?_take_of_lt before]
  · next reached =>
    rw [List.getElem?_append_right (by omega), front]
    split
    · rw [List.getElem?_append_left (by omega)]
    · rw [List.getElem?_append_right (by omega), List.getElem?_drop]
      congr 1
      omega

/-- An overwrite that ends before the part that is still to be read. -/
theorem drop_overwrite (buf src : List α) (ofs j : Nat) (before : ofs + src.length ≤ j)
    (fits : ofs + src.length ≤ buf.length) : (overwrite buf ofs src).drop j = buf.drop j := by
  apply List.ext_getElem?
  intro i
  rw [List.getElem?_drop, List.getElem?_drop, getElem?_overwrite buf src ofs _ fits,
    if_neg (by omega), if_neg (by omega)]

/-- A section that a copy does not reach. -/
theorem slice_overwrite_disjoint (buf src : List α) (ofs j n : Nat)
    (fits : ofs + src.length ≤ buf.length) (disjoint : j + n ≤ ofs ∨ ofs + src.length ≤ j) :
    ((overwrite buf ofs src).drop j).take n = (buf.drop j).take n := by
  apply List.ext_getElem?
  intro i
  rw [List.getElem?_take, List.getElem?_take]
  split
  · next inside =>
    rw [List.getElem?_drop, List.getElem?_drop, getElem?_overwrite buf src ofs _ fits]
    rcases disjoint with below | above
    · rw [if_pos (by omega)]
    · rw [if_neg (by omega), if_neg (by omega)]
  · rfl

/-- The section a copy writes. -/
theorem slice_overwrite_same (buf src : List α) (ofs : Nat) (fits : ofs + src.length ≤ buf.length) :
    ((overwrite buf ofs src).drop ofs).take src.length = src := by
  have front : (buf.take ofs).length = ofs := by rw [List.length_take]; omega
  rw [overwrite, List.append_assoc, List.drop_left' front, List.take_left]

/-- A part of the section a copy writes. -/
theorem slice_overwrite_within (buf src : List α) (ofs j n : Nat)
    (fits : ofs + src.length ≤ buf.length) (starts : ofs ≤ j) (ends : j + n ≤ ofs + src.length) :
    ((overwrite buf ofs src).drop j).take n = (src.drop (j - ofs)).take n := by
  apply List.ext_getElem?
  intro i
  rw [List.getElem?_take, List.getElem?_take]
  split
  · next inside =>
    rw [List.getElem?_drop, List.getElem?_drop, getElem?_overwrite buf src ofs _ fits,
      if_neg (by omega), if_pos (by omega)]
    congr 1
    omega
  · rfl

/-- An overwrite extends what is known of the front. -/
theorem take_overwrite (buf src done : List α) (ofs : Nat) (front : buf.take ofs = done)
    (inside : ofs ≤ buf.length) :
    (overwrite buf ofs src).take (ofs + src.length) = done ++ src := by
  have length : (done ++ src).length = ofs + src.length := by
    rw [List.length_append, ← front, List.length_take, Nat.min_eq_left inside]
  rw [overwrite, front, ← length, List.take_left]

/-- A copy inside the front of a buffer. -/
theorem take_overwrite_inside (buf src : List α) (ofs n : Nat) (inside : ofs + src.length ≤ n)
    (fits : n ≤ buf.length) : (overwrite buf ofs src).take n = overwrite (buf.take n) ofs src := by
  apply List.ext_getElem?
  intro i
  have front : (buf.take n).length = n := by rw [List.length_take, Nat.min_eq_left fits]
  rw [List.getElem?_take, getElem?_overwrite buf src ofs i (by omega),
    getElem?_overwrite (buf.take n) src ofs i (by omega), List.getElem?_take]
  split
  · rfl
  · rw [if_neg (by omega), if_neg (by omega)]

/-- Several copies inside the front of a buffer. -/
theorem take_foldl_overwrite (writes : List (Nat × List α)) (buf : List α) (n : Nat)
    (inside : ∀ write ∈ writes, write.1 + write.2.length ≤ n) (fits : n ≤ buf.length) :
    (writes.foldl (fun buf write => overwrite buf write.1 write.2) buf).take n =
      writes.foldl (fun buf write => overwrite buf write.1 write.2) (buf.take n) := by
  induction writes generalizing buf with
  | nil => rfl
  | cons write rest ih =>
    obtain ⟨first, later⟩ := List.forall_mem_cons.mp inside
    have size := length_overwrite buf write.2 write.1 (first.trans fits)
    rw [List.foldl_cons, List.foldl_cons, ih _ later (size.symm ▸ fits),
      take_overwrite_inside buf write.2 write.1 n first fits]

/-- Two copies one behind the other are one copy. -/
theorem overwrite_overwrite (buf first second : List α) (ofs : Nat)
    (fits : ofs + first.length ≤ buf.length) :
    overwrite (overwrite buf ofs first) (ofs + first.length) second =
      overwrite buf ofs (first ++ second) := by
  have front := take_overwrite buf first (buf.take ofs) ofs rfl (by omega)
  have back := drop_overwrite buf first ofs (ofs + first.length + second.length) (by omega) fits
  rw [overwrite, front, back, overwrite, List.length_append, Nat.add_assoc,
    List.append_assoc (buf.take ofs)]

/-- Of two copies to one place the second stays, with what it leaves of the first. -/
theorem overwrite_same_place (buf first second : List α) (ofs : Nat)
    (firstFits : ofs + first.length ≤ buf.length) (secondFits : ofs + second.length ≤ buf.length) :
    overwrite (overwrite buf ofs first) ofs second =
      overwrite buf ofs (second ++ first.drop second.length) := by
  have joined : (second ++ first.drop second.length).length = max second.length first.length := by
    rw [List.length_append, List.length_drop]
    omega
  have size := length_overwrite buf first ofs firstFits
  apply List.ext_getElem?
  intro i
  rw [getElem?_overwrite _ _ _ _ (by omega), getElem?_overwrite _ _ _ _ firstFits,
    getElem?_overwrite _ _ _ _ (by omega), joined]
  by_cases before : i < ofs
  · rw [if_pos before, if_pos before, if_pos before]
  · rw [if_neg before, if_neg before, if_neg before]
    by_cases inSecond : i < ofs + second.length
    · rw [if_pos inSecond, if_pos (by omega), List.getElem?_append_left (by omega)]
    · rw [if_neg inSecond, List.getElem?_append_right (by omega), List.getElem?_drop,
        Nat.add_sub_cancel' (by omega)]
      by_cases inFirst : i < ofs + first.length
      · rw [if_pos inFirst, if_pos (by omega)]
      · rw [if_neg inFirst, if_neg (by omega)]

theorem blit_some (buf src out : List α) (ofs : Nat) (success : blit buf ofs src = some out) :
    ofs + src.length ≤ buf.length ∧ out = overwrite buf ofs src := by
  unfold blit at success
  split at success
  · next fits => exact ⟨fits, (Option.some.inj success).symm⟩
  · cases success

theorem length_blit (buf src out : List α) (ofs : Nat) (success : blit buf ofs src = some out) :
    out.length = buf.length := by
  obtain ⟨fits, written⟩ := blit_some buf src out ofs success
  rw [written, length_overwrite buf src ofs fits]

/-- The middle one of three sections. -/
theorem take_drop_middle (front mid back : List α) (a n : Nat) (starts : front.length = a)
    (size : mid.length = n) : ((front ++ mid ++ back).drop a).take n = mid := by
  rw [List.append_assoc, ← starts, List.drop_left, ← size, List.take_left]

/-- Reading a list through one of its sections. -/
theorem getD_section (l mid : List α) (a n i : Nat) (d : α) (cut : (l.drop a).take n = mid)
    (inside : i < n) : l.getD (a + i) d = mid.getD i d := by
  rw [← cut, List.getD_eq_getElem?_getD, List.getD_eq_getElem?_getD,
    List.getElem?_take_of_lt inside, List.getElem?_drop]

/-- The `k` low bytes of `n`, least significant first. -/
def littleEndian : Nat → Nat → Bytes
  | 0, _ => []
  | k + 1, n => UInt8.ofNat n :: littleEndian k (n / 256)

def ofLittleEndian : Bytes → Nat
  | [] => 0
  | b :: rest => b.toNat + 256 * ofLittleEndian rest

@[simp] theorem length_littleEndian (k n : Nat) : (littleEndian k n).length = k := by
  induction k generalizing n with
  | zero => rfl
  | succ k ih => simp [littleEndian, ih]

theorem ofLittleEndian_littleEndian (k n : Nat) :
    ofLittleEndian (littleEndian k n) = n % 256 ^ k := by
  induction k generalizing n with
  | zero => simp [littleEndian, ofLittleEndian, Nat.mod_one]
  | succ k ih =>
    have low : (UInt8.ofNat n).toNat = n % 256 := by simp
    rw [littleEndian, ofLittleEndian, ih, low, Nat.pow_succ', Nat.mod_mul]

theorem ofLittleEndian_append (low high : Bytes) :
    ofLittleEndian (low ++ high) = ofLittleEndian low + 256 ^ low.length * ofLittleEndian high := by
  induction low with
  | nil => simp [ofLittleEndian]
  | cons b low ih =>
    rw [List.cons_append, ofLittleEndian, ofLittleEndian, ih, List.length_cons, Nat.pow_succ',
      Nat.mul_add, Nat.mul_assoc, Nat.add_assoc]

theorem ofLittleEndian_lt (bytes : Bytes) : ofLittleEndian bytes < 256 ^ bytes.length := by
  induction bytes with
  | nil => exact Nat.one_pos
  | cons b bytes ih =>
    have byte : b.toNat < 256 := b.toNat_lt
    rw [ofLittleEndian, List.length_cons, Nat.pow_succ']
    omega

/-- Two numbers with the same `k` low bytes agree modulo `256 ^ k`. -/
theorem littleEndian_inj (k n m : Nat) (same : littleEndian k n = littleEndian k m) :
    n % 256 ^ k = m % 256 ^ k := by
  rw [← ofLittleEndian_littleEndian, ← ofLittleEndian_littleEndian, same]

/-- A prefix of a little-endian number is the shorter little-endian number. -/
theorem take_littleEndian (k w n : Nat) (narrow : k ≤ w) :
    (littleEndian w n).take k = littleEndian k n := by
  induction k generalizing w n with
  | zero => simp [littleEndian]
  | succ k ih =>
    cases w with
    | zero => omega
    | succ w => simp only [littleEndian, List.take_succ_cons, ih w (n / 256) (by omega)]

theorem littleEndian_getElem? (k n i : Nat) (inside : i < k) :
    (littleEndian k n)[i]? = some (UInt8.ofNat (n / 256 ^ i)) := by
  induction k generalizing n i with
  | zero => omega
  | succ k ih =>
    cases i with
    | zero => simp [littleEndian]
    | succ i =>
      simp only [littleEndian, List.getElem?_cons_succ]
      rw [ih (n / 256) i (by omega), Nat.div_div_eq_div_mul, Nat.pow_succ']

/-- What C string functions see of a buffer: the bytes before the first NUL. -/
def cString (buf : Bytes) : Bytes := buf.takeWhile (· ≠ 0)

@[simp] theorem cString_cons_zero (rest : Bytes) : cString (0 :: rest) = [] := by simp [cString]

theorem cString_cons (b : UInt8) (rest : Bytes) (nonzero : b ≠ 0) :
    cString (b :: rest) = b :: cString rest := by simp [cString, nonzero]

/-- Without a NUL the whole buffer is the string. -/
theorem cString_of_plain (s : Bytes) (plain : ∀ b ∈ s, b ≠ 0) : cString s = s :=
  List.takeWhile_eq_self_iff.mpr fun b member => by simpa using plain b member

/-- Nothing behind a terminator is read. -/
theorem cString_append_zero (s rest : Bytes) : cString (s ++ 0 :: rest) = cString s := by
  induction s with
  | nil => simp [cString]
  | cons b s ih =>
    by_cases nul : b = 0
    · rw [List.cons_append, nul, cString_cons_zero, cString_cons_zero]
    · rw [List.cons_append, cString_cons b _ nul, cString_cons b _ nul, ih]

theorem zero_not_mem_cString (buf : Bytes) : 0 ∉ cString buf := by
  intro member
  have nonzero := List.mem_takeWhile_imp member
  simp at nonzero

/-- A string followed by its terminator. -/
theorem cString_layout (s rest : Bytes) (plain : 0 ∉ s) : cString (s ++ 0 :: rest) = s := by
  rw [cString_append_zero]
  exact cString_of_plain s fun b member zero => plain (zero ▸ member)

/-- A string shorter than its buffer is followed by a terminator. -/
theorem cString_terminated (buf : Bytes) (shorter : (cString buf).length < buf.length) :
    ∃ rest, buf = cString buf ++ 0 :: rest := by
  induction buf with
  | nil => simp [cString] at shorter
  | cons b buf ih =>
    by_cases nul : b = 0
    · rw [nul]
      exact ⟨buf, by simp⟩
    · rw [cString_cons b buf nul] at shorter ⊢
      obtain ⟨rest, split⟩ := ih (Nat.lt_of_succ_lt_succ shorter)
      exact ⟨rest, by rw [List.cons_append, ← split]⟩

/-- The characters of a literal. -/
def ascii (s : String) : Bytes := s.toUTF8.toList

/-- The conversion %d. -/
def decimal (n : Int) : Bytes := ascii (toString n)

theorem toList_loop (bytes : ByteArray) (i : Nat) (r : Bytes) :
    ByteArray.toList.loop bytes i r = r.reverse ++ bytes.data.toList.drop i := by
  fun_induction ByteArray.toList.loop bytes i r with
  | case1 i r inside ih =>
    have bound : i < bytes.data.toList.length := inside
    have byte : bytes.get! i = bytes.data.toList[i] := by
      rw [Array.getElem_toList]
      exact getElem!_pos bytes.data i inside
    rw [ih, List.reverse_cons, List.append_assoc, List.singleton_append, byte,
      List.getElem_cons_drop]
  | case2 i r outside => rw [List.drop_eq_nil_of_le (not_lt.mp outside), List.append_nil]

/-- The characters of a text, each in its bytes. -/
theorem ascii_eq (s : String) : ascii s = s.toList.flatMap String.utf8EncodeChar := by
  have whole : ascii s = s.toByteArray.data.toList := (toList_loop s.toByteArray 0 []).trans rfl
  rw [whole, ← String.utf8Encode_toList]
  unfold List.utf8Encode
  rw [List.data_toByteArray, List.toList_toArray]

theorem digit_range (c : Char) (digit : c.isDigit = true) : 48 ≤ c.toNat ∧ c.toNat ≤ 57 := by
  unfold Char.isDigit at digit
  rw [Bool.and_eq_true, decide_eq_true_iff, decide_eq_true_iff] at digit
  exact ⟨UInt32.le_iff_toNat_le.mp digit.1, UInt32.le_iff_toNat_le.mp digit.2⟩

/-- The digits of a number. -/
theorem decimal_nat (n : Nat) :
    decimal n = (Nat.toDigits 10 n).map fun c => UInt8.ofNat c.toNat := by
  have text : (toString (n : Int)).toList = Nat.toDigits 10 n := Nat.toList_repr
  unfold decimal
  have single : ∀ c ∈ Nat.toDigits 10 n, String.utf8EncodeChar c = [UInt8.ofNat c.toNat] :=
    fun c member => by
    have small := (digit_range c (Nat.isDigit_of_mem_toDigits (by decide) (by decide) member)).2
    unfold Char.toNat at small
    exact if_pos (by omega)
  rw [ascii_eq, text, List.map_eq_flatMap, List.flatMap_def, List.flatMap_def,
    List.map_congr_left single]

theorem decimal_digits (n : Nat) (c : UInt8) (member : c ∈ decimal n) :
    48 ≤ c.toNat ∧ c.toNat ≤ 57 := by
  rw [decimal_nat] at member
  obtain ⟨d, inside, rfl⟩ := List.mem_map.mp member
  obtain ⟨lower, upper⟩ :=
    digit_range d (Nat.isDigit_of_mem_toDigits (by decide) (by decide) inside)
  rw [UInt8.toNat_ofNat_of_lt' (show d.toNat < 2 ^ 8 by omega)]
  exact ⟨lower, upper⟩

/-- Reverse the elements of each complete group of four. -/
def flipWords : List α → List α
  | a :: b :: c :: d :: rest => d :: c :: b :: a :: flipWords rest
  | rest => rest

@[simp] theorem length_flipWords (l : List α) : (flipWords l).length = l.length := by
  fun_induction flipWords l with
  | case1 a b c d rest ih => simp [ih]
  | case2 => rfl

/-- Position `i` of the flipped list, for an index in a complete word. -/
theorem getElem?_flipWords (l : List α) (i : Nat) (complete : 4 * (i / 4) + 4 ≤ l.length) :
    (flipWords l)[i]? = l[4 * (i / 4) + (3 - i % 4)]? := by
  fun_induction flipWords l generalizing i with
  | case1 a b c d rest ih =>
    by_cases first : i < 4
    · have cases : i = 0 ∨ i = 1 ∨ i = 2 ∨ i = 3 := by omega
      rcases cases with rfl | rfl | rfl | rfl <;> rfl
    · obtain ⟨j, rfl⟩ : ∃ j, i = j + 4 := ⟨i - 4, by omega⟩
      have index : 4 * ((j + 4) / 4) + (3 - (j + 4) % 4) = 4 * (j / 4) + (3 - j % 4) + 4 := by omega
      simp only [List.length_cons] at complete
      rw [index]
      simpa only [List.getElem?_cons_succ] using ih j (by omega)
  | case2 rest short =>
    match rest, short with
    | [], _ => simp at complete
    | [_], _ => simp at complete
    | [_, _], _ => simp at complete
    | [_, _, _], _ => simp at complete
    | a :: b :: c :: d :: tail, short => exact absurd rfl (short a b c d tail)

/-- An array of exactly `n` bytes. -/
structure Buffer (n : Nat) where
  bytes : Bytes
  length_eq : bytes.length = n
  deriving DecidableEq

namespace Buffer

def zero (n : Nat) : Buffer n := ⟨List.replicate n 0, List.length_replicate⟩

def get (b : Buffer n) (i : Nat) : UInt8 := b.bytes.getD i 0

def set (b : Buffer n) (i : Nat) (value : UInt8) : Buffer n :=
  ⟨b.bytes.set i value, by rw [List.length_set, b.length_eq]⟩

theorem get_set_self (b : Buffer n) (i : Nat) (value : UInt8) (inside : i < n) :
    (b.set i value).get i = value := by
  have valid : i < b.bytes.length := by rw [b.length_eq]; exact inside
  simp [get, set, valid]

theorem get_set_ne (b : Buffer n) (i j : Nat) (value : UInt8) (different : i ≠ j) :
    (b.set i value).get j = b.get j := by
  simp [get, set, different]

/-- Copy into the array, defined when the copy ends inside it. -/
def store (b : Buffer n) (ofs : Nat) (src : Bytes) : Option (Buffer n) :=
  if fits : ofs + src.length ≤ n then
    some ⟨overwrite b.bytes ofs src, by
      rw [length_overwrite _ _ _ (by rw [b.length_eq]; exact fits), b.length_eq]⟩
  else none

theorem store_some (b out : Buffer n) (ofs : Nat) (src : Bytes)
    (success : b.store ofs src = some out) :
    ofs + src.length ≤ n ∧ out.bytes = overwrite b.bytes ofs src := by
  unfold store at success
  split at success
  · next fits =>
    cases success
    exact ⟨fits, rfl⟩
  · cases success

/-- Several copies in order. -/
def storeAll : Buffer n → List (Nat × Bytes) → Option (Buffer n)
  | b, [] => some b
  | b, (ofs, src) :: rest => (b.store ofs src).bind fun next => next.storeAll rest

theorem storeAll_cons (b out : Buffer n) (ofs : Nat) (src : Bytes) (rest : List (Nat × Bytes))
    (success : b.storeAll ((ofs, src) :: rest) = some out) :
    ∃ next : Buffer n, next.bytes = overwrite b.bytes ofs src ∧ ofs + src.length ≤ n ∧
      next.storeAll rest = some out := by
  obtain ⟨next, stored, following⟩ := Option.bind_eq_some_iff.mp success
  obtain ⟨fits, bytes⟩ := store_some b next ofs src stored
  exact ⟨next, bytes, fits, following⟩

theorem storeAll_append (b : Buffer n) (first second : List (Nat × Bytes)) :
    b.storeAll (first ++ second) = (b.storeAll first).bind fun next => next.storeAll second := by
  induction first generalizing b with
  | nil => rfl
  | cons write rest ih =>
    rw [List.cons_append, storeAll, storeAll, Option.bind_assoc]
    congr 1
    funext next
    exact ih next

/-- What several copies leave. -/
theorem storeAll_bytes (b out : Buffer n) (writes : List (Nat × Bytes))
    (success : b.storeAll writes = some out) :
    out.bytes = writes.foldl (fun buf write => overwrite buf write.1 write.2) b.bytes := by
  induction writes generalizing b with
  | nil =>
    cases success
    rfl
  | cons write rest ih =>
    obtain ⟨next, bytes, _, following⟩ := storeAll_cons b out write.1 write.2 rest success
    rw [ih next following, bytes, List.foldl_cons]

theorem store_isSome (b : Buffer n) (ofs : Nat) (src : Bytes) :
    (b.store ofs src).isSome = true ↔ ofs + src.length ≤ n := by
  unfold store
  split
  · next fits => exact iff_of_true rfl fits
  · next outside => exact iff_of_false (by simp) outside

theorem storeAll_isSome (b : Buffer n) (writes : List (Nat × Bytes)) :
    (b.storeAll writes).isSome = true ↔ ∀ write ∈ writes, write.1 + write.2.length ≤ n := by
  induction writes generalizing b with
  | nil => exact iff_of_true rfl fun _ member => absurd member List.not_mem_nil
  | cons write rest ih =>
    rw [storeAll, List.forall_mem_cons, ← store_isSome b write.1 write.2]
    cases b.store write.1 write.2 with
    | none => simp
    | some next => simp [ih next]

theorem store_of_fits (b : Buffer n) (ofs : Nat) (src : Bytes) (fits : ofs + src.length ≤ n) :
    ∃ out, b.store ofs src = some out ∧ out.bytes = overwrite b.bytes ofs src := by
  rw [store, dif_pos fits]
  exact ⟨_, rfl, rfl⟩

end Buffer

/-- Arrays of one size laid out one after the other. -/
def flat (l : List (Buffer n)) : Bytes := l.flatMap Buffer.bytes

@[simp] theorem flat_nil : flat ([] : List (Buffer n)) = [] := rfl

@[simp] theorem flat_cons (b : Buffer n) (l : List (Buffer n)) :
    flat (b :: l) = b.bytes ++ flat l := rfl

@[simp] theorem flat_append (l m : List (Buffer n)) : flat (l ++ m) = flat l ++ flat m := by
  simp [flat]

@[simp] theorem length_flat (l : List (Buffer n)) : (flat l).length = n * l.length := by
  induction l with
  | nil => simp
  | cons b l ih =>
    rw [flat_cons, List.length_append, b.length_eq, ih, List.length_cons, Nat.mul_succ,
      Nat.add_comm]

/-- The `i`-th array of the layout. -/
theorem slice_flat (l : List (Buffer n)) (i : Nat) (inside : i < l.length) :
    ((flat l).drop (n * i)).take n = l[i].bytes := by
  have parts : l = l.take i ++ l[i] :: l.drop (i + 1) := by
    rw [List.getElem_cons_drop, List.take_append_drop]
  have front : (flat (l.take i)).length = n * i := by
    rw [length_flat, List.length_take, Nat.min_eq_left (Nat.le_of_lt inside)]
  have layout : flat l = flat (l.take i) ++ l[i].bytes ++ flat (l.drop (i + 1)) := by
    rw [List.append_assoc, ← flat_cons, ← flat_append, ← parts]
  rw [layout]
  exact take_drop_middle _ _ _ _ _ front l[i].length_eq

end CgminerT4.Library.ByteString
