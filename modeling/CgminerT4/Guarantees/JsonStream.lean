import CgminerT4.Library.JsonReading
import CgminerT4.Source.JsonLoad

/-!
# What the stream and the lexer of jansson have still to read

The stream buffers one character. Between tokens it stands in front of a text: at
the end of its buffer, in front of a character that was given back, at the end of
the input, or stuck at bytes that are no character.
-/
namespace CgminerT4.Guarantees.JsonReads
open Library.ByteString Library.JsonText Source.JsonUtf Source.JsonLoad

/-! ## UTF-8 -/

theorem checkFirst_spec (u : UInt8) : utf8CheckFirst u =
    if u < 0x80 then 1 else if u < 0xc2 then 0 else if u < 0xe0 then 2 else if u < 0xf0 then 3
    else if u < 0xf5 then 4 else 0 := by
  unfold utf8CheckFirst
  simp only [UInt8.lt_iff_toNat_lt, UInt8.le_iff_toNat_le, ← UInt8.toNat_inj, UInt8.reduceToNat]
  have bound := u.toNat_lt
  repeat' split
  all_goals omega

theorem and_low (n k : Nat) : n &&& (2 ^ k - 1) = n % 2 ^ k := Nat.and_two_pow_sub_one_eq_mod n k

theorem utf8Continue_one (value : Nat) (b : UInt8) :
    utf8Continue value [b] = if continuation b then some (value * 64 + b.toNat % 64) else none := by
  have mask : b.toNat &&& 0x3F = b.toNat % 64 := and_low _ 6
  rw [utf8Continue, utf8Continue, mask, Nat.shiftLeft_eq]
  by_cases tail : continuation b
  · have range := (continuation_iff b).mp tail
    rw [if_pos tail, if_neg]
    simp only [UInt8.lt_iff_toNat_lt, gt_iff_lt, UInt8.reduceToNat]
    omega
  · have range := mt (continuation_iff b).mpr tail
    rw [if_neg tail, if_pos]
    simp only [UInt8.lt_iff_toNat_lt, gt_iff_lt, UInt8.reduceToNat]
    omega

theorem utf8Continue_cons (value : Nat) (b : UInt8) (rest : Bytes) :
    utf8Continue value (b :: rest) = (utf8Continue value [b]).bind fun value =>
      utf8Continue value rest := by
  rw [utf8Continue, utf8Continue, utf8Continue]
  split <;> rfl

theorem utf8Continue_one_some {value n : Nat} {b : UInt8} (read : utf8Continue value [b] = some n) :
    continuation b = true ∧ n = value * 64 + b.toNat % 64 := by
  rw [utf8Continue_one] at read
  split at read
  · next tail =>
    cases read
    exact ⟨tail, rfl⟩
  · cases read

/-- The value a sequence of `size` bytes may not have. -/
def Refused (size value : Nat) : Prop :=
  value > 0x10FFFF ∨ (0xD800 ≤ value ∧ value ≤ 0xDFFF) ∨
    ((size = 2 ∧ value < 0x80) ∨ (size = 3 ∧ value < 0x800) ∨ (size = 4 ∧ value < 0x10000))

theorem checkFull_of_value (u : UInt8) (rest : Bytes) {first value n : Nat}
    (started : utf8First (u :: rest).length u = some first)
    (continued : utf8Continue first rest = some value) :
    utf8CheckFull (u :: rest) = some n ↔ ¬ Refused (u :: rest).length value ∧ n = value := by
  unfold utf8CheckFull
  simp only [started, Option.bind_some, continued]
  unfold Refused
  constructor
  · intro read
    split at read
    · cases read
    · split at read
      · cases read
      · split at read
        · cases read
        · cases read
          exact ⟨by omega, rfl⟩
  · rintro ⟨kept, rfl⟩
    rw [if_neg (by omega), if_neg (by omega), if_neg (by omega)]

theorem checkFull_two (a b : UInt8) (n : Nat) (low : 0xc2 ≤ a) (high : a < 0xe0) :
    utf8CheckFull [a, b] = some n ↔ IsChar [a, b] ∧ n = code [a, b] := by
  have mask : a.toNat &&& 0x1F = a.toNat % 32 := and_low _ 5
  by_cases tail : continuation b
  · have continued : utf8Continue (a.toNat &&& 0x1F) [b] = some (code [a, b]) := by
      rw [utf8Continue_one, if_pos tail, mask]
      rfl
    have char := IsChar.two a b low high tail
    rw [checkFull_of_value a [b] rfl continued]
    refine and_congr_left fun _ => iff_of_true ?_ char
    have range := isChar_two.mp char
    simp only [Refused, code, List.length_cons, List.length_nil]
    omega
  · refine iff_of_false ?_ ?_
    · unfold utf8CheckFull
      simp [utf8First, utf8Continue_one, tail]
    · rintro ⟨char, _⟩
      cases char with
      | two _ _ _ _ tail' => exact tail tail'

theorem utf8Continue_two {value n : Nat} {b c : UInt8} (read : utf8Continue value [b, c] = some n) :
    continuation b = true ∧ continuation c = true ∧
      n = (value * 64 + b.toNat % 64) * 64 + c.toNat % 64 := by
  rw [utf8Continue_cons] at read
  obtain ⟨m, one, two⟩ := Option.bind_eq_some_iff.mp read
  obtain ⟨tail, rfl⟩ := utf8Continue_one_some one
  obtain ⟨tail2, rfl⟩ := utf8Continue_one_some two
  exact ⟨tail, tail2, rfl⟩

theorem checkFull_three (a b c : UInt8) (n : Nat) (low : 0xe0 ≤ a) (high : a < 0xf0) :
    utf8CheckFull [a, b, c] = some n ↔ IsChar [a, b, c] ∧ n = code [a, b, c] := by
  have mask : a.toNat &&& 0xF = a.toNat % 16 := and_low _ 4
  cases continued : utf8Continue (a.toNat &&& 0xF) [b, c] with
  | none =>
    refine iff_of_false ?_ ?_
    · unfold utf8CheckFull
      simp [utf8First, continued]
    · rintro ⟨char, _⟩
      cases char with
      | three _ _ _ _ _ tail tail2 =>
        rw [utf8Continue_cons, utf8Continue_one, if_pos tail, Option.bind_some, utf8Continue_one,
          if_pos tail2] at continued
        cases continued
  | some value =>
    obtain ⟨tail, tail2, named⟩ := utf8Continue_two continued
    rw [mask] at named
    have same : value = code [a, b, c] := named
    have lower : 0xe0 ≤ a.toNat := UInt8.le_iff_toNat_le.mp low
    have upper : a.toNat < 0xf0 := UInt8.lt_iff_toNat_lt.mp high
    have range := (continuation_iff b).mp tail
    have range2 := (continuation_iff c).mp tail2
    rw [checkFull_of_value a [b, c] rfl continued, ← same, isChar_three]
    refine and_congr_left fun _ => ?_
    simp only [Refused, List.length_cons, List.length_nil, true_and]
    omega

theorem utf8Continue_three {value n : Nat} {b c d : UInt8}
    (read : utf8Continue value [b, c, d] = some n) :
    continuation b = true ∧ continuation c = true ∧ continuation d = true ∧
      n = ((value * 64 + b.toNat % 64) * 64 + c.toNat % 64) * 64 + d.toNat % 64 := by
  rw [utf8Continue_cons] at read
  obtain ⟨m, one, two⟩ := Option.bind_eq_some_iff.mp read
  obtain ⟨tail, rfl⟩ := utf8Continue_one_some one
  obtain ⟨tail2, tail3, rfl⟩ := utf8Continue_two two
  exact ⟨tail, tail2, tail3, rfl⟩

theorem checkFull_four (a b c d : UInt8) (n : Nat) (low : 0xf0 ≤ a) (high : a < 0xf5) :
    utf8CheckFull [a, b, c, d] = some n ↔ IsChar [a, b, c, d] ∧ n = code [a, b, c, d] := by
  have mask : a.toNat &&& 0x7 = a.toNat % 8 := and_low _ 3
  cases continued : utf8Continue (a.toNat &&& 0x7) [b, c, d] with
  | none =>
    refine iff_of_false ?_ ?_
    · unfold utf8CheckFull
      simp [utf8First, continued]
    · rintro ⟨char, _⟩
      cases char with
      | four _ _ _ _ _ _ tail tail2 tail3 =>
        rw [utf8Continue_cons, utf8Continue_one, if_pos tail, Option.bind_some, utf8Continue_cons,
          utf8Continue_one, if_pos tail2, Option.bind_some, utf8Continue_one,
          if_pos tail3] at continued
        cases continued
  | some value =>
    obtain ⟨tail, tail2, tail3, named⟩ := utf8Continue_three continued
    rw [mask] at named
    have same : value = code [a, b, c, d] := named
    have lower : 0xf0 ≤ a.toNat := UInt8.le_iff_toNat_le.mp low
    have upper : a.toNat < 0xf5 := UInt8.lt_iff_toNat_lt.mp high
    have range := (continuation_iff b).mp tail
    have range2 := (continuation_iff c).mp tail2
    have range3 := (continuation_iff d).mp tail3
    rw [checkFull_of_value a [b, c, d] rfl continued, ← same, isChar_four]
    refine and_congr_left fun _ => ?_
    simp only [Refused, List.length_cons, List.length_nil, true_and]
    omega

/-- A sequence as long as its first byte says is accepted exactly when it is a character. -/
theorem checkFull_iff (u : UInt8) (rest : Bytes) (n : Nat) (several : rest ≠ [])
    (first : utf8CheckFirst u = (u :: rest).length) :
    utf8CheckFull (u :: rest) = some n ↔ IsChar (u :: rest) ∧ n = code (u :: rest) := by
  have filled := List.length_pos_iff.mpr several
  rw [checkFirst_spec, List.length_cons] at first
  have not_lt {a b : UInt8} (away : ¬ a < b) : b ≤ a := UInt8.not_lt.mp away
  split at first
  · omega
  · split at first
    · omega
    · next low =>
      split at first
      · next high =>
        rcases rest with _ | ⟨b, _ | ⟨c, rest⟩⟩
        · exact absurd rfl several
        · exact checkFull_two u b n (not_lt low) high
        · simp only [List.length_cons] at first
          omega
      · next low2 =>
        split at first
        · next high =>
          rcases rest with _ | ⟨b, _ | ⟨c, _ | ⟨d, rest⟩⟩⟩
          · exact absurd rfl several
          · simp only [List.length_cons, List.length_nil] at first
            omega
          · exact checkFull_three u b c n (not_lt low2) high
          · simp only [List.length_cons] at first
            omega
        · next low3 =>
          split at first
          · next high =>
            rcases rest with _ | ⟨b, _ | ⟨c, _ | ⟨d, _ | ⟨e, rest⟩⟩⟩⟩
            · exact absurd rfl several
            · simp only [List.length_cons, List.length_nil] at first
              omega
            · simp only [List.length_cons, List.length_nil] at first
              omega
            · exact checkFull_four u b c d n (not_lt low3) high
            · simp only [List.length_cons] at first
              omega
          · omega

theorem IsChar.first {e : Bytes} {u : UInt8} {rest : Bytes} (char : IsChar e)
    (split : e = u :: rest) :
    utf8CheckFirst u = e.length := by
  rw [checkFirst_spec]
  have not_lt {a b : UInt8} (le : b ≤ a) : ¬ a < b := UInt8.not_lt.mpr le
  cases char with
  | one a small =>
    cases split
    rw [if_pos small]
    rfl
  | two a b low high =>
    cases split
    rw [if_neg (not_lt (UInt8.le_trans (by decide) low)), if_neg (not_lt low), if_pos high]
    rfl
  | three a b c low high =>
    cases split
    rw [if_neg (not_lt (UInt8.le_trans (by decide) low)),
      if_neg (not_lt (UInt8.le_trans (by decide) low)), if_neg (not_lt low), if_pos high]
    rfl
  | four a b c d low high =>
    cases split
    rw [if_neg (not_lt (UInt8.le_trans (by decide) low)),
      if_neg (not_lt (UInt8.le_trans (by decide) low)),
      if_neg (not_lt (UInt8.le_trans (by decide) low)), if_neg (not_lt low), if_pos high]
    rfl

/-! ## The stream -/

/-- No character is in front of the text. -/
def Broken (s : Bytes) : Prop := s ≠ [] ∧ ∀ e t, IsChar e → s ≠ e ++ t

theorem broken_or_char (s : Bytes) : s = [] ∨ (∃ e t, IsChar e ∧ s = e ++ t) ∨ Broken s := by
  by_cases empty : s = []
  · exact .inl empty
  · by_cases char : ∃ e t, IsChar e ∧ s = e ++ t
    · exact .inr (.inl char)
    · exact .inr (.inr ⟨empty, fun e t isChar split => char ⟨e, t, isChar, split⟩⟩)

/-- The stream stands in front of this text. -/
def Ready (st : Stream) (s : Bytes) : Prop :=
  0 ∉ s ∧
    ((st.state = .ok ∧ st.buffer.length ≤ st.bufferPos ∧ st.data = s) ∨
      (st.state = .ok ∧ st.bufferPos = 0 ∧ IsChar st.buffer ∧ s = st.buffer ++ st.data) ∨
      (st.state = .eof ∧ s = []) ∨
      (st.state = .error ∧ Broken s))

/-- The first `i` bytes of a character have been read, and `t` follows it. -/
structure Within (st : Stream) (e : Bytes) (i : Nat) (t : Bytes) : Prop where
  state : st.state = .ok
  buffer : st.buffer = e
  pos : st.bufferPos = i
  data : st.data = t
  char : IsChar e
  plain : 0 ∉ e ++ t

/-- What was read in front of the text, and can be given back. -/
inductive Stopped (st : Stream) : Got → Bytes → Prop
  | byte (a : UInt8) (e t : Bytes) (within : Within st (a :: e) 1 t) :
    Stopped st (.byte a) (a :: e ++ t)
  | eof (state : st.state = .eof) : Stopped st .eof []
  | error (s : Bytes) (state : st.state = .error) (broken : Broken s) (plain : 0 ∉ s) :
    Stopped st .error s

def taken : Got → Bytes
  | .byte c => [c]
  | .eof => []
  | .error => []

variable {R : Type}

/-- The fields that reading a character leaves as they are. -/
def Kept (lex lex' : Lexer R) : Prop := lex'.depth = lex.depth ∧ lex'.token = lex.token

theorem Kept.trans {a b c : Lexer R} (one : Kept a b) (two : Kept b c) : Kept a c :=
  ⟨two.1.trans one.1, two.2.trans one.2⟩

theorem errorSet_frame (lex : Lexer R) (msg : Bytes) : (errorSet lex msg).stream = lex.stream ∧
    (errorSet lex msg).savedText = lex.savedText ∧ Kept lex (errorSet lex msg) := by
  unfold errorSet
  split <;> exact ⟨rfl, rfl, rfl, rfl⟩

theorem errorSet_text (lex : Lexer R) (msg : Bytes) (filled : msg ≠ []) :
    (errorSet lex msg).error.text ≠ [] := by
  unfold errorSet
  split
  · intro none
    exact filled (List.append_eq_nil_iff.mp none).1
  · next already => exact already

theorem advance_spec (st : Stream) : st.advance.1 = st.buffer.getD st.bufferPos 0 ∧
    st.advance.2.state = st.state ∧ st.advance.2.buffer = st.buffer ∧
      st.advance.2.bufferPos = st.bufferPos + 1 ∧
      st.advance.2.data = st.data := by
  unfold Stream.advance
  dsimp only
  split
  · exact ⟨rfl, rfl, rfl, rfl, rfl⟩
  · split <;> exact ⟨rfl, rfl, rfl, rfl, rfl⟩

theorem unget_spec (st : Stream) (c : UInt8) : (streamUnget st c).state = st.state ∧
    (streamUnget st c).buffer = st.buffer ∧ (streamUnget st c).bufferPos = st.bufferPos - 1 ∧
      (streamUnget st c).data = st.data := by
  unfold streamUnget
  dsimp only
  split
  · exact ⟨rfl, rfl, rfl, rfl⟩
  · split <;> exact ⟨rfl, rfl, rfl, rfl⟩

/-- The next byte of a character. -/
theorem lexGet_within (lex : Lexer R) (e : Bytes) (i : Nat) (t : Bytes)
    (within : Within lex.stream e i t) (inside : i < e.length) :
    ∃ lex', lexGet lex = (.byte e[i], lex') ∧ Within lex'.stream e (i + 1) t ∧
      lex'.savedText = lex.savedText ∧
      Kept lex lex' := by
  have byte : lex.stream.buffer.getD lex.stream.bufferPos 0 = e[i] := by
    rw [within.buffer, within.pos, List.getD_eq_getElem?_getD, List.getElem?_eq_getElem inside,
      Option.getD_some]
  have nonzero : e[i] ≠ 0 := by
    intro zero
    exact within.plain (List.mem_append_left t (zero ▸ List.getElem_mem inside))
  obtain ⟨read, state, buffer, pos, data⟩ := advance_spec lex.stream
  refine ⟨{ lex with stream := lex.stream.advance.2 }, ?_,
    ⟨state.trans within.state, buffer.trans within.buffer, by rw [pos, within.pos],
    data.trans within.data, within.char,
      within.plain⟩, rfl, rfl, rfl⟩
  unfold lexGet
  rw [within.state]
  dsimp only
  rw [if_pos (by rw [byte]; exact nonzero)]
  exact Prod.ext (by rw [read, byte]) rfl

/-- Behind a character the stream is at the end of its buffer. -/
theorem Within.ready {st : Stream} {e t : Bytes} (within : Within st e e.length t) : Ready st t :=
  ⟨fun member => within.plain (List.mem_append_right e member),
    .inl ⟨within.state, by rw [within.buffer, within.pos], within.data⟩⟩

/-- Filling the buffer with the character in front of the data. -/
theorem fill_char (st : Stream) (a : UInt8) (e t : Bytes) (char : IsChar (a :: e)) :
    ∃ st', st.fill a (e ++ t) = (st', none) ∧ st'.state = st.state ∧ st'.buffer = a :: e ∧
      st'.bufferPos = 0 ∧
      st'.data = t := by
  have first := IsChar.first char rfl
  unfold Stream.fill
  split
  · next small =>
    have alone : e = [] := by
      rw [checkFirst_spec, if_pos small, List.length_cons] at first
      exact List.eq_nil_of_length_eq_zero (by omega)
    subst alone
    exact ⟨_, rfl, rfl, rfl, rfl, rfl⟩
  · next large =>
    have several : e ≠ [] := by
      rintro rfl
      rw [checkFirst_spec, if_neg large] at first
      simp only [List.length_cons, List.length_nil] at first
      split at first
      · omega
      · split at first
        · omega
        · split at first
          · omega
          · split at first <;> omega
    have full : utf8CheckFull (a :: e) = some (code (a :: e)) :=
      (checkFull_iff a e _ several first).mpr ⟨char, rfl⟩
    have count : utf8CheckFirst a - 1 = e.length := by
      rw [first, List.length_cons]
      omega
    refine ⟨{ st with data := t, buffer := a :: e, bufferPos := 0 }, ?_, rfl, rfl, rfl, rfl⟩
    dsimp only
    rw [count, List.take_left' rfl, List.drop_left' rfl, Nat.sub_self, List.replicate_zero,
      List.append_nil, if_neg]
    rintro (none | none)
    · rw [first, List.length_cons] at none
      omega
    · rw [full] at none
      cases none

/-- Bytes that are no character cannot be decoded. -/
theorem fill_broken (st : Stream) (a : UInt8) (data : Bytes) (broken : Broken (a :: data)) :
    ∃ st', st.fill a data = (st', some a) := by
  have large : ¬ a < 0x80 := fun small => broken.2 [a] data (.one a small) rfl
  unfold Stream.fill
  rw [if_neg large]
  dsimp only
  refine ⟨_, if_pos ?_⟩
  by_cases starts : utf8CheckFirst a = 0
  · exact .inl starts
  · right
    obtain ⟨e, eDef⟩ : ∃ e, e = data.take (utf8CheckFirst a - 1) ++
        List.replicate (utf8CheckFirst a - 1 - (data.take (utf8CheckFirst a - 1)).length) 0xFF :=
          ⟨_, rfl⟩
    rw [← eDef]
    have two : 2 ≤ utf8CheckFirst a := by
      have spec := checkFirst_spec a
      rw [if_neg large] at spec
      split at spec
      · exact absurd spec starts
      · split at spec
        · omega
        · split at spec
          · omega
          · split at spec
            · omega
            · exact absurd spec starts
    have length : e.length = utf8CheckFirst a - 1 := by
      rw [eDef, List.length_append, List.length_replicate, List.length_take]
      omega
    have several : e ≠ [] := by
      rintro rfl
      rw [List.length_nil] at length
      omega
    cases full : utf8CheckFull (a :: e) with
    | none => rfl
    | some n =>
      exfalso
      obtain ⟨char, _⟩ :=
        (checkFull_iff a e n several (by rw [List.length_cons, length]; omega)).mp full
      obtain ⟨b, tail, shape, _, continues⟩ := char.parts
      cases shape
      -- 0xFF is no continuation byte, so there was enough data
      have whole : data.take (utf8CheckFirst a - 1) = e := by
        rw [eDef]
        cases missing : utf8CheckFirst a - 1 - (data.take (utf8CheckFirst a - 1)).length with
        | zero => rw [List.replicate_zero, List.append_nil]
        | succ k =>
          have member : (0xFF : UInt8) ∈ e := by
            rw [eDef, missing]
            simp
          have := continues 0xFF member
          exact absurd this (by decide)
      refine broken.2 (a :: e) (data.drop (utf8CheckFirst a - 1)) char ?_
      rw [List.cons_append, ← whole, List.take_append_drop]

/-- Reading a character. -/
theorem lexGet_ready (lex : Lexer R) (s : Bytes) (ready : Ready lex.stream s) :
    ∃ got lex', lexGet lex = (got, lex') ∧ Stopped lex'.stream got s ∧
      lex'.savedText = lex.savedText ∧ Kept lex lex' := by
  obtain ⟨plain, ⟨state, pos, data⟩ | ⟨state, pos, char, split⟩ | ⟨state, rfl⟩ | ⟨state, broken⟩⟩ :=
    ready
  · have empty : lex.stream.buffer.getD lex.stream.bufferPos 0 = 0 := by
      rw [List.getD_eq_getElem?_getD, List.getElem?_eq_none pos, Option.getD_none]
    rcases broken_or_char s with rfl | ⟨e, t, char, rfl⟩ | broken
    · refine ⟨.eof, { lex with stream := { lex.stream with state := .eof } }, ?_, .eof rfl, rfl,
        rfl, rfl⟩
      unfold lexGet
      rw [state]
      dsimp only
      rw [if_neg (by rw [empty]; simp), data]
    · obtain ⟨a, tail, rfl, _⟩ := char.parts
      obtain ⟨st', filled, state', buffer', pos', data'⟩ := fill_char lex.stream a tail t char
      obtain ⟨read, state2, buffer2, pos2, data2⟩ := advance_spec st'
      refine ⟨.byte a, { lex with stream := st'.advance.2 }, ?_, .byte a tail t
        ⟨state2.trans (state'.trans state), buffer2.trans buffer', by rw [pos2, pos'],
          data2.trans data', char, plain⟩,
        rfl, rfl, rfl⟩
      unfold lexGet
      rw [state]
      dsimp only
      rw [if_neg (by rw [empty]; simp), data, List.cons_append]
      dsimp only
      rw [filled]
      refine Prod.ext ?_ rfl
      dsimp only
      rw [read, buffer', pos']
      rfl
    · obtain ⟨a, rest, rfl⟩ : ∃ a rest, s = a :: rest := by
        cases s with
        | nil => exact absurd rfl broken.1
        | cons a rest => exact ⟨a, rest, rfl⟩
      obtain ⟨st', filled⟩ := fill_broken lex.stream a rest broken
      obtain ⟨stream, saved, kept⟩ :=
        errorSet_frame { lex with stream := { st' with state := .error } }
        (ascii "unable to decode byte 0x" ++ hexText a.toNat)
      refine ⟨.error, _, ?_, .error _ ?_ broken plain, saved, kept⟩
      · unfold lexGet
        rw [state]
        dsimp only
        rw [if_neg (by rw [empty]; simp), data]
        dsimp only
        rw [filled]
      · rw [stream]
  · obtain ⟨a, tail, shape, _⟩ := char.parts
    obtain ⟨lex', got, within, saved, kept⟩ := lexGet_within lex (a :: tail) 0 lex.stream.data
      ⟨state, shape, pos, rfl, shape ▸ char, by rw [← shape, ← split]; exact plain⟩ (by simp)
    rw [split, shape]
    exact ⟨.byte a, lex', got, .byte a tail _ within, saved, kept⟩
  · refine ⟨.eof, lex, ?_, .eof state, rfl, rfl, rfl⟩
    unfold lexGet
    rw [state]
  · refine ⟨.error, lex, ?_, .error s state broken plain, rfl, rfl, rfl⟩
    unfold lexGet
    rw [state]

/-- A character that is given back is in front of the text again. -/
theorem Stopped.unget {lex : Lexer R} {got : Got} {s : Bytes} (stopped : Stopped lex.stream got s) :
    Ready (lexUnget lex got).stream s := by
  cases stopped with
  | byte a e t within =>
    obtain ⟨state, buffer, pos, data⟩ := unget_spec lex.stream a
    refine ⟨within.plain, .inr (.inl ⟨state.trans within.state, ?_, ?_, ?_⟩)⟩
    · rw [lexUnget, pos, within.pos]
    · rw [lexUnget, buffer, within.buffer]
      exact within.char
    · rw [lexUnget, buffer, data, within.buffer, within.data]
  | eof state => exact ⟨List.not_mem_nil, .inr (.inr (.inl ⟨state, rfl⟩))⟩
  | error _ state broken plain => exact ⟨plain, .inr (.inr (.inr ⟨state, broken⟩))⟩

/-- Behind a character of seven bits the stream is in front of what follows. -/
theorem Stopped.ascii {st : Stream} {c : UInt8} {s : Bytes} (stopped : Stopped st (.byte c) s)
    (small : c < 0x80) :
    ∃ t, s = c :: t ∧ Ready st t := by
  cases stopped with
  | byte a e t within =>
    have alone : e = [] := by
      have first := IsChar.first within.char rfl
      rw [checkFirst_spec, if_pos small, List.length_cons] at first
      exact List.eq_nil_of_length_eq_zero (by omega)
    subst alone
    exact ⟨t, rfl, within.ready⟩

/-- A character of seven bits in front of the text is what is read. -/
theorem Stopped.got {st : Stream} {c : UInt8} {got : Got} {t : Bytes}
    (stopped : Stopped st got (c :: t)) (small : c < 0x80) : got = .byte c := by
  generalize same : c :: t = s at stopped
  cases stopped with
  | byte a e t' within =>
    cases same
    rfl
  | eof state => cases same
  | error _ state broken plain =>
    subst same
    exact absurd rfl (broken.2 [c] t (.one c small))

end CgminerT4.Guarantees.JsonReads
