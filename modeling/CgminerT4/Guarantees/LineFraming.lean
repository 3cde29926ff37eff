import CgminerT4.Library.Lines
import CgminerT4.Library.StringBuffer
import CgminerT4.Source.LineReader

/-!
# Lines out of the byte stream of a connection

On a stream whose lines are all non-empty, successive calls of recv_line return
exactly the lines, however recv splits it, and then wait with the unfinished
rest in sockbuf. A newline at the front of sockbuf breaks this: alone it makes
the call fail, and before a line strtok skips it while the copy behind it counts
the length of the token only. Split into single bytes, every stream with an
empty line meets the first case.
-/
namespace CgminerT4.Guarantees.LineFraming
open Library.ByteString Library.Lines Source.LineReader

/-- What recv may make of a stream. -/
structure Chunked (stream : Bytes) (chunks : List Bytes) : Prop where
  joined : chunks.flatten = stream
  sizes : ∀ chunk ∈ chunks, 1 ≤ chunk.length ∧ chunk.length ≤ RECVSIZE

/-- The lines recv_line is to return. -/
def nonEmptyLines (stream : Bytes) : List Bytes := (lines newline stream).filter (· ≠ [])

/-- One call a line returns it; the next call waits in its receive loop with
the unfinished line in sockbuf. -/
def Framed (stream : Bytes) (chunks : List Bytes) : Prop :=
  ∃ sockbuf, recvLines ((nonEmptyLines stream).length + 1) emptySockbuf chunks =
      some (nonEmptyLines stream, .waiting sockbuf) ∧
    cString sockbuf = unfinished newline stream

/-- The string in sockbuf, with the byte behind its terminator that the copy in
recv_line reads as well. -/
structure Holds (sockbuf text : Bytes) : Prop where
  string : cString sockbuf = text
  room : text.length + 2 ≤ sockbuf.length

theorem holds_emptySockbuf : Holds emptySockbuf [] :=
  ⟨rfl, by rw [emptySockbuf, List.length_replicate]; decide⟩

theorem holds_layout (text pad : Bytes) (plain : 0 ∉ text) (room : pad ≠ []) :
    Holds (text ++ 0 :: pad) text := by
  refine ⟨cString_layout text pad plain, ?_⟩
  have positive := List.length_pos_of_ne_nil room
  simp only [List.length_append, List.length_cons]
  omega

theorem Holds.plain {sockbuf text : Bytes} (holds : Holds sockbuf text) : 0 ∉ text :=
  holds.string ▸ zero_not_mem_cString sockbuf

/-- The memory is the string, its terminator and at least one byte more. -/
theorem Holds.layout {sockbuf text : Bytes} (holds : Holds sockbuf text) :
    ∃ pad, sockbuf = text ++ 0 :: pad ∧ pad ≠ [] := by
  have room := holds.room
  obtain ⟨pad, split⟩ := cString_terminated sockbuf (by rw [holds.string]; omega)
  rw [holds.string] at split
  refine ⟨pad, split, ?_⟩
  rintro rfl
  rw [split, List.length_append, List.length_singleton] at room
  omega

/-- The zeroed array delivers a chunk as it is. -/
theorem received_eq (chunk : Bytes) (plain : 0 ∉ chunk) (fits : chunk.length ≤ RECVSIZE) :
    received chunk = chunk := by
  obtain ⟨spare, size⟩ : ∃ spare, RBUFSIZE - chunk.length = spare + 1 :=
    ⟨RBUFSIZE - chunk.length - 1, by simp only [RECVSIZE, RBUFSIZE] at *; omega⟩
  rw [received, overwrite_replicate, size, List.replicate_succ]
  exact cString_layout chunk _ plain

/-- recalloc_sock keeps the string and leaves room for `len` bytes and more. -/
theorem recallocSock_layout (sockbuf text : Bytes) (len : Nat) (holds : Holds sockbuf text) :
    ∃ pad, recallocSock sockbuf len = text ++ 0 :: pad ∧ len + 1 ≤ pad.length := by
  obtain ⟨pad, rfl, _⟩ := holds.layout
  simp only [recallocSock, holds.string]
  split
  · next large =>
    refine ⟨pad, rfl, ?_⟩
    simp only [List.length_append, List.length_cons] at large
    omega
  · have grows : text.length + len + 2 ≤ recallocSize (text.length + len + 1) := by
      have below := Nat.mod_lt (text.length + len + 1) (by decide : 0 < RBUFSIZE)
      simp only [recallocSize, RBUFSIZE] at *
      omega
    obtain ⟨spare, size⟩ : ∃ spare, recallocSize (text.length + len + 1) - text.length =
        spare + 1 :=
      ⟨recallocSize (text.length + len + 1) - text.length - 1, by omega⟩
    refine ⟨List.replicate spare 0, ?_, ?_⟩
    · rw [List.take_left, size, List.replicate_succ]
    · rw [List.length_replicate]
      omega

/-- One round of the receive loop appends the chunk. -/
theorem append_chunk (sockbuf text chunk : Bytes) (holds : Holds sockbuf text) (plain : 0 ∉ chunk)
    (fits : chunk.length ≤ RECVSIZE) :
    ∃ appended, strcat (recallocSock sockbuf (received chunk).length) (received chunk) =
      some appended ∧
      Holds appended (text ++ chunk) := by
  rw [received_eq chunk plain fits]
  obtain ⟨pad, layout, room⟩ := recallocSock_layout sockbuf text chunk.length holds
  have held : Library.StringBuffer.HoldsText (recallocSock sockbuf chunk.length) text :=
    ⟨holds.plain, pad, layout⟩
  have size : (recallocSock sockbuf chunk.length).length = text.length + (pad.length + 1) := by
    rw [layout, List.length_append, List.length_cons]
  obtain ⟨appended, copied, joined, same⟩ := held.concat ⟨chunk, plain⟩ (by dsimp only; omega)
  refine ⟨appended, copied, joined.string, ?_⟩
  rw [same, size, List.length_append]
  omega

theorem takeWhile_token (line more : Bytes) (clean : newline ∉ line) :
    (line ++ newline :: more).takeWhile (· ≠ newline) = line := by
  have whole : ∀ b ∈ line, (b ≠ newline : Bool) = true := by
    intro b member
    simpa using fun same : b = newline => clean (same ▸ member)
  rw [List.takeWhile_append_of_pos whole]
  simp

/-- A non-empty line at the front is the token, closed by a terminator. -/
theorem strtok_line (line more pad : Bytes) (content : line ≠ []) (clean : newline ∉ line)
    (plain : 0 ∉ line ++ newline :: more) :
    strtok (line ++ newline :: more ++ 0 :: pad) =
      some (line, line ++ 0 :: (more ++ 0 :: pad)) := by
  have front : (line ++ newline :: more).takeWhile (· = newline) = [] := by
    cases line with
    | nil => exact absurd rfl content
    | cons b line =>
      have different : b ≠ newline := fun same => clean (same ▸ List.mem_cons_self)
      simp [different]
  have shorter : line.length < (line ++ newline :: more).length := by simp
  have cut : (line ++ newline :: more ++ 0 :: pad).set line.length 0 =
      line ++ 0 :: (more ++ 0 :: pad) := by
    rw [List.append_assoc, List.set_append_right _ _ (Nat.le_refl _)]
    simp
  simp only [strtok, cString_layout _ pad plain, front, List.length_nil, List.drop_zero,
    takeWhile_token line more clean, Nat.zero_add, if_neg content, if_pos shorter, cut]

/-- What is behind the token moves to the front. -/
theorem keepRest_line (line more spare : Bytes) (next : UInt8) (plain : 0 ∉ more) :
    ∃ rest, keepRest (line ++ 0 :: (more ++ 0 :: next :: spare)) (line ++ newline :: more).length
      line.length = some rest ∧ Holds rest more := by
  unfold keepRest
  cases more with
  | nil =>
    rw [if_neg (by simp), blit, if_pos (by simp; omega)]
    refine ⟨_, rfl, ?_⟩
    have result : overwrite (line ++ 0 :: ([] ++ 0 :: next :: spare)) 0 [0] =
        [] ++ 0 :: (line ++ 0 :: ([] ++ 0 :: next :: spare)).drop 1 := by
      simp [overwrite]
    rw [result]
    apply holds_layout _ _ (by simp)
    rw [Ne, List.drop_eq_nil_iff]
    simp
    omega
  | cons b more =>
    rw [if_pos (by simp), if_pos (by simp; omega)]
    refine ⟨_, rfl, ?_⟩
    have amount : (line ++ newline :: b :: more).length - line.length + 1 =
        ((b :: more) ++ [0, next]).length := by
      simp only [List.length_append, List.length_cons, List.length_nil]
      omega
    have start : (line ++ 0 :: ((b :: more) ++ 0 :: next :: spare)).drop (line.length + 1) =
        (b :: more) ++ [0, next] ++ spare := by
      rw [List.drop_append]
      simp
    rw [amount, start, List.take_left, overwrite, List.take_zero, List.nil_append,
      List.append_assoc]
    exact holds_layout (b :: more) _ plain (by simp)

/-- A non-empty line at the front is returned and what is behind it kept. -/
theorem takeLine_spec (sockbuf line more : Bytes) (incoming : List Bytes)
    (holds : Holds sockbuf (line ++ newline :: more)) (content : line ≠ [])
    (clean : newline ∉ line) :
    ∃ rest, takeLine sockbuf incoming = some (.line line rest incoming) ∧ Holds rest more := by
  obtain ⟨pad, layout, room⟩ := holds.layout
  obtain ⟨next, spare, rfl⟩ := List.exists_cons_of_ne_nil room
  have plain : 0 ∉ more := by
    intro member
    exact holds.plain (by simp [member])
  have token := strtok_line line more (next :: spare) content clean holds.plain
  obtain ⟨rest, kept, full⟩ := keepRest_line line more spare next plain
  rw [← layout] at token
  refine ⟨rest, ?_, full⟩
  rw [takeLine, token, holds.string]
  dsimp only
  rw [kept]
  rfl

/-- Chunks recv can deliver of a NUL-free stream. -/
def Deliverable (incoming : List Bytes) : Prop :=
  ∀ chunk ∈ incoming, chunk.length ≤ RECVSIZE ∧ 0 ∉ chunk

theorem Chunked.deliverable {stream : Bytes} {chunks : List Bytes} (chunked : Chunked stream chunks)
    (nulFree : 0 ∉ stream) : Deliverable chunks := by
  intro chunk member
  refine ⟨(chunked.sizes chunk member).2, fun zero => nulFree ?_⟩
  rw [← chunked.joined]
  exact List.mem_flatten.mpr ⟨chunk, member, zero⟩

theorem Deliverable.tail {chunk : Bytes} {incoming : List Bytes}
    (deliverable : Deliverable (chunk :: incoming)) : Deliverable incoming :=
  fun other member => deliverable other (List.mem_cons_of_mem _ member)

/-- Without a newline in sight the loop collects everything and waits. -/
theorem receive_waits (sockbuf text : Bytes) (incoming : List Bytes) (holds : Holds sockbuf text)
    (deliverable : Deliverable incoming) (absent : newline ∉ text ++ incoming.flatten) :
    ∃ rest, receive sockbuf incoming = some (.waiting rest) ∧
      Holds rest (text ++ incoming.flatten) := by
  induction incoming generalizing sockbuf text with
  | nil => exact ⟨sockbuf, rfl, by simpa using holds⟩
  | cons chunk incoming ih =>
    obtain ⟨fits, plain⟩ := deliverable chunk List.mem_cons_self
    obtain ⟨appended, copied, joined⟩ := append_chunk sockbuf text chunk holds plain fits
    rw [List.flatten_cons, ← List.append_assoc] at absent ⊢
    have still : newline ∉ cString appended := by
      rw [joined.string]
      exact fun member => absent (List.mem_append_left _ member)
    simp only [receive, copied, Option.bind_some, if_neg still]
    exact ih appended (text ++ chunk) joined deliverable.tail absent

/-- With a newline on the way the loop ends at a buffer that has one. -/
theorem receive_fills (sockbuf text : Bytes) (incoming : List Bytes) (holds : Holds sockbuf text)
    (deliverable : Deliverable incoming) (absent : newline ∉ text)
    (present : newline ∈ text ++ incoming.flatten) :
    ∃ filled more left, receive sockbuf incoming = takeLine filled left ∧ Holds filled more ∧
      newline ∈ more ∧ more ++ left.flatten = text ++ incoming.flatten ∧ Deliverable left := by
  induction incoming generalizing sockbuf text with
  | nil => simp [absent] at present
  | cons chunk incoming ih =>
    obtain ⟨fits, plain⟩ := deliverable chunk List.mem_cons_self
    obtain ⟨appended, copied, joined⟩ := append_chunk sockbuf text chunk holds plain fits
    rw [List.flatten_cons, ← List.append_assoc] at present ⊢
    by_cases found : newline ∈ text ++ chunk
    · refine ⟨appended, text ++ chunk, incoming, ?_, joined, found, rfl, deliverable.tail⟩
      simp only [receive, copied, Option.bind_some, joined.string, if_pos found]
    · simp only [receive, copied, Option.bind_some, joined.string, if_neg found]
      exact ih appended (text ++ chunk) joined deliverable.tail found present

/-- A call whose first line to come is non-empty returns it; buffer and
connection then hold what follows it. -/
theorem recvLine_line (sockbuf text line more : Bytes) (incoming : List Bytes)
    (holds : Holds sockbuf text) (deliverable : Deliverable incoming)
    (content : line ≠ []) (clean : newline ∉ line)
    (coming : text ++ incoming.flatten = line ++ newline :: more) :
    ∃ rest later left, recvLine sockbuf incoming = some (.line line rest left) ∧ Holds rest later ∧
      Deliverable left ∧ later ++ left.flatten = more := by
  have reached : ∃ filled whole left, recvLine sockbuf incoming = takeLine filled left ∧
      Holds filled whole ∧ newline ∈ whole ∧ whole ++ left.flatten = line ++ newline :: more ∧
      Deliverable left := by
    unfold recvLine
    rw [holds.string]
    split
    · next present => exact ⟨sockbuf, text, incoming, rfl, holds, present, coming, deliverable⟩
    · next absent =>
      rw [← coming]
      exact receive_fills sockbuf text incoming holds deliverable absent (by simp [coming])
  obtain ⟨filled, whole, left, call, full, present, joined, rest⟩ := reached
  obtain ⟨first, later, cut, absent⟩ := List.eq_append_cons_of_mem present
  rw [cut, List.append_assoc, List.cons_append] at joined
  obtain ⟨rfl, behind⟩ := first_line_unique first line _ more absent clean joined
  rw [cut] at full
  obtain ⟨out, taken, kept⟩ := takeLine_spec filled first later left full content clean
  exact ⟨out, later, left, call.trans taken, kept, rest, behind⟩

theorem recvLine_waits (sockbuf text : Bytes) (incoming : List Bytes) (holds : Holds sockbuf text)
    (deliverable : Deliverable incoming) (absent : newline ∉ text ++ incoming.flatten) :
    ∃ rest, recvLine sockbuf incoming = some (.waiting rest) ∧
      Holds rest (text ++ incoming.flatten) := by
  have fresh : newline ∉ text := fun member => absent (List.mem_append_left _ member)
  unfold recvLine
  rw [holds.string, if_neg fresh]
  exact receive_waits sockbuf text incoming holds deliverable absent

/-- Calls on non-empty lines followed by an unfinished one. -/
theorem recvLines_clean (text : List Bytes) (rest sockbuf held : Bytes) (incoming : List Bytes)
    (clean : ∀ line ∈ text, newline ∉ line ∧ line ≠ []) (open_end : newline ∉ rest)
    (holds : Holds sockbuf held) (deliverable : Deliverable incoming)
    (coming : held ++ incoming.flatten = unlines newline text ++ rest) :
    ∃ out, recvLines (text.length + 1) sockbuf incoming = some (text, .waiting out) ∧
      Holds out rest := by
  induction text generalizing sockbuf held incoming with
  | nil =>
    rw [unlines_nil, List.nil_append] at coming
    rw [← coming] at open_end ⊢
    obtain ⟨out, call, full⟩ := recvLine_waits sockbuf held incoming holds deliverable open_end
    exact ⟨out, by simp [recvLines, call], full⟩
  | cons line text ih =>
    obtain ⟨absent, content⟩ := clean line List.mem_cons_self
    rw [unlines_cons, List.append_assoc, List.cons_append] at coming
    obtain ⟨next, later, left, call, full, remaining, behind⟩ :=
      recvLine_line sockbuf held line _ incoming holds deliverable content absent coming
    obtain ⟨out, calls, final⟩ := ih next later left
      (fun other member => clean other (List.mem_cons_of_mem _ member)) full remaining behind
    refine ⟨out, ?_, final⟩
    rw [List.length_cons, recvLines, call]
    simp [calls]

/-- A stream in single bytes. -/
def singly (stream : Bytes) : List Bytes := stream.map ([·])

theorem chunked_singly (stream : Bytes) : Chunked stream (singly stream) := by
  constructor
  · induction stream with
    | nil => rfl
    | cons b stream ih => rw [singly, List.map_cons, List.flatten_cons, ← singly, ih]; rfl
  · intro chunk member
    obtain ⟨b, _, rfl⟩ := List.mem_map.mp member
    exact ⟨Nat.le_refl 1, by simp [RECVSIZE, RBUFSIZE]⟩

/-- Fed byte by byte the loop ends with the first newline as its last byte. -/
theorem receive_singly (line more text sockbuf : Bytes) (holds : Holds sockbuf text)
    (absent : newline ∉ text ++ line) (nulFree : 0 ∉ line) :
    ∃ filled, receive sockbuf (singly (line ++ newline :: more)) = takeLine filled (singly more) ∧
      Holds filled (text ++ line ++ [newline]) := by
  induction line generalizing text sockbuf with
  | nil =>
    obtain ⟨filled, copied, joined⟩ :=
      append_chunk sockbuf text [newline] holds (by decide) (by decide)
    rw [List.append_nil]
    refine ⟨filled, ?_, joined⟩
    simp only [singly, List.nil_append, List.map_cons, receive, copied, Option.bind_some,
      joined.string]
    rw [if_pos (by simp)]
  | cons b line ih =>
    rw [List.mem_cons, not_or] at nulFree
    obtain ⟨appended, copied, joined⟩ := append_chunk sockbuf text [b] holds
      (by simpa using nulFree.1) (by simp [RECVSIZE, RBUFSIZE])
    have regroup : text ++ b :: line = text ++ [b] ++ line := by simp
    rw [regroup] at absent ⊢
    have still : newline ∉ text ++ [b] := fun member => absent (List.mem_append_left _ member)
    obtain ⟨filled, call, full⟩ := ih (text ++ [b]) appended joined absent nulFree.2
    refine ⟨filled, ?_, full⟩
    simp only [singly, List.cons_append, List.map_cons, receive, copied, Option.bind_some,
      joined.string, if_neg still]
    exact call

/-- A newline alone in the buffer has no token. -/
theorem takeLine_newline (sockbuf : Bytes) (incoming : List Bytes)
    (holds : Holds sockbuf [newline]) :
    takeLine sockbuf incoming = some .failed := by
  have none : strtok sockbuf = none := by simp [strtok, holds.string]
  rw [takeLine, none]

/-- Fed byte by byte, calls return the lines up to the first empty one and fail there. -/
theorem recvLines_fails (text : List Bytes) (more sockbuf : Bytes) (extra : Nat)
    (clean : ∀ line ∈ text, newline ∉ line ∧ line ≠ [] ∧ 0 ∉ line) (holds : Holds sockbuf []) :
    recvLines (text.length + 1 + extra) sockbuf (singly (unlines newline text ++ newline :: more)) =
      some (text, .failed) := by
  have fresh : newline ∉ cString sockbuf := by simp [holds.string]
  induction text generalizing sockbuf with
  | nil =>
    obtain ⟨filled, call, full⟩ := receive_singly [] more [] sockbuf holds (by simp) (by simp)
    have failed : recvLine sockbuf (singly (newline :: more)) = some .failed := by
      unfold recvLine
      rw [if_neg fresh]
      exact call.trans (takeLine_newline filled _ full)
    rw [unlines_nil, List.nil_append, Nat.add_right_comm, recvLines, failed]
    rfl
  | cons line text ih =>
    obtain ⟨absent, content, nulFree⟩ := clean line List.mem_cons_self
    have behind := fun other member => clean other (List.mem_cons_of_mem line member)
    rw [unlines_cons, List.append_assoc, List.cons_append]
    obtain ⟨filled, call, full⟩ := receive_singly line (unlines newline text ++ newline :: more) []
      sockbuf holds absent nulFree
    obtain ⟨rest, taken, kept⟩ := takeLine_spec filled line []
      (singly (unlines newline text ++ newline :: more)) full content absent
    have returned := ih rest behind kept (by simp [kept.string])
    rw [List.length_cons, Nat.add_right_comm, recvLines, recvLine, if_neg fresh, call, taken]
    simp [returned]

/-- The first empty line of a stream. -/
theorem first_empty_line (stream : Bytes) (empty : [] ∈ lines newline stream) :
    ∃ text more, stream = unlines newline text ++ newline :: more ∧
      (∀ line ∈ text, newline ∉ line ∧ line ≠ []) ∧
        text.length ≤ (nonEmptyLines stream).length := by
  obtain ⟨text, later, split, nonempty⟩ := List.eq_append_cons_of_mem empty
  obtain ⟨joined, _, clean⟩ := unlines_lines newline stream
  rw [split, unlines_append, unlines_cons, List.append_assoc] at joined
  refine ⟨text, unlines newline later ++ unfinished newline stream, joined.symm, ?_, ?_⟩
  · intro line member
    refine ⟨clean line (by simp [split, member]), ?_⟩
    rintro rfl
    exact nonempty member
  · have kept : text.filter (· ≠ []) = text := by
      rw [List.filter_eq_self]
      intro line member
      simpa using fun same : line = [] => nonempty (same ▸ member)
    rw [nonEmptyLines, split, List.filter_append, kept, List.length_append]
    omega

/-- Every way of receiving a stream yields exactly its lines if and only if no
line of it is empty. -/
theorem framed_iff_no_empty_line (stream : Bytes) (nulFree : 0 ∉ stream) :
    (∀ chunks, Chunked stream chunks → Framed stream chunks) ↔
      ∀ line ∈ lines newline stream, line ≠ [] := by
  constructor
  · rintro framed line member rfl
    obtain ⟨text, more, split, clean, count⟩ := first_empty_line stream member
    obtain ⟨sockbuf, calls, _⟩ := framed (singly stream) (chunked_singly stream)
    have plain : ∀ line ∈ text, newline ∉ line ∧ line ≠ [] ∧ 0 ∉ line := by
      intro line belongs
      refine ⟨(clean line belongs).1, (clean line belongs).2, fun zero => nulFree ?_⟩
      rw [split, unlines]
      exact List.mem_append_left _
        (List.mem_flatMap.mpr ⟨line, belongs, List.mem_append_left _ zero⟩)
    have fails :=
      recvLines_fails text more emptySockbuf ((nonEmptyLines stream).length - text.length)
      plain holds_emptySockbuf
    rw [← split, Nat.add_right_comm, Nat.add_sub_cancel' count, calls] at fails
    simp at fails
  · intro content chunks chunked
    have all : nonEmptyLines stream = lines newline stream := by
      rw [nonEmptyLines, List.filter_eq_self]
      simpa using content
    obtain ⟨joined, open_end, clean⟩ := unlines_lines newline stream
    obtain ⟨out, calls, full⟩ := recvLines_clean (lines newline stream) (unfinished newline stream)
      emptySockbuf [] chunks (fun line member => ⟨clean line member, content line member⟩) open_end
      holds_emptySockbuf (chunked.deliverable nulFree)
        (by rw [joined, List.nil_append, chunked.joined])
    rw [← all] at calls
    exact ⟨out, calls, full.string⟩

/-- The line "a" followed by an unfinished "b". -/
theorem framed_iff_no_empty_line_a_b :
    (∀ chunks, Chunked [97, 10, 98] chunks → Framed [97, 10, 98] chunks) ↔
      ∀ line ∈ lines newline [97, 10, 98], line ≠ [] :=
  framed_iff_no_empty_line [97, 10, 98] (by decide)

/-- "\nabc\ndef\n" in one piece: the second line is lost, the next call waits. -/
theorem leading_newline_loses_line :
    0 ∉ ([10, 97, 98, 99, 10, 100, 101, 102, 10] : Bytes) ∧
    Chunked [10, 97, 98, 99, 10, 100, 101, 102, 10] [[10, 97, 98, 99, 10, 100, 101, 102, 10]] ∧
    nonEmptyLines [10, 97, 98, 99, 10, 100, 101, 102, 10] = [[97, 98, 99], [100, 101, 102]] ∧
    (recvLines 3 emptySockbuf [[10, 97, 98, 99, 10, 100, 101, 102, 10]]).map Prod.fst =
      some [[97, 98, 99]] ∧
    ¬ Framed [10, 97, 98, 99, 10, 100, 101, 102, 10] [[10, 97, 98, 99, 10, 100, 101, 102, 10]] := by
  have expected : nonEmptyLines [10, 97, 98, 99, 10, 100, 101, 102, 10] =
      [[97, 98, 99], [100, 101, 102]] := by decide
  have actual : (recvLines 3 emptySockbuf [[10, 97, 98, 99, 10, 100, 101, 102, 10]]).map Prod.fst =
      some [[97, 98, 99]] := by decide +kernel
  refine ⟨by decide, ⟨rfl, by simp [RECVSIZE, RBUFSIZE]⟩, expected, actual, ?_⟩
  rintro ⟨sockbuf, calls, _⟩
  rw [expected] at calls
  have returned := congrArg (Option.map Prod.fst) calls
  rw [List.length_cons, List.length_singleton, actual] at returned
  simp at returned

end CgminerT4.Guarantees.LineFraming
