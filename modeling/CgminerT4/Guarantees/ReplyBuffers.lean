import CgminerT4.Source.OutputBuffers
import Mathlib.Data.List.Infix

/-!
# The output buffers of the API hold what was added to them

add_item_buf grows its buffer by the size of the new string rounded up, io_add by a
fixed amount or to a size that it computes with a float. Either way every copy ends
inside the block, which then holds the concatenation of the strings added since the
last reset. io_add keeps twelve bytes behind the text, two more than the terminator,
JSON_CLOSE and JSON_END need that send_result appends without a check.
-/
namespace CgminerT4.Guarantees.ReplyBuffers
open Library.ByteString Library.Runs Library.SignificantBits Library.StringBuffer
open Library.JsonText (closeBracket)
open Source.ApiReply (jsonEnd)
open Source.LineReader (strcat)
open Source.OutputBuffers

/-! ## String buffers -/

/-- The strings since the last reset. -/
def itemStrings (strings : List Bytes) : ItemCall → List Bytes
  | .reset => []
  | .add str => strings ++ [str.bytes]

structure ItemHolds (item : SBITEM) (strings : List Bytes) : Prop where
  size : item.buf.length = item.tot
  length : item.siz = strings.flatten.length
  plain : 0 ∉ strings.flatten
  front : item.buf.take item.siz = strings.flatten
  text : strings ≠ [] → HoldsText item.buf strings.flatten
  small : item.tot < 2 ^ 26

theorem itemHolds_newItem : ItemHolds newItem [] := by
  refine ⟨rfl, rfl, by simp, rfl, fun none => absurd rfl none, by decide⟩

theorem itemHolds_reset (item : SBITEM) (strings : List Bytes) (holds : ItemHolds item strings) :
    ItemHolds (resetItem item) [] :=
  ⟨holds.size, rfl, by simp, rfl, fun none => absurd rfl none, holds.small⟩

theorem addItemBuf_holds (fresh : Nat → UInt8) (item : SBITEM) (strings : List Bytes)
    (holds : ItemHolds item strings) (str : CText)
    (total : (strings ++ [str.bytes]).flatten.length < 2 ^ 24) :
    ∃ next, addItemBuf fresh item str = some next ∧ ItemHolds next (strings ++ [str.bytes]) := by
  obtain ⟨size, length, plain, front, _, small⟩ := holds
  have whole : (strings ++ [str.bytes]).flatten = strings.flatten ++ str.bytes := by
    rw [List.flatten_append, List.flatten_singleton]
  rw [whole, List.length_append] at total
  have held : item.siz ≤ item.tot := by
    have front := congrArg List.length front
    rw [List.length_take, ← length] at front
    omega
  -- the block after the growth, if there was one
  obtain ⟨mem, tot, grown, memSize, room, memFront, memSmall⟩ : ∃ mem tot,
      addItemBuf fresh item str =
        (blit mem item.siz (str.bytes ++ [0])).map
          (fun buf => ⟨buf, item.siz + str.bytes.length, tot⟩) ∧
      mem.length = tot ∧ item.siz + str.bytes.length < tot ∧ mem.take item.siz = strings.flatten ∧
        tot < 2 ^ 26 := by
    unfold addItemBuf
    dsimp only
    split
    · rename_i grows
      have rest : (str.bytes.length + 1) % sbextend < sbextend := Nat.mod_lt _ (by decide)
      have unit : sbextend = 4096 := rfl
      refine ⟨_, _, rfl, length_realloc _ _ _, ?_, ?_, ?_⟩
      · dsimp only
        omega
      · obtain ⟨spare, kept⟩ :=
          realloc_of_le fresh item.buf _ (size.trans_le (Nat.le_add_right item.tot _))
        rw [kept, List.take_append_of_le_length (by omega), front]
      · dsimp only
        omega
    · rename_i fits
      exact ⟨item.buf, item.tot, rfl, size, by omega, front, small⟩
  rw [length] at grown room memFront
  obtain ⟨next, copied, text, nextSize⟩ := blit_string mem _ str plain memFront (by omega)
  refine ⟨⟨next, strings.flatten.length + str.bytes.length, tot⟩, ?_,
    ⟨nextSize.trans memSize, ?_, ?_, ?_, ?_, memSmall⟩⟩
  · rw [grown, copied]
    rfl
  · rw [whole, List.length_append]
  · rw [whole]
    exact text.plain
  · rw [whole]
    dsimp only
    rw [← List.length_append]
    exact text.front
  · intro _
    rw [whole]
    exact text

/-! ## io_data -/

/-- The strings since the last reset, and whether an array is open. -/
structure Added where
  strings : List Bytes
  close : Bool

/-- The strings that are put in front of JSON_END. -/
def closing (close : Bool) : List Bytes := if close then [[closeBracket]] else []

def Added.call (a : Added) : IoCall → Added
  | .reinit => ⟨[], false⟩
  | .put buf => ⟨[buf.bytes], false⟩
  | .add buf => ⟨a.strings ++ [buf.bytes], a.close⟩
  | .close => ⟨a.strings, true⟩
  | .tailJoin isjson =>
    ⟨a.strings ++ closing a.close ++ (if isjson then [jsonEnd, [closeBracket]] else []), false⟩
  | .send isjson => ⟨a.strings ++ closing a.close ++ (if isjson then [jsonEnd] else []), a.close⟩

def Added.text (a : Added) : Bytes := a.strings.flatten

/-- The block of a reply. Until it is sent, `cur` stands behind the text and twelve
bytes are free. -/
structure IoHolds (io : IoData) (a : Added) (sent : Bool) : Prop where
  size : io.ptr.length = io.siz
  text : HoldsText io.ptr a.text
  close : io.close = a.close
  initial : 12 ≤ io.siz
  small : io.siz < 2 ^ 25
  place : sent = false → io.cur = a.text.length
  reserve : sent = false → io.cur + 12 ≤ io.siz

theorem length_jsonEnd : jsonEnd.length = 8 := by decide +kernel

/-- The size io_add asks for has room for what is added. -/
theorem grownSize_spec (siz tot : Nat) (grows : siz < tot) (bound : tot < 2 ^ 24 + 12) :
    tot ≤ grownSize siz tot ∧ siz ≤ grownSize siz tot ∧ grownSize siz tot < 2 ^ 25 := by
  have unit := ulp_le 24 tot 1 (by decide) (by omega)
  have lower := le_roundBits 24 tot
  have upper := roundBits_le 24 tot
  have size : sockbufallocsiz = 65536 := rfl
  unfold grownSize
  dsimp only
  rw [size]
  split
  · omega
  · omega

theorem ioReinit_holds (io : IoData) (a : Added) (sent : Bool) (holds : IoHolds io a sent) :
    ∃ next, ioReinit io = some next ∧ IoHolds next ⟨[], false⟩ false := by
  obtain ⟨size, _, _, initial, small, _, _⟩ := holds
  obtain ⟨mem, written, text, memSize⟩ := blit_string io.ptr [] ⟨[], by simp⟩ (by simp) rfl
    (by rw [size]; exact Nat.lt_of_lt_of_le (by decide) initial)
  refine ⟨⟨io.siz, mem, 0, false⟩, ?_,
    ⟨memSize.trans size, text, rfl, initial, small, fun _ => rfl, fun _ => ?_⟩⟩
  · have copied : blit io.ptr 0 [0] = some mem := written
    rw [ioReinit, copied]
    rfl
  · dsimp only
    omega

theorem sockIoNew_holds (fresh : Nat → UInt8) :
    ∃ io, sockIoNew fresh = some io ∧ IoHolds io ⟨[], false⟩ false := by
  have size := length_realloc fresh [] sockbufallocsiz
  have wide : 12 ≤ sockbufallocsiz := by decide
  have small : sockbufallocsiz < 2 ^ 25 := by decide
  obtain ⟨mem, written, text, memSize⟩ :=
    blit_string (realloc fresh [] sockbufallocsiz) [] ⟨[], by simp⟩ (by simp) rfl
    (by rw [size]; decide)
  refine ⟨⟨sockbufallocsiz, mem, 0, false⟩, ?_,
    ⟨memSize.trans size, text, rfl, wide, small, fun _ => rfl, fun _ => wide⟩⟩
  have copied : blit (realloc fresh [] sockbufallocsiz) 0 [0] = some mem := written
  rw [sockIoNew, ioNew, ioReinit, copied]
  rfl

theorem ioAdd_holds (fresh : Nat → UInt8) (io : IoData) (a : Added) (holds : IoHolds io a false)
    (buf : CText) (total : a.text.length + buf.bytes.length < 2 ^ 24) :
    ∃ next, ioAdd fresh io buf = some next ∧
      IoHolds next ⟨a.strings ++ [buf.bytes], a.close⟩ false := by
  obtain ⟨size, text, close, initial, small, place, reserve⟩ := holds
  have place := place rfl
  have reserve := reserve rfl
  have whole : (⟨a.strings ++ [buf.bytes], a.close⟩ : Added).text = a.text ++ buf.bytes := by
    unfold Added.text
    rw [List.flatten_append, List.flatten_singleton]
  have ends : jsonEndText.bytes.length = 8 := length_jsonEnd
  have closes : jsonCloseText.bytes.length = 1 := rfl
  obtain ⟨mem, siz, grown, memSize, room, memText, memSmall⟩ : ∃ mem siz,
      ioAdd fresh io buf = (blit mem io.cur (buf.bytes ++ [0])).map
        (fun ptr => ⟨siz, ptr, io.cur + buf.bytes.length, io.close⟩) ∧
      mem.length = siz ∧ io.cur + buf.bytes.length + 12 ≤ siz ∧ HoldsText mem a.text ∧
        siz < 2 ^ 25 := by
    unfold ioAdd
    dsimp only
    rw [ends, closes]
    split
    · rename_i grows
      obtain ⟨enough, keeps, below⟩ := grownSize_spec io.siz _ grows (by omega)
      refine ⟨_, _, rfl, length_realloc _ _ _, ?_, ?_, below⟩
      · dsimp only
        omega
      · exact text.realloc fresh _ (by rw [size]; exact keeps)
    · rename_i fits
      exact ⟨io.ptr, io.siz, rfl, size, by omega, text, small⟩
  rw [place] at grown room
  obtain ⟨next, copied, nextText, nextSize⟩ :=
    blit_string mem _ buf memText.plain memText.front (by omega)
  refine ⟨⟨siz, next, a.text.length + buf.bytes.length, io.close⟩, ?_, nextSize.trans memSize, ?_,
    close, ?_, memSmall,
    fun _ => ?_, fun _ => room⟩
  · rw [grown, copied]
    rfl
  · rw [whole]
    exact nextText
  · dsimp only
    omega
  · rw [whole, List.length_append]

/-- The flag is no part of the text. -/
theorem IoHolds.withClose {io : IoData} {a : Added} {sent : Bool} (holds : IoHolds io a sent)
    (close : Bool) :
    IoHolds { io with close } ⟨a.strings, close⟩ sent :=
  ⟨holds.size, holds.text, rfl, holds.initial, holds.small, holds.place, holds.reserve⟩

theorem Added.text_append (strings more : List Bytes) (close : Bool) :
    (⟨strings ++ more, close⟩ : Added).text = strings.flatten ++ more.flatten := List.flatten_append

/-- The end of the array of a joined command, when one is open. -/
theorem closeArray_holds (fresh : Nat → UInt8) (io : IoData) (a : Added)
    (holds : IoHolds io a false)
    (total : a.text.length + (closing a.close).flatten.length < 2 ^ 24) :
    ∃ next,
      (if io.close then (ioAdd fresh io jsonCloseText).map fun io =>
        { io with close := false } else some io) =
        some next ∧
      IoHolds next ⟨a.strings ++ closing a.close, false⟩ false := by
  obtain ⟨strings, close⟩ := a
  rw [holds.close]
  cases close with
  | true =>
    obtain ⟨next, added, nextHolds⟩ := ioAdd_holds fresh io _ holds jsonCloseText total
    exact ⟨{ next with close := false }, by rw [if_pos rfl, added]; rfl, nextHolds.withClose false⟩
  | false =>
    rw [if_neg Bool.false_ne_true]
    refine ⟨io, rfl, ?_⟩
    have same : strings ++ closing false = strings := List.append_nil strings
    rw [same]
    exact holds

theorem tailJoin_holds (fresh : Nat → UInt8) (io : IoData) (a : Added) (holds : IoHolds io a false)
    (isjson : Bool) (total : (a.call (.tailJoin isjson)).text.length < 2 ^ 24) :
    ∃ next, tailJoin fresh io isjson = some next ∧
      IoHolds next (a.call (.tailJoin isjson)) false := by
  unfold Added.call at total ⊢
  dsimp only at total ⊢
  rw [Added.text_append, List.length_append, List.flatten_append, List.length_append] at total
  obtain ⟨closed, first, closedHolds⟩ :=
    closeArray_holds fresh io a holds (by unfold Added.text; omega)
  have front : (⟨a.strings ++ closing a.close, false⟩ : Added).text =
      a.strings.flatten ++ (closing a.close).flatten :=
    Added.text_append _ _ _
  unfold tailJoin
  dsimp only
  rw [first, Option.bind_some]
  cases isjson with
  | false =>
    rw [if_neg Bool.false_ne_true, if_neg Bool.false_ne_true, List.append_nil]
    exact ⟨closed, rfl, closedHolds⟩
  | true =>
    rw [if_pos rfl] at total ⊢
    have ends : jsonEndText.bytes.length = jsonEnd.length := rfl
    have closes : jsonCloseText.bytes.length = 1 := rfl
    simp only [List.flatten_cons, List.flatten_nil, List.length_append, List.length_singleton,
      List.length_nil] at total
    obtain ⟨ended, second, endedHolds⟩ := ioAdd_holds fresh closed _ closedHolds jsonEndText (by
      rw [front, List.length_append]
      omega)
    obtain ⟨next, third, nextHolds⟩ := ioAdd_holds fresh ended _ endedHolds jsonCloseText (by
      rw [Added.text_append, List.length_append, List.flatten_append, List.length_append,
        List.flatten_singleton]
      omega)
    refine ⟨next, ?_, ?_⟩
    · rw [second, Option.bind_some, third]
    · rw [if_pos rfl]
      have same : [jsonEnd, [closeBracket]] = [jsonEnd] ++ [[closeBracket]] := rfl
      rw [same, ← List.append_assoc]
      exact nextHolds

/-- A text behind the reply when it is wanted. -/
theorem strcat_holds (wanted : Bool) (mem text : Bytes) (s : CText) (holds : HoldsText mem text)
    (room : text.length + s.bytes.length < mem.length) :
    ∃ next, (if wanted then strcat mem s.bytes else some mem) = some next ∧
      HoldsText next (text ++ (if wanted then [s.bytes] else []).flatten) ∧
        next.length = mem.length := by
  cases wanted with
  | true =>
    rw [if_pos rfl, if_pos rfl, List.flatten_singleton]
    exact holds.concat s room
  | false =>
    rw [if_neg Bool.false_ne_true, if_neg Bool.false_ne_true, List.flatten_nil, List.append_nil]
    exact ⟨mem, rfl, holds, rfl⟩

/-- The copy of a string onto itself. -/
theorem strcpySelf_holds (mem text : Bytes) (holds : HoldsText mem text) :
    ∃ next, strcpySelf mem = some next ∧ HoldsText next text ∧ next.length = mem.length := by
  obtain ⟨next, copied, nextHolds, size⟩ := blit_string mem [] ⟨text, holds.plain⟩ (by simp) rfl
    (by rw [List.length_nil, Nat.zero_add]; exact holds.room)
  rw [strcpySelf, holds.string]
  exact ⟨next, copied, nextHolds, size⟩

/-- The reserve takes what send_result appends. -/
theorem sendResult_holds (io : IoData) (a : Added) (holds : IoHolds io a false) (isjson : Bool) :
    ∃ next, sendResult io isjson = some next ∧ IoHolds next (a.call (.send isjson)) true := by
  obtain ⟨size, text, close, initial, small, place, reserve⟩ := holds
  have place := place rfl
  have reserve := reserve rfl
  have ends : jsonEndText.bytes.length = 8 := length_jsonEnd
  have closes : jsonCloseText.bytes.length = 1 := rfl
  obtain ⟨copy, copied, copyText, copySize⟩ := strcpySelf_holds io.ptr a.text text
  obtain ⟨closed, first, closedText, closedSize⟩ :=
    strcat_holds io.close copy a.text jsonCloseText copyText (by omega)
  have short : (a.text ++ (closing io.close).flatten).length ≤ a.text.length + 1 := by
    rw [List.length_append]
    cases io.close <;> simp [closing]
  obtain ⟨next, second, nextText, nextSize⟩ :=
    strcat_holds isjson closed _ jsonEndText closedText (by
    refine Nat.lt_of_le_of_lt (Nat.add_le_add_right short _) ?_
    omega)
  refine ⟨{ io with ptr := next }, ?_, ?_, ?_, close, initial, small, ?_, ?_⟩
  · rw [sendResult, copied, Option.bind_some, first, Option.bind_some, second]
    rfl
  · dsimp only
    omega
  · unfold Added.call
    dsimp only
    rw [Added.text_append, List.flatten_append, ← close]
    exact nextText
  · exact fun unsent => absurd unsent (by decide)
  · exact fun unsent => absurd unsent (by decide)

/-! ## Runs -/

/-- What holds of all beginnings of a list holds of those that share its head. -/
theorem inits_tail {α : Type} {P : List α → Prop} (a : α) (l : List α)
    (all : ∀ done ∈ (a :: l).inits, P done) :
    ∀ done ∈ l.inits, P (a :: done) := by
  intro done before
  refine all (a :: done) ?_
  rw [List.mem_inits] at before ⊢
  exact List.cons_prefix_cons.mpr ⟨rfl, before⟩

theorem nil_mem_inits {α : Type} (l : List α) : [] ∈ l.inits :=
  (List.mem_inits _ _).mpr List.nil_prefix

/-- A result has been sent since the last reset. -/
def sentBy : IoCall → Bool
  | .send _ => true
  | _ => false

/-- Every call is defined and adds its strings. -/
theorem ioStep_holds (fresh : Nat → UInt8) (io : IoData) (a : Added) (sent : Bool)
    (holds : IoHolds io a sent) (call : IoCall) (calls : List IoCall)
    (once : SendsOnce sent (call :: calls)) (total : (a.call call).text.length < 2 ^ 24) :
    ∃ next, ioStep fresh io call = some next ∧ IoHolds next (a.call call) (sentBy call) ∧
      SendsOnce (sentBy call) calls := by
  cases call with
  | reinit =>
    obtain ⟨next, step, nextHolds⟩ := ioReinit_holds io a sent holds
    exact ⟨next, step, nextHolds, once⟩
  | put buf =>
    obtain ⟨freshSent, step, freshHolds⟩ := ioReinit_holds io a sent holds
    have short : (⟨[], false⟩ : Added).text.length + buf.bytes.length < 2 ^ 24 := by
      have text : (a.call (.put buf)).text = buf.bytes := List.flatten_singleton
      rw [text] at total
      exact (Nat.zero_add _).trans_lt total
    obtain ⟨next, added, nextHolds⟩ := ioAdd_holds fresh freshSent _ freshHolds buf short
    refine ⟨next, ?_, nextHolds, once⟩
    rw [ioStep, ioPut, step, Option.bind_some, added]
  | add buf =>
    obtain ⟨rfl, once⟩ := once
    have text : (a.call (.add buf)).text = a.text ++ buf.bytes := by
      rw [Added.call, Added.text_append, List.flatten_singleton]
      rfl
    rw [text, List.length_append] at total
    obtain ⟨next, added, nextHolds⟩ := ioAdd_holds fresh io a holds buf total
    exact ⟨next, added, nextHolds, once⟩
  | close =>
    obtain ⟨rfl, once⟩ := once
    exact ⟨ioClose io, rfl, holds.withClose true, once⟩
  | tailJoin isjson =>
    obtain ⟨rfl, once⟩ := once
    obtain ⟨next, joined, nextHolds⟩ := tailJoin_holds fresh io a holds isjson total
    exact ⟨next, joined, nextHolds, once⟩
  | send isjson =>
    obtain ⟨rfl, once⟩ := once
    obtain ⟨next, result, nextHolds⟩ := sendResult_holds io a holds isjson
    exact ⟨next, result, nextHolds, once⟩

/-- The totals of a run: the text after each of its calls is below the limit. -/
def TextsBelow (limit : Nat) (a : Added) (calls : List IoCall) : Prop :=
  ∀ done ∈ calls.inits, (done.foldl Added.call a).text.length < limit

theorem ioRun_holds (fresh : Nat → UInt8) (calls : List IoCall) (io : IoData) (a : Added)
    (sent : Bool) (holds : IoHolds io a sent) (once : SendsOnce sent calls)
    (totals : TextsBelow (2 ^ 24) a calls) :
    ∃ out ended, run (ioStep fresh) io calls = some out ∧
      IoHolds out (calls.foldl Added.call a) ended := by
  induction calls generalizing io a sent with
  | nil => exact ⟨io, sent, rfl, holds⟩
  | cons call calls ih =>
    have later : TextsBelow (2 ^ 24) (a.call call) calls := inits_tail call calls totals
    obtain ⟨next, step, nextHolds, onceMore⟩ := ioStep_holds fresh io a sent holds call calls once
      (later [] (nil_mem_inits calls))
    obtain ⟨out, ended, ran, outHolds⟩ :=
      ih next (a.call call) (sentBy call) nextHolds onceMore later
    exact ⟨out, ended, by rw [run, step, Option.bind_some, ran], outHolds⟩

instance (limit : Nat) (a : Added) (calls : List IoCall) :
    Decidable (TextsBelow limit a calls) := by
  unfold TextsBelow
  infer_instance

def ItemTextsBelow (limit : Nat) (strings : List Bytes) (calls : List ItemCall) : Prop :=
  ∀ done ∈ calls.inits, (done.foldl itemStrings strings).flatten.length < limit

instance (limit : Nat) (strings : List Bytes) (calls : List ItemCall) :
    Decidable (ItemTextsBelow limit strings calls) := by
  unfold ItemTextsBelow
  infer_instance

theorem itemStep_holds (fresh : Nat → UInt8) (item : SBITEM) (strings : List Bytes)
    (holds : ItemHolds item strings) (call : ItemCall)
    (total : (itemStrings strings call).flatten.length < 2 ^ 24) :
    ∃ next, itemStep fresh item call = some next ∧ ItemHolds next (itemStrings strings call) := by
  cases call with
  | reset => exact ⟨resetItem item, rfl, itemHolds_reset item strings holds⟩
  | add str => exact addItemBuf_holds fresh item strings holds str total

theorem itemRun_holds (fresh : Nat → UInt8) (calls : List ItemCall) (item : SBITEM)
    (strings : List Bytes) (holds : ItemHolds item strings)
    (totals : ItemTextsBelow (2 ^ 24) strings calls) :
    ∃ out, run (itemStep fresh) item calls = some out ∧
      ItemHolds out (calls.foldl itemStrings strings) := by
  induction calls generalizing item strings with
  | nil => exact ⟨item, rfl, holds⟩
  | cons call calls ih =>
    have later : ItemTextsBelow (2 ^ 24) (itemStrings strings call) calls :=
      inits_tail call calls totals
    obtain ⟨next, step, nextHolds⟩ := itemStep_holds fresh item strings holds call
      (later [] (nil_mem_inits calls))
    obtain ⟨out, ran, outHolds⟩ := ih next _ nextHolds later
    exact ⟨out, by rw [run, step, Option.bind_some, ran], outHolds⟩

/-- A defined run has written inside its blocks alone. Every sequence of calls on a new
item or a new io_data is defined, and the blocks hold what was added since the last
reset; no size comes near the range of size_t. -/
theorem output_buffers_hold (fresh : Nat → UInt8) (itemCalls : List ItemCall)
    (itemTotals : ItemTextsBelow (2 ^ 24) [] itemCalls) (ioCalls : List IoCall)
    (once : SendsOnce false ioCalls) (ioTotals : TextsBelow (2 ^ 24) ⟨[], false⟩ ioCalls) :
    (∃ item, run (itemStep fresh) newItem itemCalls = some item ∧
      item.buf.length = item.tot ∧ item.tot < 2 ^ 26 ∧
      item.buf.take item.siz = (itemCalls.foldl itemStrings []).flatten ∧
      (itemCalls.foldl itemStrings [] ≠ [] →
        cString item.buf = (itemCalls.foldl itemStrings []).flatten)) ∧
    ∃ io, (sockIoNew fresh).bind (fun new => run (ioStep fresh) new ioCalls) = some io ∧
      io.ptr.length = io.siz ∧ io.siz < 2 ^ 25 ∧
      cString io.ptr = (ioCalls.foldl Added.call ⟨[], false⟩).strings.flatten := by
  constructor
  · obtain ⟨item, ran, holds⟩ :=
      itemRun_holds fresh itemCalls newItem [] itemHolds_newItem itemTotals
    exact ⟨item, ran, holds.size, holds.small, holds.front, fun added => (holds.text added).string⟩
  · obtain ⟨new, made, newHolds⟩ := sockIoNew_holds fresh
    obtain ⟨io, _, ran, holds⟩ := ioRun_holds fresh ioCalls new _ false newHolds once ioTotals
    refine ⟨io, ?_, holds.size, holds.small, holds.text.string⟩
    rw [made, Option.bind_some, ran]

/-- A record, and a reply that is sent with its array still open. -/
def oneRecord : List ItemCall := [.reset, .add ⟨[0x7b], by decide⟩, .add ⟨[0x7d], by decide⟩]

def oneReply : List IoCall := [.reinit, .add ⟨[0x7b, 0x5b], by decide⟩, .close, .send true]

theorem output_buffers_hold_reply :
    (ItemTextsBelow (2 ^ 24) [] oneRecord ∧ SendsOnce false oneReply ∧
      TextsBelow (2 ^ 24) ⟨[], false⟩ oneReply) ∧
      (∃ item, run (itemStep fun _ => 0xaa) newItem oneRecord = some item ∧
        item.buf.length = item.tot ∧ item.tot < 2 ^ 26 ∧
        item.buf.take item.siz = (oneRecord.foldl itemStrings []).flatten ∧
        (oneRecord.foldl itemStrings [] ≠ [] →
          cString item.buf = (oneRecord.foldl itemStrings []).flatten)) ∧
      ∃ io, (sockIoNew fun _ => 0xaa).bind (fun new => run (ioStep fun _ => 0xaa) new oneReply) =
        some io ∧
        io.ptr.length = io.siz ∧ io.siz < 2 ^ 25 ∧
        cString io.ptr = (oneReply.foldl Added.call ⟨[], false⟩).strings.flatten :=
  ⟨⟨by decide, ⟨rfl, rfl, rfl, trivial⟩, by decide +kernel⟩,
    output_buffers_hold (fun _ => 0xaa) oneRecord (by decide) oneReply ⟨rfl, rfl, rfl,
    trivial⟩ (by decide +kernel)⟩

/-! ## The replies -/

/-- The calls on a reply without a size. -/
def replyCall (io : Source.ApiReply.Io) : IoCall → Source.ApiReply.Io
  | .reinit => Source.ApiReply.ioReinit
  | .put buf => Source.ApiReply.ioPut buf.bytes
  | .add buf => Source.ApiReply.ioAdd io buf.bytes
  | .close => Source.ApiReply.ioClose io
  | .tailJoin isjson => Source.ApiReply.tailJoin io isjson
  | .send isjson => Source.ApiReply.sendResult io isjson

def Added.reply (a : Added) : Source.ApiReply.Io := ⟨a.text, a.close⟩

theorem reply_call (a : Added) (call : IoCall) : (a.call call).reply = replyCall a.reply call := by
  obtain ⟨strings, close⟩ := a
  unfold Added.reply Added.text Added.call closing
  cases call with
  | reinit => rfl
  | put buf =>
    simp [replyCall, Source.ApiReply.ioPut, Source.ApiReply.ioAdd, Source.ApiReply.ioReinit]
  | add buf => simp [replyCall, Source.ApiReply.ioAdd]
  | close => rfl
  | tailJoin isjson =>
    cases close <;> cases isjson <;>
      simp [replyCall, Source.ApiReply.tailJoin, Source.ApiReply.ioAdd]
  | send isjson =>
    cases close <;> cases isjson <;>
      simp [replyCall, Source.ApiReply.sendResult, Source.ApiReply.ioAdd]

/-- The block of a run holds the reply that the unbounded calls build. -/
theorem block_refines_reply (fresh : Nat → UInt8) (calls : List IoCall)
    (once : SendsOnce false calls) (totals : TextsBelow (2 ^ 24) ⟨[], false⟩ calls) :
    ∃ io, (sockIoNew fresh).bind (fun new => run (ioStep fresh) new calls) = some io ∧
      cString io.ptr = (calls.foldl replyCall Source.ApiReply.ioReinit).text ∧
      io.close = (calls.foldl replyCall Source.ApiReply.ioReinit).close := by
  obtain ⟨new, made, newHolds⟩ := sockIoNew_holds fresh
  obtain ⟨io, _, ran, holds⟩ := ioRun_holds fresh calls new _ false newHolds once totals
  have reply : calls.foldl replyCall Source.ApiReply.ioReinit =
      (calls.foldl Added.call ⟨[], false⟩).reply := by
    have start : Source.ApiReply.ioReinit = Added.reply ⟨[], false⟩ := rfl
    rw [start]
    exact List.foldl_hom Added.reply fun a call => (reply_call a call).symm
  refine ⟨io, by rw [made, Option.bind_some, ran], ?_, ?_⟩
  · exact holds.text.string.trans (congrArg Source.ApiReply.Io.text reply).symm
  · exact holds.close.trans (congrArg Source.ApiReply.Io.close reply).symm

end CgminerT4.Guarantees.ReplyBuffers
