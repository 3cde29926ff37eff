import CgminerT4.Guarantees.ReadOnlyAccess
import CgminerT4.Library.JsonForm

/-!
# The form of replies in JSON

A message opens an object and a report adds a section to it, so behind any buffer
a handler leaves an object with at least one member that is not yet closed. This
rests on the data that a record prints as they are: raw strings without quotes and
figures that are numbers.
-/
namespace CgminerT4.Guarantees.ReplyForm
open Library Library.ByteString Library.JsonForm Source Source.ApiReply Source.ApiReports
open Library.JsonText (quote backslash comma colon openBracket closeBracket openBrace closeBrace)

variable {R : Type} [Floating R]

/-! ## Records -/

def isNumber (s : Bytes) : Bool := JsonText.number s = some (s, [])

/-- The data print as a value of JSON. -/
def printableData (data : Datum R) : Bool :=
  match data with
  | .string data => chars (data.getD nullstr)
  | .timeval _ | .fixed _ _ => isNumber (dataText true data)
  | .escape _ | .integer _ | .bool _ => true

def printable (field : ApiData R) : Bool := chars field.name && printableData field.data

theorem chars_escapeString (str : Bytes) : chars (escapeString str true) := by
  induction str with
  | nil => rfl
  | cons c str ih =>
    rw [escapeString.eq_def]
    dsimp only
    by_cases special : c = quote ∨ c = backslash
    · have escapes :
        (if c = comma ∨ c = separator ∨ c = equals then !true else if c = quote then true
          else decide (c = backslash)) = true := by
        rcases special with rfl | rfl <;> rfl
      rw [escapes, if_pos rfl]
      exact (chars_escape c _ special).trans ih
    · rw [not_or] at special
      have plain : (if c = comma ∨ c = separator ∨ c = equals then !true else if c = quote then true
          else decide (c = backslash)) = false := by
        rw [if_neg special.1, decide_eq_false special.2]
        split <;> rfl
      rw [plain, if_neg Bool.false_ne_true]
      exact (chars_cons c _ (not_or.mpr special)).trans ih

theorem quoted_value (s : Bytes) (inside : chars s) : IsValue (quoted true s) := .string s inside

theorem dataText_value (data : Datum R) (ok : printableData data) :
    IsValue (dataText true data) := by
  cases data with
  | string data => exact quoted_value _ ok
  | escape data =>
    cases data with
    | none => exact quoted_value nullstr (chars_ascii _ (by decide))
    | some data => exact quoted_value _ (chars_escapeString data)
  | integer data => exact .number _ (number_decimal data)
  | bool data =>
    cases data with
    | false => exact .literal (ascii "false") (List.mem_cons_of_mem _ List.mem_cons_self)
    | true => exact .literal (ascii "true") List.mem_cons_self
  | timeval data => exact .number _ (of_decide_eq_true ok)
  | fixed decimals data => exact .number _ (of_decide_eq_true ok)

theorem fieldText_member (field : ApiData R) :
    fieldText true field = memberText (field.name, dataText true field.data) := by
  unfold fieldText quoted memberText
  simp

theorem fieldsText_listed (root : List (ApiData R)) :
    fieldsText true root = listed (root.map (fieldText true)) := by
  fun_induction fieldsText true root with
  | case1 => rfl
  | case2 field => exact (listed_single _).symm
  | case3 field next root ih =>
    rw [ih, List.map_cons, List.map_cons, listed, listed, List.map_cons, List.flatMap_cons]
    rfl

/-- A record as JSON. -/
def recordText (root : List (ApiData R)) : Bytes :=
  openBrace :: (fieldsText true root ++ [closeBrace])

theorem recordText_value (root : List (ApiData R)) (ok : root.all printable) :
    IsValue (recordText root) := by
  have member : ∀ field ∈ root, chars field.name ∧ printableData field.data := by
    intro field inside
    have good := List.all_eq_true.mp ok field inside
    unfold printable at good
    rwa [Bool.and_eq_true] at good
  have texts : root.map (fieldText true) =
      (root.map fun field => (field.name, dataText true field.data)).map memberText := by
    rw [List.map_map]
    exact List.map_congr_left fun field _ => fieldText_member field
  unfold recordText
  rw [fieldsText_listed, texts]
  refine .object _ (fun pair inside => ?_) fun pair inside => ?_
  · obtain ⟨field, within, rfl⟩ := List.mem_map.mp inside
    exact (member field within).1
  · obtain ⟨field, within, rfl⟩ := List.mem_map.mp inside
    exact dataText_value field.data (member field within).2

theorem printData_record (io : Io) (root : List (ApiData R)) (precom : Bool) :
    printData io root true precom =
      ioAdd io ((if precom then [comma] else []) ++ recordText root) := by
  unfold printData recordText
  simp

theorem ioAdd_ioAdd (io : Io) (a b : Bytes) : ioAdd (ioAdd io a) b = ioAdd io (a ++ b) := by
  unfold ioAdd
  rw [List.append_assoc]

/-! ## Sections -/

/-- A section with its items. -/
def sectionText (name : Bytes) (items : List Bytes) : Bytes := jsonSection name ++ listed items

theorem sectionText_member (name : Bytes) (items : List Bytes) :
    sectionText name items ++ [closeBracket] =
      memberText (name, openBracket :: (listed items ++ [closeBracket])) := by
  unfold sectionText jsonSection memberText
  simp

/-- An object behind `front` that is open at the end of the buffer. -/
def Opened (front : Bytes) (io : Io) : Prop :=
  ∃ members : List (Bytes × Bytes), members ≠ [] ∧ Members members ∧
    (if io.close then ioAdd io [closeBracket] else io).text =
      front ++ openBrace :: listed (members.map memberText)

/-- What a message leaves. -/
def Stated (io out : Io) : Prop :=
  ∃ value, IsValue value ∧ out = ioAdd io (openBrace :: memberText (ascii "STATUS", value))

theorem message_stated (desk : Desk) (io out : Io) (id : Nat) (paramid : Int)
    (param2 : Option Bytes) (sent : message R desk io id paramid param2 true = some out) :
    Stated io out := by
  have status : ∀ severity code msg, chars severity →
      (statusRecord R desk severity code msg).all printable := by
    intro severity code msg inside
    unfold statusRecord
    simp only [List.all_cons, List.all_nil, printable, printableData, Option.getD_some, inside,
      Bool.and_true, chars_ascii "STATUS" (by decide), chars_ascii "When" (by decide),
      chars_ascii "Code" (by decide), chars_ascii "Msg" (by decide),
      chars_ascii "Description" (by decide)]
  have made : ∃ severity code msg, chars severity ∧ out =
      ioAdd (printData (ioAdd io (openBrace :: jsonSection (ascii "STATUS")))
        (statusRecord R desk severity code msg) true
        false) [closeBracket] := by
    unfold message at sent
    obtain ⟨root, record, rfl⟩ := Option.map_eq_some_iff.mp sent
    split at record
    · rename_i code found
      obtain ⟨buf, text, rfl⟩ := Option.map_eq_some_iff.mp record
      refine ⟨severityText code.severity, id, buf, ?_, rfl⟩
      cases code.severity <;> exact chars_ascii _ (by decide)
    · cases record
      exact ⟨ascii "F", -1, decimal id, chars_ascii _ (by decide), rfl⟩
  obtain ⟨severity, code, msg, inside, rfl⟩ := made
  refine ⟨openBracket :: (listed [recordText (statusRecord R desk severity code msg)] ++
    [closeBracket]), ?_, ?_⟩
  · refine .array _ fun item single => ?_
    rw [List.mem_singleton] at single
    rw [single]
    exact recordText_value _ (status severity code msg inside)
  · rw [← sectionText_member, printData_record, ioAdd_ioAdd, ioAdd_ioAdd]
    unfold sectionText
    rw [listed_single]
    simp

theorem status_chars : chars (ascii "STATUS") := chars_ascii _ (by decide)

/-- A message alone. -/
theorem Stated.opened {io out : Io} (stated : Stated io out) (closed : io.close = false) :
    Opened io.text out := by
  obtain ⟨value, good, rfl⟩ := stated
  refine ⟨[(ascii "STATUS", value)], List.cons_ne_nil _ _, ?_, ?_⟩
  · intro member single
    rw [List.mem_singleton] at single
    rw [single]
    exact ⟨status_chars, good⟩
  · rw [show (ioAdd io _).close = false from closed, if_neg Bool.false_ne_true, List.map_cons,
      List.map_nil, listed_single]
    rfl

/-- A message and a section with several items. -/
theorem Stated.section {io out : Io} (stated : Stated io out) (name : Bytes) (items : List Bytes)
    (named : chars name) (values : ∀ item ∈ items, IsValue item) :
    Opened io.text (ioClose (ioAdd out (comma :: sectionText name items))) := by
  obtain ⟨value, good, rfl⟩ := stated
  refine ⟨[(ascii "STATUS", value), (name, openBracket :: (listed items ++ [closeBracket]))],
    List.cons_ne_nil _ _, ?_, ?_⟩
  · intro member either
    rw [List.mem_cons, List.mem_singleton] at either
    rcases either with rfl | rfl
    · exact ⟨status_chars, good⟩
    · exact ⟨named, .array items values⟩
  · rw [List.map_cons, List.map_cons, List.map_nil, listed, List.flatMap_cons, List.flatMap_nil,
      List.append_nil, ← sectionText_member]
    unfold ioClose ioAdd
    simp

/-! ## Ends of objects -/

/-- The end that `send_result` and `tail_join` write completes an object. -/
theorem Opened.object {front : Bytes} {io : Io} (opened : Opened front io) :
    ∃ object, IsObject object ∧
      (if io.close then ioAdd io [closeBracket] else io).text ++ jsonEnd = front ++ object := by
  obtain ⟨members, several, good, text⟩ := opened
  refine ⟨openBrace :: (listed (members.map memberText) ++ jsonEnd),
    ⟨members ++ [(ascii "id", ascii "1")], ?_, ?_⟩, ?_⟩
  · intro member inside
    rcases List.mem_append.mp inside with old | new
    · exact good member old
    · rw [List.mem_singleton.mp new]
      exact ⟨chars_ascii _ (by decide), .number _ (number_decimal 1)⟩
  · have closing : jsonEnd = comma :: (memberText (ascii "id", ascii "1") ++ [closeBrace]) := by
      unfold jsonEnd memberText
      simp only [ascii_eq]
      rfl
    rw [List.map_append, listed_append _ _ (fun none => several (List.map_eq_nil_iff.mp none)),
      closing]
    simp
  · rw [text]
    simp

theorem sendResult_object {io : Io} (opened : Opened [] io) :
    IsObject (sendResult io true).text := by
  obtain ⟨object, good, text⟩ := opened.object
  rw [List.nil_append] at text
  have reply : (sendResult io true).text = object := by
    rw [← text]
    unfold sendResult ioAdd
    split <;> rfl
  rw [reply]
  exact good

theorem headJoin_text (io : Io) (name : Bytes) (first : Bool) :
    (headJoin io name true first).text =
      io.text ++ ((if first then [openBrace] else [comma]) ++
        jsonSection (escapeString name true)) := rfl

theorem headJoin_close (io : Io) (name : Bytes) (isjson first : Bool) :
    (headJoin io name isjson first).close = io.close := by
  unfold headJoin
  split <;> rfl

theorem tailJoin_close (io : Io) (isjson : Bool) : (tailJoin io isjson).close = false := by
  obtain ⟨text, close⟩ := io
  cases close <;> cases isjson <;> rfl

theorem tailJoin_text (io : Io) : (tailJoin io true).text =
    (if io.close then ioAdd io [closeBracket] else io).text ++ jsonEnd ++ [closeBracket] := by
  obtain ⟨text, close⟩ := io
  cases close <;> simp [tailJoin, ioAdd]

/-- A joined command is one more member, a list with the command's object. -/
theorem tailJoin_opened {s : Io} {name : Bytes} {first : Bool} {io : Io} (named : chars name)
    (closed : s.close = false) (text : if first then s.text = [] else Opened [] s)
    (opened : Opened (s.text ++
      ((if first then [openBrace] else [comma]) ++ jsonSection name)) io) :
    Opened [] (tailJoin io true) := by
  obtain ⟨object, good, ends⟩ := opened.object
  have frame : IsValue (openBracket :: (listed [object] ++ [closeBracket])) := by
    refine .array [object] fun item single => ?_
    rw [List.mem_singleton] at single
    rw [single]
    exact good.value
  have tailText : (tailJoin io true).text = s.text ++ ((if first then [openBrace] else [comma]) ++
      memberText (name, openBracket :: (listed [object] ++ [closeBracket]))) := by
    rw [tailJoin_text, ends, listed_single]
    unfold jsonSection memberText
    simp
  have last : ∀ members : List (Bytes × Bytes), Members members →
      Members (members ++ [(name, openBracket :: (listed [object] ++ [closeBracket]))]) := by
    intro members before member inside
    rcases List.mem_append.mp inside with old | new
    · exact before member old
    · rw [List.mem_singleton.mp new]
      exact ⟨named, frame⟩
  unfold Opened
  rw [tailJoin_close, if_neg Bool.false_ne_true, tailText]
  cases first with
  | true =>
    rw [if_pos rfl] at text
    refine ⟨[(name, openBracket :: (listed [object] ++ [closeBracket]))],
      List.cons_ne_nil _ _, ?_, ?_⟩
    · exact last [] fun member never => nomatch never
    · rw [text, if_pos rfl, List.map_cons, List.map_nil, listed_single (memberText _)]
      rfl
  | false =>
    rw [if_neg Bool.false_ne_true] at text
    obtain ⟨members, several, before, front⟩ := text
    rw [closed, if_neg Bool.false_ne_true, List.nil_append] at front
    refine ⟨members ++ [_], List.append_ne_nil_of_right_ne_nil _ (List.cons_ne_nil _ _),
      last members before, ?_⟩
    rw [front, if_neg Bool.false_ne_true, List.map_append,
      listed_append _ _ fun none => several (List.map_eq_nil_iff.mp none)]
    simp

end CgminerT4.Guarantees.ReplyForm
