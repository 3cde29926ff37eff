import CgminerT4.Library.Runs
import CgminerT4.Library.SignificantBits
import CgminerT4.Library.StringBuffer
import CgminerT4.Source.ApiReply
import CgminerT4.Source.LineReader

/-!
# The memory behind the replies of the API (api.c)

The string buffers of print_data and the one io_data that replies are built in. A
block of memory has the size that cgrealloc was asked for, which it rounds up to a
multiple of four; a write that does not end inside it has no result. The buffers
never shrink, so `fresh` gives the value of each byte when it is allocated.
-/
namespace CgminerT4.Source.OutputBuffers
open Library.ByteString Library.SignificantBits Library.StringBuffer
open Library.JsonText (closeBracket)
open ApiReply (jsonEnd)
open LineReader (strcat)

/-! ## String buffers -/

/-- The block of a NULL `buf` is empty. -/
structure SBITEM where
  buf : Bytes
  siz : Nat
  tot : Nat

def sbextend : Nat := 4096

/-- An item of k_new_list. -/
def newItem : SBITEM := ⟨[], 0, 0⟩

/-- `DATASB(item)->siz = 0` in print_data. -/
def resetItem (item : SBITEM) : SBITEM := { item with siz := 0 }

def addItemBuf (fresh : Nat → UInt8) (item : SBITEM) (str : CText) : Option SBITEM :=
  let siz := str.bytes.length
  let oldSiz := item.siz
  let newSiz := oldSiz + siz + 1
  let item :=
    if item.tot < newSiz then
      let ext := (siz + 1) + sbextend - (siz + 1) % sbextend
      { item with buf := realloc fresh item.buf (item.tot + ext), tot := item.tot + ext }
    else item
  (blit item.buf oldSiz (str.bytes ++ [0])).map fun buf => { item with buf, siz := item.siz + siz }

/-! ## io_data -/

/-- `cur` is the offset of the pointer in the block `ptr`. -/
structure IoData where
  siz : Nat
  ptr : Bytes
  cur : Nat
  close : Bool

def sockbufallocsiz : Nat := 65536

def jsonCloseText : CText := ⟨[closeBracket], by decide⟩

def jsonEndText : CText := ⟨jsonEnd, by decide +kernel⟩

def ioReinit (io : IoData) : Option IoData :=
  (blit io.ptr 0 [0]).map fun ptr => { io with ptr, cur := 0, close := false }

/-- `_io_new` -/
def ioNew (fresh : Nat → UInt8) (initial : Nat) : Option IoData :=
  ioReinit ⟨initial, realloc fresh [] initial, 0, false⟩

def sockIoNew (fresh : Nat → UInt8) : Option IoData := ioNew fresh sockbufallocsiz

/-- The size io_add asks for. The quotient is one of two floats, the divisor a power
of two. -/
def grownSize (siz tot : Nat) : Nat :=
  let new := siz + 2 * sockbufallocsiz
  if new < tot then (2 + roundBits 24 tot / sockbufallocsiz) * sockbufallocsiz else new

def ioAdd (fresh : Nat → UInt8) (io : IoData) (buf : CText) : Option IoData :=
  let len := buf.bytes.length
  let dif := io.cur
  let tot := len + 1 + dif + (jsonCloseText.bytes.length + 1) + (jsonEndText.bytes.length + 1)
  let io :=
    if tot > io.siz then
      let new := grownSize io.siz tot
      { io with ptr := realloc fresh io.ptr new, siz := new }
    else io
  (blit io.ptr io.cur (buf.bytes ++ [0])).map fun ptr => { io with ptr, cur := io.cur + len }

def ioPut (fresh : Nat → UInt8) (io : IoData) (buf : CText) : Option IoData :=
  (ioReinit io).bind fun io => ioAdd fresh io buf

def ioClose (io : IoData) : IoData := { io with close := true }

/-- JSON_CLOSE and JSON3 are the same string. -/
def tailJoin (fresh : Nat → UInt8) (io : IoData) (isjson : Bool) : Option IoData :=
  let closed :=
    if io.close then (ioAdd fresh io jsonCloseText).map fun io =>
      { io with close := false } else some io
  closed.bind fun io =>
    if isjson then (ioAdd fresh io jsonEndText).bind fun io =>
      ioAdd fresh io jsonCloseText else some io

/-- `strcpy(buf, io_data->ptr)`, where both are the same block. -/
def strcpySelf (mem : Bytes) : Option Bytes := blit mem 0 (cString mem ++ [0])

/-- The reply send_result leaves in the block for the socket. -/
def sendResult (io : IoData) (isjson : Bool) : Option IoData :=
  (strcpySelf io.ptr).bind fun buf =>
    (if io.close then strcat buf jsonCloseText.bytes else some buf).bind fun buf =>
      (if isjson then strcat buf jsonEndText.bytes else some buf).map fun buf =>
        { io with ptr := buf }

/-! ## Runs -/

inductive ItemCall where
  | reset
  | add (str : CText)

def itemStep (fresh : Nat → UInt8) (item : SBITEM) : ItemCall → Option SBITEM
  | .reset => some (resetItem item)
  | .add str => addItemBuf fresh item str

inductive IoCall where
  | reinit
  | put (buf : CText)
  | add (buf : CText)
  | close
  | tailJoin (isjson : Bool)
  | send (isjson : Bool)

def ioStep (fresh : Nat → UInt8) (io : IoData) : IoCall → Option IoData
  | .reinit => ioReinit io
  | .put buf => ioPut fresh io buf
  | .add buf => ioAdd fresh io buf
  | .close => some (ioClose io)
  | .tailJoin isjson => tailJoin fresh io isjson
  | .send isjson => sendResult io isjson

/-- A result is sent at most once before the buffer is reset. -/
def SendsOnce : Bool → List IoCall → Prop
  | _, [] => True
  | _, .reinit :: calls => SendsOnce false calls
  | _, .put _ :: calls => SendsOnce false calls
  | sent, .add _ :: calls => sent = false ∧ SendsOnce sent calls
  | sent, .close :: calls => sent = false ∧ SendsOnce sent calls
  | sent, .tailJoin _ :: calls => sent = false ∧ SendsOnce sent calls
  | sent, .send _ :: calls => sent = false ∧ SendsOnce true calls

end CgminerT4.Source.OutputBuffers
