import CgminerT4.Source.ShareTable

/-!
# The result of a submitted share (cgminer.c)

The texts of share_result with the buffers they are written in; the counters are
those of ShareTable. A buffer starts with what is on the stack. There is no
result when a string function gets a NULL pointer or a write leaves its buffer.
What the log lines print, the share log and the pool's state behind an accepted
share are left out.
-/
namespace CgminerT4.Source.ShareResult
open Library.ByteString Jansson WorkItem ShareTable

/-- What snprintf writes into `size` bytes, its terminator included. -/
def snprintf (size : Nat) (text : Bytes) : Bytes := text.take (size - 1) ++ [0]

/-- The local buffers of share_result. -/
structure Locals where
  place : Buffer 20
  disposition : Buffer 36
  reason : Buffer 32

/-- `char disposition[36] = "reject"` -/
def rejectText : Buffer 36 :=
  ⟨[114, 101, 106, 101, 99, 116] ++ List.replicate 30 0, by
    rw [List.length_append, List.length_replicate]; rfl⟩

/-- The member whose text is the reason: not NULL, it is taken for a string. -/
def reasonMember (val res : Option Json) (work : Work) : Option Json :=
  if !work.gbt then jsonObjectGet val "reject-reason" else res

/-- The text of an error of a stratum pool. -/
def stratumError (err : Option Json) : Option Bytes :=
  if jsonIsArray err then jsonStringValue (jsonArrayGet err 1) else jsonStringValue err

def parenthesised (text : Bytes) : Bytes := [32, 40] ++ text ++ [41]

/-- strlen of a NULL pointer has no result. -/
def storeReason (l : Locals) (reasontmp : Option Bytes) : Option Locals :=
  reasontmp.bind fun reasontmp =>
    let reasonLen := min 28 reasontmp.length
    (l.reason.storeAll [(0, [32]), (1, [40]), (2, reasontmp.take reasonLen), (reasonLen + 2, [41]),
      (reasonLen + 3, [0])]).bind fun reason =>
    (l.disposition.storeAll [(7, reasontmp.take reasonLen), (6, [58]), (reasonLen + 7, [0])]).map
        fun disposition =>
      { l with reason, disposition }

/-- The part of share_result that is left out when the miner is quiet. -/
def rejection (totalPools : Int) (val res err : Option Json) (work : Work) (stack : Locals) :
    Option Locals :=
  (stack.reason.store 0 [0]).bind fun reason =>
  (stack.place.store 0
      (if totalPools > 1 then snprintf 20 (ascii "pool " ++ decimal work.pool) else [0])).bind
      fun place =>
    let l : Locals := ⟨place, rejectText, reason⟩
    match reasonMember val res work with
    | some member => storeReason l (jsonStringValue (some member))
    | none =>
      match if work.stratum && err.isSome then stratumError err else none with
      | some text =>
        (l.reason.store 0 (snprintf 31 (parenthesised text))).map fun reason => { l with reason }
      | none => some l

/-- `json_is_true(res) || (work->gbt && json_is_null(res))` -/
def isAccepted (res : Option Json) (work : Work) : Bool :=
  jsonIsTrue res || (work.gbt && jsonIsNull res)

/-- The counters, and the texts of a rejected share. -/
def shareResult (quiet : Bool) (totalPools : Int) (val res err : Option Json) (work : Work)
    (stack : Locals) (st : State) :
    Option (State × Option Locals) :=
  let counted := st.shareResult res work
  if isAccepted res work || quiet then some (counted, none)
  else (rejection totalPools val res err work stack).map fun l => (counted, some l)

end CgminerT4.Source.ShareResult
