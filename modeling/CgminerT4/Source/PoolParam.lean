import CgminerT4.Source.ApiControl

/-!
# The parameter of addpool in memory (api.c)

`pooldetails` writes url, user and password one behind the other into a single buffer
of the parameter's length and a terminator, and hands out where each of them starts.
-/
namespace CgminerT4.Source.PoolParam
open Library.ByteString
open Library.JsonText (comma backslash)

/-- Take what stands before `ch` out of the parameter and put it behind the buffer. -/
def copyadvanceafter (ch : UInt8) : (param buf : Bytes) → Bytes × Bytes
  | [], buf => ([], buf ++ [0])
  | [c], buf => if c = ch then ([], buf ++ [0]) else ([], buf ++ [c] ++ [0])
  | c :: d :: param, buf =>
    if c = ch then (d :: param, buf ++ [0])
    else if c = backslash then copyadvanceafter ch param (buf ++ [d])
    else copyadvanceafter ch (d :: param) (buf ++ [c])

structure Details where
  url : Nat
  user : Nat
  pass : Nat

/-- What was written to the buffer, and where the strings start in it. -/
def pooldetails (param : Bytes) : Bytes × Option Details :=
  let url := 0
  let (param, buf) := copyadvanceafter comma param []
  if param = [] then (buf, none)
  else
    let user := buf.length
    let (param, buf) := copyadvanceafter comma param buf
    if param = [] then (buf, none)
    else
      let pass := buf.length
      let (_, buf) := copyadvanceafter comma param buf
      (buf, some ⟨url, user, pass⟩)

def cStringAt (buf : Bytes) (start : Nat) : Bytes := cString (buf.drop start)

end CgminerT4.Source.PoolParam
