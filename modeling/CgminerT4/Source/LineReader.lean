import CgminerT4.Library.ByteString

/-!
# The receive buffer of a pool (util.c)

recalloc_sock and the plain recv_line over the memory of `sockbuf`, whose
length is `sockbuf_size`. The connection is a list of what the coming calls of
recv deliver; it neither ends nor times out, so a recv with nothing left waits.
None is an access outside the buffer. The byte counters are left out.
-/
namespace CgminerT4.Source.LineReader
open Library.ByteString

def RBUFSIZE : Nat := 8192
def RECVSIZE : Nat := RBUFSIZE - 4

def newline : UInt8 := 10

/-- The size recalloc_sock asks for when `len` bytes are to be appended. -/
def recallocSize (size : Nat) : Nat := size + (RBUFSIZE - size % RBUFSIZE)

/-- Memory behind the string is zeroed, the part that realloc adds included. -/
def recallocSock (sockbuf : Bytes) (len : Nat) : Bytes :=
  let old := (cString sockbuf).length
  let size := old + len + 1
  if size < sockbuf.length then sockbuf
  else sockbuf.take old ++ List.replicate (recallocSize size - old) 0

/-- `s`, zeroed, after recv has written a chunk to it. -/
def received (chunk : Bytes) : Bytes := cString (overwrite (List.replicate RBUFSIZE 0) 0 chunk)

/-- strcat, terminator included. -/
def strcat (buf s : Bytes) : Option Bytes := blit buf (cString buf).length (s ++ [0])

/-- strtok(buf, "\n"): separators at the front are skipped, the one behind the
token becomes the terminator. None when there is no token. -/
def strtok (buf : Bytes) : Option (Bytes × Bytes) :=
  let text := cString buf
  let front := text.takeWhile (· = newline)
  let token := (text.drop front.length).takeWhile (· ≠ newline)
  let stop := front.length + token.length
  if token = [] then none
  else some (token, if stop < text.length then buf.set stop 0 else buf)

/-- Copy what is left behind a token of `len` bytes to the front; `buflen` is the
length of the string before strtok cut it. -/
def keepRest (buf : Bytes) (buflen len : Nat) : Option Bytes :=
  if buflen > len + 1 then
    if buflen + 2 ≤ buf.length then
      some (overwrite buf 0 ((buf.drop (len + 1)).take (buflen - len + 1)))
    else none
  else blit buf 0 [0]

/-- What one call of recv_line comes to. -/
inductive Call where
  /-- recv has nothing more to deliver. -/
  | waiting (sockbuf : Bytes)
  | line (sret : Bytes) (sockbuf : Bytes) (incoming : List Bytes)
  /-- No token: clear_sock throws away all that the connection still delivers
  and the result is NULL. -/
  | failed
  deriving DecidableEq

/-- From the strlen behind the receive loop to the end. -/
def takeLine (sockbuf : Bytes) (incoming : List Bytes) : Option Call :=
  match strtok sockbuf with
  | none => some .failed
  | some (token, cut) =>
    (keepRest cut (cString sockbuf).length token.length).map fun rest => .line token rest incoming

/-- The receive loop. -/
def receive (sockbuf : Bytes) : List Bytes → Option Call
  | [] => some (.waiting sockbuf)
  | chunk :: incoming =>
    let s := received chunk
    (strcat (recallocSock sockbuf s.length) s).bind fun appended =>
      if newline ∈ cString appended then takeLine appended incoming else receive appended incoming

def recvLine (sockbuf : Bytes) (incoming : List Bytes) : Option Call :=
  if newline ∈ cString sockbuf then takeLine sockbuf incoming else receive sockbuf incoming

/-- How a sequence of calls ended. -/
inductive Ending where
  | waiting (sockbuf : Bytes)
  | failed
  | returned (sockbuf : Bytes) (incoming : List Bytes)
  deriving DecidableEq

/-- The strings that `n` calls in succession return, up to a call that does not
return one. -/
def recvLines : Nat → Bytes → List Bytes → Option (List Bytes × Ending)
  | 0, sockbuf, incoming => some ([], .returned sockbuf incoming)
  | n + 1, sockbuf, incoming =>
    (recvLine sockbuf incoming).bind fun
      | .waiting rest => some ([], .waiting rest)
      | .failed => some ([], .failed)
      | .line sret rest more =>
        (recvLines n rest more).map fun (later, ending) => (sret :: later, ending)

/-- `sockbuf` as the connection setup allocates it. -/
def emptySockbuf : Bytes := List.replicate RBUFSIZE 0

end CgminerT4.Source.LineReader
