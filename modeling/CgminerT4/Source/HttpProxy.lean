import CgminerT4.Library.ByteString

/-!
# The handshake with an HTTP proxy (util.c)

http_negotiate behind the request it sends, with recv_byte. What arrives on the
connection in one piece is delivered by recv in one call or more; behind the
last piece recv answers 0, or -1 when the connection broke. recv_byte asks for
one byte and returns its local variable also when none came: `stack i` is what
the i-th such call finds in it. Log messages are left out.
-/
namespace CgminerT4.Source.HttpProxy
open Library.ByteString

/-- A piece is what makes recv return, so it is not empty. -/
structure Socket where
  pieces : List Bytes
  filled : ∀ piece ∈ pieces, piece ≠ []
  broken : Bool

def Socket.stream (s : Socket) : Bytes := s.pieces.flatten

/-- At most `len` bytes; none for -1. -/
def recv (len : Nat) (sock : Socket) : Option (Bytes × Socket) :=
  match sock with
  | ⟨[], filled, broken⟩ => if broken then none else some ([], ⟨[], filled, broken⟩)
  | ⟨piece :: pieces, filled, broken⟩ =>
    if more : len < piece.length then
      some (piece.take len, ⟨piece.drop len :: pieces, List.forall_mem_cons.mpr
        ⟨by rw [Ne, List.drop_eq_nil_iff]; omega,
          fun other member => filled other (List.mem_cons_of_mem _ member)⟩, broken⟩)
    else some (piece, ⟨pieces, fun other member => filled other (List.mem_cons_of_mem _ member),
      broken⟩)

/-- The connection, and how often recv_byte found it at its end. -/
structure Reader where
  sock : Socket
  ended : Nat

/-- `(char)-1` -/
def minusOne : UInt8 := 0xff

variable (stack : Nat → UInt8)

def recvByte (r : Reader) : UInt8 × Reader :=
  match recv 1 r.sock with
  | none => (minusOne, r)
  | some ([], sock) => (stack r.ended, ⟨sock, r.ended + 1⟩)
  | some (c :: _, sock) => (c, { r with sock })

/-- The first loop, with `n` bytes to come. -/
def fillBuf : Nat → Bytes → Reader → Option Bytes × Reader
  | 0, buf, r => (some buf, r)
  | n + 1, buf, r =>
    let (c, r) := recvByte stack r
    if c = minusOne then (none, r) else fillBuf n (buf ++ [c]) r

def emptyLine : Bytes := [13, 10, 13, 10]

/-- The second loop; none when the fuel does not suffice. -/
def skipHeaders : Nat → Bytes → Reader → Option (Bool × Socket)
  | 0, _, _ => none
  | fuel + 1, buf, r =>
    if buf = emptyLine then some (true, r.sock)
    else
      let (c, r) := recvByte stack r
      if c = minusOne then some (false, r.sock) else skipHeaders fuel (buf.drop 1 ++ [c]) r

def statusOk (buf : Bytes) : Bool :=
  cString buf = ascii "HTTP/1.1 200" || cString buf = ascii "HTTP/1.0 200"

/-- The result, and the connection as it is left. -/
def httpNegotiate (fuel : Nat) (sockd : Socket) : Option (Bool × Socket) :=
  match recv 12 sockd with
  | none => some (false, sockd)
  | some (buf, sockd) =>
    if buf = [] then some (false, sockd)
    else if !statusOk buf then some (false, sockd)
    else
      match fillBuf stack 4 [] ⟨sockd, 0⟩ with
      | (none, r) => some (false, r.sock)
      | (some buf, r) => skipHeaders stack fuel buf r

end CgminerT4.Source.HttpProxy
