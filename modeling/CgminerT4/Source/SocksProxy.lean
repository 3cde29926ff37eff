import CgminerT4.Source.HttpProxy
import CgminerT4.Source.PoolControl

/-!
# The handshake with a SOCKS5 proxy (util.c)

socks5_negotiate asks the proxy for a connection to the host and port of a pool and
reads the two replies byte by byte. recv_byte returns a char as an int, and whether
that char is signed depends on the platform. Log messages are left out.
-/
namespace CgminerT4.Source.SocksProxy
open Library.ByteString HttpProxy
open Jansson (toInt)
open PoolControl (atoi)

/-- A char as an int. -/
def charInt (charSigned : Bool) (c : UInt8) : Int := if charSigned then c.toInt8.toInt else c.toNat

variable (charSigned : Bool) (stack : Nat → UInt8)

def recvByte (r : Reader) : Int × Reader :=
  match recv 1 r.sock with
  | none => (-1, r)
  | some ([], sock) => (charInt charSigned (stack r.ended), ⟨sock, r.ended + 1⟩)
  | some (c :: _, sock) => (charInt charSigned c, { r with sock })

def skipBytes : Nat → Reader → Reader
  | 0, r => r
  | n + 1, r => skipBytes n (recvByte charSigned stack r).2

/-- The second reply, after which two bytes of a port are left to read. -/
def readReply (r : Reader) : Bool × Reader :=
  let (version, r) := recvByte charSigned stack r
  if version ≠ 0x05 then (false, r)
  else
    let (status, r) := recvByte charSigned stack r
    if status ≠ 0x00 then (false, r)
    else
      let (_, r) := recvByte charSigned stack r
      let (value, r) := recvByte charSigned stack r
      let atyp := UInt8.ofInt value
      if atyp = 0x01 then (true, skipBytes charSigned stack 2 (skipBytes charSigned stack 4 r))
      else if atyp = 0x03 then
        let (len, r) := recvByte charSigned stack r
        (true, skipBytes charSigned stack 2 (skipBytes charSigned stack len.toNat r))
      else (false, r)

structure Negotiation where
  sent : List Bytes
  ret : Bool
  left : Reader

def greeting : Bytes := [0x05, 0x01, 0x00]

/-- `len` is what the int holds of the length of the url; none when it is copied with a
negative one. -/
def connectRequest (sockaddrUrl stratumPort : Bytes) : Option Bytes :=
  let len := toInt sockaddrUrl.length
  let len := if len > 255 then 255 else len
  if len < 0 then none
  else
    let port := UInt16.ofInt (atoi stratumPort)
    some ([0x05, 0x01, 0x00, 0x03, UInt8.ofInt len] ++ sockaddrUrl.take len.toNat ++
      [(port >>> 8).toUInt8, port.toUInt8])

def socks5Negotiate (sockaddrUrl stratumPort : Bytes) (sockd : Socket) : Option Negotiation :=
  let (version, r) := recvByte charSigned stack ⟨sockd, 0⟩
  if version ≠ 0x05 then some ⟨[greeting], false, r⟩
  else
    let (method, r) := recvByte charSigned stack r
    if method ≠ 0x00 then some ⟨[greeting], false, r⟩
    else
      (connectRequest sockaddrUrl stratumPort).map fun request =>
        let (ret, r) := readReply charSigned stack r
        ⟨[greeting, request], ret, r⟩

end CgminerT4.Source.SocksProxy
