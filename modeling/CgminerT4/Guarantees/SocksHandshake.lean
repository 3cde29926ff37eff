import CgminerT4.Guarantees.ConfigReload
import CgminerT4.Guarantees.ProxyHandshake
import CgminerT4.Source.SocksProxy

/-!
# The replies of a SOCKS5 proxy

The handshake reads exactly the two replies, unless a char is signed and the proxy
names itself with 128 bytes or more: such a length is a negative int, no byte of the
name is read, and the rest of the reply stands before the payload.
-/
namespace CgminerT4.Guarantees.SocksHandshake
open Library.ByteString
open Source.HttpProxy (Socket Reader recv)
open Source.Jansson (toInt)
open Source.PoolControl (atoi)
open Source.SocksProxy

/-! ## What the handshake is to do -/

inductive Address where
  | ipv4 (a b c d : UInt8)
  | domain (name : Bytes) (short : name.length ≤ 255)

def Address.text : Address → Bytes
  | .ipv4 a b c d => [0x01, a, b, c, d]
  | .domain name _ => 0x03 :: UInt8.ofNat name.length :: name

/-- An accepted method, and a connection made: a reserved byte, the address that the proxy
uses and its port. -/
def replies (rsv : UInt8) (address : Address) (high low : UInt8) : Bytes :=
  [0x05, 0x00] ++ ([0x05, 0x00, rsv] ++ (address.text ++ [high, low]))

/-- The request for a host, of which a length byte counts the first 255 characters. -/
def requestFor (host : Bytes) (port : UInt16) : Bytes :=
  [0x05, 0x01, 0x00, 0x03, UInt8.ofNat (host.take 255).length] ++ host.take 255 ++
    [UInt8.ofNat (port.toNat / 256), UInt8.ofNat (port.toNat % 256)]

/-- However the bytes arrive, both messages are sent and the payload is next. -/
def Negotiates (charSigned : Bool) (host : Bytes) (port : UInt16) (rsv : UInt8) (address : Address)
    (high low : UInt8) (payload : Bytes) : Prop :=
  ∀ stack sockd, sockd.stream = replies rsv address high low ++ payload →
    ∃ n, socks5Negotiate charSigned stack host (decimal port.toNat) sockd = some n ∧
      n.sent = [greeting, requestFor host port] ∧ n.ret = true ∧ n.left.sock.stream = payload

/-- A host whose length an int holds, or holds as another one of at least 255. -/
def Counted (host : Bytes) : Prop :=
  host.length < 255 ∨ 255 ≤ host.length % 2 ^ 32 ∧ host.length % 2 ^ 32 < 2 ^ 31

/-- The name has a length that a signed char cannot hold. -/
def LongName : Address → Prop
  | .ipv4 _ _ _ _ => False
  | .domain name _ => 128 ≤ name.length

/-! ## Reading -/

section
variable (charSigned : Bool) (stack : Nat → UInt8)

theorem recvByte_cons (r : Reader) (c : UInt8) (rest : Bytes) (next : r.sock.stream = c :: rest) :
    ∃ later : Reader, recvByte charSigned stack r = (charInt charSigned c, later) ∧
      later.sock.stream = rest := by
  obtain ⟨left, received, stream, _⟩ := ProxyHandshake.recv_one r.sock c rest next
  unfold recvByte
  rw [received]
  exact ⟨{ r with sock := left }, rfl, stream⟩

theorem skipBytes_drop (n : Nat) (r : Reader) (inside : n ≤ r.sock.stream.length) :
    (skipBytes charSigned stack n r).sock.stream = r.sock.stream.drop n := by
  induction n generalizing r with
  | zero => rfl
  | succ n ih =>
    obtain ⟨c, rest, next⟩ := List.exists_cons_of_length_pos (Nat.lt_of_lt_of_le n.succ_pos inside)
    obtain ⟨later, read, stream⟩ := recvByte_cons charSigned stack r c rest next
    rw [next, List.length_cons] at inside
    rw [skipBytes, read, next, List.drop_succ_cons, ← stream]
    exact ih later (by rw [stream]; omega)

theorem charInt_small (c : UInt8) (small : c.toNat < 128) : charInt charSigned c = c.toNat := by
  unfold charInt
  cases charSigned with
  | false => rfl
  | true =>
    have value : c.toInt8.toInt = c.toBitVec.toInt := rfl
    rw [if_pos rfl, value, BitVec.toInt_eq_toNat_of_lt (by rw [UInt8.toNat_toBitVec]; omega)]
    rfl

theorem charInt_large (c : UInt8) (large : 128 ≤ c.toNat) : charInt true c < 0 := by
  have value : charInt true c = c.toBitVec.toInt := rfl
  have bound := c.toNat_lt
  have same : c.toBitVec.toNat = c.toNat := rfl
  rw [value, BitVec.toInt_eq_toNat_cond, same, if_neg (by omega)]
  omega

theorem ofInt_toNat (c : UInt8) : UInt8.ofInt c.toNat = c := by
  have value : ((c.toNat : Int) % 2 ^ 8).toNat = c.toNat := by
    have bound := c.toNat_lt
    omega
  rw [UInt8.ofInt, value, UInt8.ofNat_toNat]

/-- The reply up to the type of its address. -/
theorem readReply_type (r : Reader) (rsv c : UInt8) (rest : Bytes) (small : c.toNat < 128)
    (next : r.sock.stream = [0x05, 0x00, rsv] ++ c :: rest) :
    ∃ later : Reader, later.sock.stream = rest ∧
      readReply charSigned stack r =
        if c = 0x01 then (true, skipBytes charSigned stack 2 (skipBytes charSigned stack 4 later))
        else if c = 0x03 then
          (true, skipBytes charSigned stack 2
            (skipBytes charSigned stack (recvByte charSigned stack later).1.toNat
            (recvByte charSigned stack later).2))
        else (false, later) := by
  obtain ⟨first, read, stream⟩ := recvByte_cons charSigned stack r _ _ next
  obtain ⟨second, readStatus, behindVersion⟩ :=
    recvByte_cons charSigned stack first _ _ stream
  obtain ⟨third, readRsv, behindStatus⟩ :=
    recvByte_cons charSigned stack second _ _ behindVersion
  obtain ⟨later, readType, behindRsv⟩ :=
    recvByte_cons charSigned stack third _ _ behindStatus
  have version : charInt charSigned 0x05 = 0x05 := charInt_small charSigned _ (by decide)
  have status : charInt charSigned 0x00 = 0x00 := charInt_small charSigned _ (by decide)
  have atyp : UInt8.ofInt (charInt charSigned c) = c := by
    rw [charInt_small charSigned c small]
    exact ofInt_toNat c
  refine ⟨later, behindRsv, ?_⟩
  unfold readReply
  simp only [read, readStatus, readRsv, readType, version, status, atyp, ne_eq, not_true_eq_false,
    if_false]

theorem readReply_ipv4 (r : Reader) (rsv a b c d high low : UInt8) (payload : Bytes)
    (next : r.sock.stream =
      [0x05, 0x00, rsv] ++ ((Address.ipv4 a b c d).text ++ [high, low]) ++ payload) :
    ∃ later, readReply charSigned stack r = (true, later) ∧ later.sock.stream = payload := by
  obtain ⟨later, stream, taken⟩ := readReply_type charSigned stack r rsv 0x01
    ([a, b, c, d] ++ ([high, low] ++ payload)) (by decide) next
  rw [if_pos rfl] at taken
  refine ⟨_, taken, ?_⟩
  have address := skipBytes_drop charSigned stack 4 later (by rw [stream]; simp)
  rw [stream] at address
  rw [skipBytes_drop charSigned stack 2 _ (by rw [address]; simp), address]
  rfl

/-- As many bytes of the name are read as the int says. -/
theorem readReply_domain (r : Reader) (rsv high low : UInt8) (name payload : Bytes)
    (short : name.length ≤ 255)
    (next : r.sock.stream =
      [0x05, 0x00, rsv] ++ ((Address.domain name short).text ++ [high, low]) ++ payload)
    (inside : (charInt charSigned (UInt8.ofNat name.length)).toNat ≤ name.length) :
    ∃ later, readReply charSigned stack r = (true, later) ∧
      later.sock.stream = (name ++ ([high, low] ++ payload)).drop
        ((charInt charSigned (UInt8.ofNat name.length)).toNat + 2) := by
  obtain ⟨later, stream, taken⟩ := readReply_type charSigned stack r rsv 0x03
    (UInt8.ofNat name.length :: (name ++ ([high, low] ++ payload))) (by decide)
      (by rw [next]; simp [Address.text])
  obtain ⟨counted, read, behind⟩ := recvByte_cons charSigned stack later _ _ stream
  rw [if_neg (by decide), if_pos rfl, read] at taken
  refine ⟨_, taken, ?_⟩
  have address := skipBytes_drop charSigned stack
    (charInt charSigned (UInt8.ofNat name.length)).toNat counted
      (by rw [behind, List.length_append]; omega)
  rw [behind] at address
  rw [skipBytes_drop charSigned stack 2 _ (by simp only [address, List.length_drop,
    List.length_append, List.length_cons, List.length_nil]; omega), address, List.drop_drop]

end

/-! ## The request -/

theorem port_text (port : UInt16) : UInt16.ofInt (atoi (decimal port.toNat)) = port := by
  have bound := port.toNat_lt
  have value : ((port.toNat : Int) % 2 ^ 16).toNat = port.toNat := by omega
  rw [ConfigReload.atoi_decimal _ (by omega), UInt16.ofInt, value, UInt16.ofNat_toNat]

theorem port_high (port : UInt16) : (port >>> 8).toUInt8 = UInt8.ofNat (port.toNat / 256) := by
  have bound := port.toNat_lt
  refine UInt8.toNat_inj.mp ?_
  rw [UInt16.toNat_toUInt8, UInt16.toNat_shiftRight, UInt8.toNat_ofNat']
  simp [Nat.shiftRight_eq_div_pow]

theorem port_low (port : UInt16) : port.toUInt8 = UInt8.ofNat (port.toNat % 256) := by
  refine UInt8.toNat_inj.mp ?_
  rw [UInt16.toNat_toUInt8, UInt8.toNat_ofNat']
  omega

/-- The length byte and the copy are right when the int is. -/
theorem connectRequest_of_len (host : Bytes) (port : UInt16)
    (len : (if toInt host.length > 255 then 255 else toInt host.length) =
      ((host.take 255).length : Int)) :
    connectRequest host (decimal port.toNat) = some (requestFor host port) := by
  have positive : ¬((host.take 255).length : Int) < 0 := by omega
  have copied : host.take (host.take 255).length = host.take 255 := by
    rw [List.length_take, List.take_eq_take_iff]
    omega
  have counted : UInt8.ofInt ((host.take 255).length : Int) =
      UInt8.ofNat (host.take 255).length := by
    have value : (((host.take 255).length : Int) % 2 ^ 8).toNat = (host.take 255).length := by
      have := List.length_take_le 255 host
      omega
    rw [UInt8.ofInt, value]
  unfold connectRequest requestFor
  simp only [len, if_neg positive, Int.toNat_natCast, copied, counted, port_text]
  rw [port_high, port_low]

theorem requestFor_length (host : Bytes) (port : UInt16) :
    (requestFor host port).length = (host.take 255).length + 7 := by
  simp [requestFor]

theorem toInt_length (n : Nat) :
    toInt n = if n % 2 ^ 32 < 2 ^ 31 then (n % 2 ^ 32 : Int) else n % 2 ^ 32 - 2 ^ 32 := by
  unfold toInt
  rw [Int.bmod_eq_emod]
  split <;> split <;> omega

/-- The int is that of a shorter host, or negative. -/
theorem connectRequest_short {host port request : Bytes}
    (taken : connectRequest host port = some request) (short : toInt host.length < 255) :
    request.length < 262 := by
  unfold connectRequest at taken
  have small : ¬toInt host.length > 255 := by omega
  simp only [if_neg small] at taken
  split at taken
  · cases taken
  · cases taken
    simp only [List.length_append, List.length_cons, List.length_nil, List.length_take]
    omega

theorem connectRequest_iff (host : Bytes) (port : UInt16) :
    connectRequest host (decimal port.toNat) = some (requestFor host port) ↔ Counted host := by
  have value := toInt_length host.length
  have cut : (host.take 255).length = min 255 host.length := List.length_take
  constructor
  · intro taken
    refine Classical.byContradiction fun uncounted => ?_
    obtain ⟨long, wrong⟩ := not_or.mp uncounted
    have short : toInt host.length < 255 := by
      rw [value]
      split <;> omega
    have bound := connectRequest_short taken short
    rw [requestFor_length] at bound
    omega
  · intro counted
    refine connectRequest_of_len host port ?_
    rw [value, cut]
    unfold Counted at counted
    split <;> split <;> omega

/-! ## The handshake -/

variable {charSigned : Bool} {host : Bytes} {port : UInt16} {rsv high low : UInt8}
  {address : Address} {payload : Bytes}
  {sockd : Socket}

/-- The proxy accepts the method, and the rest is the request and its reply. -/
theorem socks5Negotiate_replies (charSigned : Bool) (stack : Nat → UInt8) (host text : Bytes)
    (next : sockd.stream = replies rsv address high low ++ payload) :
    ∃ r : Reader, r.sock.stream = [0x05, 0x00, rsv] ++ (address.text ++ [high, low]) ++ payload ∧
      socks5Negotiate charSigned stack host text sockd =
        (connectRequest host text).map fun request =>
        ⟨[greeting, request], (readReply charSigned stack r).1,
          (readReply charSigned stack r).2⟩ := by
  have stream : (Reader.mk sockd 0).sock.stream =
      0x05 :: 0x00 :: ([0x05, 0x00, rsv] ++ (address.text ++ [high, low]) ++ payload) := by
    rw [next]
    simp [replies]
  obtain ⟨first, read, behindVersion⟩ := recvByte_cons charSigned stack _ _ _ stream
  obtain ⟨r, readMethod, behindMethod⟩ := recvByte_cons charSigned stack first _ _ behindVersion
  have version : charInt charSigned 0x05 = 0x05 := charInt_small charSigned _ (by decide)
  have method : charInt charSigned 0x00 = 0x00 := charInt_small charSigned _ (by decide)
  refine ⟨r, behindMethod, ?_⟩
  unfold socks5Negotiate
  simp only [read, readMethod, version, method, ne_eq, not_true_eq_false, if_false]

/-- The reply is read to its end when the int has the length of the name. -/
theorem readReply_whole (stack : Nat → UInt8) {r : Reader}
    (next : r.sock.stream = [0x05, 0x00, rsv] ++ (address.text ++ [high, low]) ++ payload)
    (held : ¬(charSigned = true ∧ LongName address)) :
    ∃ later, readReply charSigned stack r = (true, later) ∧ later.sock.stream = payload := by
  cases address with
  | ipv4 a b c d => exact readReply_ipv4 charSigned stack r rsv a b c d high low payload next
  | domain name short =>
    have byte : (UInt8.ofNat name.length).toNat = name.length :=
      UInt8.toNat_ofNat_of_lt' (show name.length < 2 ^ 8 by omega)
    have counted : charInt charSigned (UInt8.ofNat name.length) = name.length := by
      cases charSigned with
      | false => exact congrArg Nat.cast byte
      | true =>
        have small : name.length < 128 := Nat.lt_of_not_le fun long => held ⟨rfl, long⟩
        rw [charInt_small true _ (by omega), byte]
    obtain ⟨later, taken, stream⟩ := readReply_domain charSigned stack r rsv high low name payload
      short next (by omega)
    refine ⟨later, taken, ?_⟩
    rw [stream, counted, Int.toNat_natCast, List.drop_length_add_append]
    rfl

/-- Nothing of a long name is read as a name. -/
theorem readReply_long (stack : Nat → UInt8) {r : Reader}
    (next : r.sock.stream = [0x05, 0x00, rsv] ++ (address.text ++ [high, low]) ++ payload)
    (long : LongName address) : (readReply true stack r).2.sock.stream ≠ payload := by
  cases address with
  | ipv4 a b c d => exact absurd long not_false
  | domain name short =>
    have byte : (UInt8.ofNat name.length).toNat = name.length :=
      UInt8.toNat_ofNat_of_lt' (show name.length < 2 ^ 8 by omega)
    have negative := charInt_large (UInt8.ofNat name.length) (by rw [byte]; exact long)
    obtain ⟨later, taken, stream⟩ := readReply_domain true stack r rsv high low name payload
      short next (by omega)
    intro same
    rw [taken] at same
    have lengths := congrArg List.length (stream.symm.trans same)
    simp only [List.length_drop, List.length_append, List.length_cons, List.length_nil] at lengths
    have long : 128 ≤ name.length := long
    omega

theorem Negotiates.held
    (negotiates : Negotiates charSigned host port rsv address high low payload) :
    Counted host ∧ ¬(charSigned = true ∧ LongName address) := by
  have stream :
      (Socket.mk [replies rsv address high low ++ payload] (by simp [replies]) false).stream =
      replies rsv address high low ++ payload := List.append_nil _
  obtain ⟨n, taken, sent, _, left⟩ := negotiates (fun _ => 0) _ stream
  obtain ⟨r, next, split⟩ :=
    socks5Negotiate_replies charSigned (fun _ => 0) host (decimal port.toNat) stream
  rw [taken] at split
  obtain ⟨request, requested, rfl⟩ := Option.map_eq_some_iff.mp split.symm
  obtain rfl : request = requestFor host port := (List.cons.inj (List.cons.inj sent).2).1
  refine ⟨(connectRequest_iff host port).mp requested, ?_⟩
  rintro ⟨rfl, long⟩
  exact readReply_long _ next long left

/-- The replies are read to their end, and no further, exactly when the int has the length of
the name. -/
theorem handshake_iff (charSigned : Bool) (host : Bytes) (port : UInt16) (rsv : UInt8)
    (address : Address) (high low : UInt8) (payload : Bytes) :
    Negotiates charSigned host port rsv address high low payload ↔
      Counted host ∧ ¬(charSigned = true ∧ LongName address) := by
  refine ⟨Negotiates.held, ?_⟩
  rintro ⟨counted, held⟩ stack sockd stream
  obtain ⟨r, next, split⟩ :=
    socks5Negotiate_replies charSigned stack host (decimal port.toNat) stream
  obtain ⟨later, taken, left⟩ := readReply_whole stack next held
  rw [(connectRequest_iff host port).mpr counted, Option.map_some, taken] at split
  exact ⟨_, split, rfl, rfl, left⟩

/-- A proxy with a name of 128 characters, where char is signed. -/
theorem long_name_misread :
    ¬Negotiates true (ascii "pool.example.com") 3333 0 (.domain (List.replicate 128 0x61) (by simp))
      0x1f 0x90
      (ascii "hello") := by
  intro negotiates
  have long : 128 ≤ (List.replicate 128 (0x61 : UInt8)).length := by rw [List.length_replicate]
  exact negotiates.held.2 ⟨rfl, long⟩

end CgminerT4.Guarantees.SocksHandshake
