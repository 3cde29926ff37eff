import CgminerT4.Library.InetText
import CgminerT4.Source.PoolControl

/-!
# The access list of the API (api.c)

setup_ipaccess reads --api-allow into a table of masked addresses, and check_connect looks
for the address of a client in it. The slot behind the table keeps what an entry wrote
before it was skipped. Log messages are left out.
-/
namespace CgminerT4.Source.IpAccess
open Library.ByteString Library.InetText
open PoolControl (atoi)

abbrev In6Addr := Address

structure IPACCESS where
  ip : In6Addr
  mask : In6Addr
  group : UInt8

/-! ## Groups -/

def toupper (c : UInt8) : UInt8 := if 0x61 ≤ c ∧ c ≤ 0x7a then c - 0x20 else c
def isalpha (c : UInt8) : Bool := 0x41 ≤ toupper c && toupper c ≤ 0x5a

def privgroup : UInt8 := 0x57
def noprivgroup : UInt8 := 0x52

section
variable (commands : UInt8 → Option Bytes)

/-- `commands` is apigroups, under the capital letters. -/
def definedgroup (g : UInt8) : Bool := toupper g = privgroup || (commands (toupper g)).isSome

/-- The group of an entry, and the entry behind it. -/
def entryGroup (ptr : Bytes) : UInt8 × Bytes :=
  match ptr with
  | g :: c :: rest =>
    if isalpha g ∧ c = colon then (if definedgroup commands g then toupper g else noprivgroup,
      rest) else (noprivgroup, ptr)
  | _ => (noprivgroup, ptr)

/-! ## Masks -/

/-- One bit: the mask, the byte and the place in it. -/
def maskStep (s : In6Addr × Nat × Nat) : In6Addr × Nat × Nat :=
  (fun j => if (j : Nat) = s.2.1 then s.1 j ||| UInt8.ofNat (1 <<< s.2.2) else s.1 j,
    if s.2.2 = 0 then (s.2.1 + 1, 7) else (s.2.1, s.2.2 - 1))

def maskBits (mask : Nat) : In6Addr := (maskStep^[mask] (fun _ => 0, 0, 7)).1

/-- What follows from the number behind a slash: no result where the sum does not fit an int. -/
inductive MaskCheck where
  | undefined
  | ignored
  | bits (mask : Nat)
  deriving DecidableEq

def checkMask (ipv6 : Bool) (slash : Bytes) : MaskCheck :=
  let mask := atoi slash
  if mask < 1 then .ignored
  else if ipv6 then if mask > 128 then .ignored else .bits mask.toNat
  else if mask + 96 > 2 ^ 31 - 1 then .undefined
  else if mask + 96 > 128 then .ignored
  else .bits (mask + 96).toNat

/-! ## Entries -/

def slashChar : UInt8 := 0x2f
def allip : Bytes := [0x30, slashChar, 0x30]

/-- `strchr(text, '.')`, and the text behind it. -/
def behindDot (text : Bytes) : Option Bytes :=
  if dot ∈ text then some ((text.dropWhile (· ≠ dot)).drop 1) else none

/-- A ".0" for each octet that is missing. -/
def missing (ptr : Bytes) : Bytes :=
  match behindDot ptr with
  | none => [dot, 0x30, dot, 0x30, dot, 0x30]
  | some rest =>
    match behindDot rest with
    | none => [dot, 0x30, dot, 0x30]
    | some rest =>
      match behindDot rest with
      | none => [dot, 0x30]
      | some _ => []

/-- The v4 mapped address, as snprintf writes it into tmp. -/
def mappedTmp (ptr : Bytes) : Bytes := (mappedText ++ ptr ++ missing ptr).take 63

/-- The text up to a slash. -/
def addrOf (ptr : Bytes) : Bytes := ptr.takeWhile (· ≠ slashChar)

/-- The text between square brackets. -/
def bracketed (addr : Bytes) : Option Bytes :=
  if addr.head? = some 0x5b ∧ addr.getLast? = some 0x5d then some ((addr.drop 1).dropLast) else none

/-- What inet_pton gets to read. -/
def addressText (addr : Bytes) : Bytes :=
  match bracketed addr with
  | some text => text
  | none => mappedTmp addr

/-- The address is read, and masked. -/
def setIp (slot : IPACCESS) (addr : Bytes) : IPACCESS × Bool :=
  match inetPton6 (addressText addr) with
  | none => ({ slot with ip := fun _ => 0 }, false)
  | some ip => ({ slot with ip := fun j => ip j &&& slot.mask j }, true)

def setAddress (slot : IPACCESS) (ptr : Bytes) : Option (IPACCESS × Bool) :=
  if ptr = allip then some ({ slot with ip := fun _ => 0, mask := fun _ => 0 }, true)
  else
    let addr := addrOf ptr
    match ptr.dropWhile (· ≠ slashChar) with
    | [] => some (setIp { slot with mask := fun _ => 0xff } addr)
    | _ :: slash =>
      match checkMask (bracketed addr).isSome slash with
      | .undefined => none
      | .ignored => some (slot, false)
      | .bits mask => some (setIp { slot with mask := maskBits mask } addr)

/-- The slot after an entry, and whether the entry stays; none where an int overflows. -/
def setEntry (slot : IPACCESS) (ptr : Bytes) : Option (IPACCESS × Bool) :=
  setAddress { slot with group := (entryGroup commands ptr).1 } (entryGroup commands ptr).2

def blank (c : UInt8) : Bool := c = 0x20 || c = 0x09
def comma : UInt8 := 0x2c

def zeroSlot : IPACCESS := ⟨fun _ => 0, fun _ => 0, 0⟩

/-- What is behind the first mark is shorter. -/
theorem behind_shorter (text rest : Bytes) (among : rest.length ≤ text.length) (left : rest ≠ []) :
    (rest.drop 1).length < text.length := by
  have pieces := List.length_pos_iff.mpr left
  rw [List.length_drop]
  omega

/-- The rest of the string, the table and the slot behind it. -/
def setupLoop (ptr : Bytes) (ipaccess : List IPACCESS) (slot : IPACCESS) : Option (List IPACCESS) :=
  if ptr = [] then some ipaccess
  else
    if _ : (ptr.dropWhile blank).head? = some comma then setupLoop ((ptr.dropWhile blank).drop 1)
      ipaccess slot
    else
      match setEntry commands slot ((ptr.dropWhile blank).takeWhile (· ≠ comma)) with
      | none => none
      | some (slot, kept) =>
        let ips := if kept then ipaccess ++ [slot] else ipaccess
        if _ : (ptr.dropWhile blank).dropWhile (· ≠ comma) = [] then some ips
        else
          setupLoop (((ptr.dropWhile blank).dropWhile (· ≠ comma)).drop 1) ips
            (if kept then zeroSlot else slot)
termination_by ptr.length
decreasing_by
  · rename_i mark
    refine behind_shorter _ _ (List.dropWhile_sublist _).length_le fun none => ?_
    rw [none] at mark
    cases mark
  · exact behind_shorter _ _ ((List.dropWhile_sublist _).trans
      (List.dropWhile_sublist _)).length_le ‹_›

def setupIpaccess (optApiAllow : Bytes) : Option (List IPACCESS) :=
  setupLoop commands optApiAllow [] zeroSlot

end

/-! ## Clients -/

/-- The address of a client; an IPv6 address can be that of a zone. -/
inductive Sockaddr where
  | inet (addr : Fin 4 → UInt8)
  | inet6 (addr : In6Addr) (zone : Bytes)

def percent : UInt8 := 0x25

/-- What getnameinfo writes for NI_NUMERICHOST: a text that inet_pton reads as the address,
and the zone behind it. -/
def Numeric : Sockaddr → Bytes → Prop
  | .inet addr, host => quad host = some (List.ofFn addr)
  | .inet6 addr zone, host =>
    ∃ text, inetPton6 text = some addr ∧ host = if zone = [] then text else text ++ percent :: zone

structure Client where
  cli : Sockaddr
  connectaddr : Bytes
  numeric : Numeric cli connectaddr

def localaddr : Bytes := ascii "127.0.0.1"
def loopback : In6Addr := fun j => if j = 15 then 1 else 0

/-- `stack` is what client_ip holds when it is not set. -/
def clientIp (stack : In6Addr) (client : Client) : In6Addr :=
  match client.cli with
  | .inet _ => (inetPton6 (mappedText ++ client.connectaddr)).getD stack
  | .inet6 _ _ => (inetPton6 client.connectaddr).getD stack

/-- The address is compared byte by byte under the mask. -/
def matchEntry (ip : In6Addr) (entry : IPACCESS) : Bool := ∀ j, ip j &&& entry.mask j = entry.ip j

/-- addrok and the group. -/
def checkConnect (optApiAllow : Option Bytes) (optApiNetwork : Bool) (ipaccess : List IPACCESS)
    (stack : In6Addr) (client : Client) : Bool × UInt8 :=
  let ip := clientIp stack client
  match optApiAllow with
  | some _ =>
    match ipaccess.find? (matchEntry ip) with
    | some entry => (true, entry.group)
    | none => (false, noprivgroup)
  | none =>
    (optApiNetwork || client.connectaddr = localaddr || decide (∀ j, ip j = loopback j),
      noprivgroup)

end CgminerT4.Source.IpAccess
