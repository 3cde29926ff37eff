import CgminerT4.Library.JsonText
import Mathlib.Data.Rat.Defs

/-!
# Replies of the API (api.c)

A reply is built in one buffer, as text or as JSON, by pieces that only belong
together: a message, the records of a command, the frame of a joined command and
the end that `send_result` adds. Floating point numbers are any type with the
operations that the miner uses; a string that C holds as NULL is `none`.
-/
namespace CgminerT4.Source.ApiReply
open Library.ByteString
open Library.JsonText (quote backslash comma colon openBracket closeBracket openBrace closeBrace)

def separator : UInt8 := 0x7c
def cmdjoin : UInt8 := 0x2b
def equals : UInt8 := 0x3d

/-! ## io_data -/

structure Io where
  text : Bytes
  close : Bool

def ioReinit : Io := ⟨[], false⟩

def ioAdd (io : Io) (buf : Bytes) : Io := { io with text := io.text ++ buf }

def ioPut (buf : Bytes) : Io := ioAdd ioReinit buf

def ioClose (io : Io) : Io := { io with close := true }

def escapeString : Bytes → Bool → Bytes
  | [], _ => []
  | c :: str, isjson =>
    let escapes :=
      if c = comma ∨ c = separator ∨ c = equals then !isjson
      else if c = quote then isjson
      else c = backslash
    (if escapes then [backslash, c] else [c]) ++ escapeString str isjson

/-! ## Records -/

structure Timeval where
  sec : Int
  usec : Nat
  deriving Inhabited

/-- The arithmetic of `double` and `float`, and the conversion %.nf. -/
class Floating (R : Type) where
  ofInt : Int → R
  add : R → R → R
  mul : R → R → R
  div : R → R → R
  single : R → R
  isZero : R → Bool
  lt : R → R → Bool
  tdiff : Timeval → Timeval → R
  fixed : Nat → R → Bytes

/-- The data of a record by the conversion that prints it. -/
inductive Datum (R : Type) where
  | string (data : Option Bytes)
  | escape (data : Option Bytes)
  | integer (data : Int)
  | bool (data : Bool)
  | timeval (data : Timeval)
  | fixed (decimals : Nat) (data : R)

structure ApiData (R : Type) where
  name : Bytes
  data : Datum R

def quoted (isjson : Bool) (s : Bytes) : Bytes := if isjson then quote :: (s ++ [quote]) else s

/-- The conversion %06ld. -/
def sixDigits (n : Nat) : Bytes := List.replicate (6 - (decimal n).length) 0x30 ++ decimal n

/-- The conversion %.nf of an exact number, rounded to even. -/
def fixedText (decimals : Nat) (q : ℚ) : Bytes :=
  let scaled : ℚ := (if q < 0 then -q else q) * 10 ^ decimals
  let low : Nat := scaled.floor.toNat
  let rest : ℚ := scaled - (low : ℚ)
  let n : Nat := if rest > 1 / 2 ∨ (rest = 1 / 2 ∧ low % 2 = 1) then low + 1 else low
  let fraction := decimal (n % 10 ^ decimals : Nat)
  (if q < 0 then ascii "-" else []) ++ decimal (n / 10 ^ decimals : Nat) ++
    if decimals = 0 then [] else ascii "." ++ List.replicate (decimals - fraction.length)
      0x30 ++ fraction

/-- Exact numbers. -/
instance : Floating ℚ where
  ofInt n := n
  add x y := x + y
  mul x y := x * y
  div x y := x / y
  single x := x
  isZero x := x = 0
  lt x y := x < y
  tdiff later earlier :=
    (later.sec - earlier.sec : ℤ) + ((later.usec : ℤ) - earlier.usec : ℤ) / 1000000
  fixed := fixedText

def nullstr : Bytes := ascii "(null)"

/-- Numbers are printed into 64 bytes. -/
def dataText {R : Type} [Floating R] (isjson : Bool) : Datum R → Bytes
  | .string data => quoted isjson (data.getD nullstr)
  | .escape none => quoted isjson nullstr
  | .escape (some data) => quoted isjson (escapeString data isjson)
  | .integer data => decimal data
  | .bool data => if data then ascii "true" else ascii "false"
  | .timeval data => (decimal data.sec ++ ascii "." ++ sixDigits data.usec).take 63
  | .fixed decimals data => (Floating.fixed decimals data).take 63

def fieldText {R : Type} [Floating R] (isjson : Bool) (field : ApiData R) : Bytes :=
  quoted isjson field.name ++ [if isjson then colon else equals] ++ dataText isjson field.data

def fieldsText {R : Type} [Floating R] (isjson : Bool) : List (ApiData R) → Bytes
  | [] => []
  | [field] => fieldText isjson field
  | field :: next :: root => fieldText isjson field ++ comma :: fieldsText isjson (next :: root)

def printData {R : Type} [Floating R] (io : Io) (root : List (ApiData R))
    (isjson precom : Bool) : Io :=
  ioAdd io ((if precom then [comma] else []) ++ (if isjson then [openBrace] else []) ++
    fieldsText isjson root ++
    [if isjson then closeBrace else separator])

/-! ## Messages -/

inductive Severity where
  | err
  | warn
  | info
  | succ

inductive Params where
  | asc
  | pid
  | ascmax
  | pmax
  | poolmax
  | dmax
  | cmd
  | pool
  | str
  | both
  | bool
  | set
  | int
  | none

structure CODE where
  severity : Severity
  code : Nat
  params : Params
  description : Bytes

def msgPool : Nat := 7
def msgNopool : Nat := 8
def msgDevs : Nat := 9
def msgNodevs : Nat := 10
def msgSumm : Nat := 11
def msgInvcmd : Nat := 14
def msgMisid : Nat := 15
def msgVersion : Nat := 22
def msgInvjson : Nat := 23
def msgMiscmd : Nat := 24
def msgMispid : Nat := 25
def msgInvpid : Nat := 26
def msgSwitchp : Nat := 27
def msgMineconfig : Nat := 33
def msgMisfn : Nat := 42
def msgBadfn : Nat := 43
def msgSaved : Nat := 44
def msgAccdeny : Nat := 45
def msgAccok : Nat := 46
def msgEnapool : Nat := 47
def msgDispool : Nat := 48
def msgAlrenap : Nat := 49
def msgAlrdisp : Nat := 50
def msgDislastp : Nat := 51
def msgMispdp : Nat := 52
def msgInvpdp : Nat := 53
def msgToomanyp : Nat := 54
def msgAddpool : Nat := 55
def msgNumpga : Nat := 59
def msgNotify : Nat := 60
def msgRemlastp : Nat := 66
def msgActpool : Nat := 67
def msgRempool : Nat := 68
def msgDevdetails : Nat := 69
def msgMinestats : Nat := 70
def msgMischk : Nat := 71
def msgCheck : Nat := 72
def msgPoolprio : Nat := 73
def msgDuppid : Nat := 74
def msgMisbool : Nat := 75
def msgInvbool : Nat := 76
def msgFoo : Nat := 77
def msgMinecoin : Nat := 78
def msgDebugset : Nat := 79
def msgSetconfig : Nat := 82
def msgUnkcon : Nat := 83
def msgInvnum : Nat := 84
def msgConpar : Nat := 85
def msgConval : Nat := 86
def msgUsbsta : Nat := 87
def msgNousta : Nat := 88
def msgZermis : Nat := 94
def msgZerinv : Nat := 95
def msgZersum : Nat := 96
def msgZernosum : Nat := 97
def msgInvhplg : Nat := 99
def msgHotplug : Nat := 100
def msgDishplg : Nat := 101
def msgNohplg : Nat := 102
def msgMishplg : Nat := 103
def msgNumasc : Nat := 104
def msgAscnon : Nat := 105
def msgAscdev : Nat := 106
def msgInvasc : Nat := 107
def msgAsclrena : Nat := 108
def msgAsclrdis : Nat := 109
def msgAscena : Nat := 110
def msgAscdis : Nat := 111
def msgAscunw : Nat := 112
def msgAscident : Nat := 113
def msgAscnoid : Nat := 114
def msgMisascopt : Nat := 116
def msgAscnoset : Nat := 117
def msgAschelp : Nat := 118
def msgAscsetok : Nat := 119
def msgAscseterr : Nat := 120
def msgInvneg : Nat := 121
def msgSetquota : Nat := 122
def msgLockok : Nat := 123
def msgLockdis : Nat := 124
def msgLcd : Nat := 125
def msgMinedebug : Nat := 126
def msgDeprecated : Nat := 127

/-- The table of a build for ASICs without FPGAs and USB. -/
def codes : List CODE :=
  [⟨.succ, msgPool, .pmax, ascii "%d Pool(s)"⟩,
    ⟨.err, msgNopool, .none, ascii "No pools"⟩,
    ⟨.succ, msgDevs, .dmax, ascii "%d ASC(s)"⟩,
    ⟨.err, msgNodevs, .none, ascii "No ASCs"⟩,
    ⟨.succ, msgSumm, .none, ascii "Summary"⟩,
    ⟨.err, msgInvcmd, .none, ascii "Invalid command"⟩,
    ⟨.err, msgMisid, .none, ascii "Missing device id parameter"⟩,
    ⟨.succ, msgNumpga, .none, ascii "PGA count"⟩,
    ⟨.succ, msgNumasc, .none, ascii "ASC count"⟩,
    ⟨.succ, msgVersion, .none, ascii "CGMiner versions"⟩,
    ⟨.err, msgInvjson, .none, ascii "Invalid JSON"⟩,
    ⟨.err, msgMiscmd, .cmd, ascii "Missing JSON '%s'"⟩,
    ⟨.err, msgMispid, .none, ascii "Missing pool id parameter"⟩,
    ⟨.err, msgInvpid, .poolmax, ascii "Invalid pool id %d - range is 0 - %d"⟩,
    ⟨.succ, msgSwitchp, .pool, ascii "Switching to pool %d:'%s'"⟩,
    ⟨.succ, msgMineconfig, .none, ascii "CGMiner config"⟩,
    ⟨.err, msgMisfn, .none, ascii "Missing save filename parameter"⟩,
    ⟨.err, msgBadfn, .str, ascii "Can't open or create save file '%s'"⟩,
    ⟨.succ, msgSaved, .str, ascii "Configuration saved to file '%s'"⟩,
    ⟨.err, msgAccdeny, .str, ascii "Access denied to '%s' command"⟩,
    ⟨.succ, msgAccok, .none, ascii "Privileged access OK"⟩,
    ⟨.succ, msgEnapool, .pool, ascii "Enabling pool %d:'%s'"⟩,
    ⟨.succ, msgPoolprio, .none, ascii "Changed pool priorities"⟩,
    ⟨.err, msgDuppid, .pid, ascii "Duplicate pool specified %d"⟩,
    ⟨.succ, msgDispool, .pool, ascii "Disabling pool %d:'%s'"⟩,
    ⟨.info, msgAlrenap, .pool, ascii "Pool %d:'%s' already enabled"⟩,
    ⟨.info, msgAlrdisp, .pool, ascii "Pool %d:'%s' already disabled"⟩,
    ⟨.err, msgDislastp, .pool, ascii "Cannot disable last active pool %d:'%s'"⟩,
    ⟨.err, msgMispdp, .none, ascii "Missing addpool details"⟩,
    ⟨.err, msgInvpdp, .str, ascii "Invalid addpool details '%s'"⟩,
    ⟨.err, msgToomanyp, .none, ascii "Reached maximum number of pools (%d)"⟩,
    ⟨.succ, msgAddpool, .pool, ascii "Added pool %d: '%s'"⟩,
    ⟨.err, msgRemlastp, .pool, ascii "Cannot remove last pool %d:'%s'"⟩,
    ⟨.err, msgActpool, .pool, ascii "Cannot remove active pool %d:'%s'"⟩,
    ⟨.succ, msgRempool, .both, ascii "Removed pool %d:'%s'"⟩,
    ⟨.succ, msgNotify, .none, ascii "Notify"⟩,
    ⟨.succ, msgDevdetails, .none, ascii "Device Details"⟩,
    ⟨.succ, msgMinestats, .none, ascii "CGMiner stats"⟩,
    ⟨.err, msgMischk, .none, ascii "Missing check cmd"⟩,
    ⟨.succ, msgCheck, .none, ascii "Check command"⟩,
    ⟨.err, msgMisbool, .none, ascii "Missing parameter: true/false"⟩,
    ⟨.err, msgInvbool, .none, ascii "Invalid parameter should be true or false"⟩,
    ⟨.succ, msgFoo, .bool, ascii "Failover-Only set to %s"⟩,
    ⟨.succ, msgMinecoin, .none, ascii "CGMiner coin"⟩,
    ⟨.succ, msgDebugset, .none, ascii "Debug settings"⟩,
    ⟨.succ, msgSetconfig, .set, ascii "Set config '%s' to %d"⟩,
    ⟨.err, msgUnkcon, .str, ascii "Unknown config '%s'"⟩,
    ⟨.err, msgDeprecated, .str, ascii "Deprecated config option '%s'"⟩,
    ⟨.err, msgInvnum, .both, ascii "Invalid number (%d) for '%s' range is 0-9999"⟩,
    ⟨.err, msgInvneg, .both, ascii "Invalid negative number (%d) for '%s'"⟩,
    ⟨.succ, msgSetquota, .set, ascii "Set pool '%s' to quota %d'"⟩,
    ⟨.err, msgConpar, .none, ascii "Missing config parameters 'name,N'"⟩,
    ⟨.err, msgConval, .str, ascii "Missing config value N for '%s,N'"⟩,
    ⟨.succ, msgUsbsta, .none, ascii "USB Statistics"⟩,
    ⟨.info, msgNousta, .none, ascii "No USB Statistics"⟩,
    ⟨.err, msgZermis, .none, ascii "Missing zero parameters"⟩,
    ⟨.err, msgZerinv, .str, ascii "Invalid zero parameter '%s'"⟩,
    ⟨.succ, msgZersum, .str, ascii "Zeroed %s stats with summary"⟩,
    ⟨.succ, msgZernosum, .str, ascii "Zeroed %s stats without summary"⟩,
    ⟨.err, msgInvhplg, .str, ascii "Invalid value for hotplug (%s) must be 0..9999"⟩,
    ⟨.succ, msgHotplug, .int, ascii "Hotplug check set to %ds"⟩,
    ⟨.succ, msgDishplg, .none, ascii "Hotplug disabled"⟩,
    ⟨.warn, msgNohplg, .none, ascii "Hotplug is not available"⟩,
    ⟨.err, msgMishplg, .none, ascii "Missing hotplug parameter"⟩,
    ⟨.err, msgAscnon, .none, ascii "No ASCs"⟩,
    ⟨.succ, msgAscdev, .asc, ascii "ASC%d"⟩,
    ⟨.err, msgInvasc, .ascmax, ascii "Invalid ASC id %d - range is 0 - %d"⟩,
    ⟨.info, msgAsclrena, .asc, ascii "ASC %d already enabled"⟩,
    ⟨.info, msgAsclrdis, .asc, ascii "ASC %d already disabled"⟩,
    ⟨.info, msgAscena, .asc, ascii "ASC %d sent enable message"⟩,
    ⟨.info, msgAscdis, .asc, ascii "ASC %d set disable flag"⟩,
    ⟨.err, msgAscunw, .asc, ascii "ASC %d is not flagged WELL, cannot enable"⟩,
    ⟨.succ, msgAscident, .asc, ascii "Identify command sent to ASC%d"⟩,
    ⟨.warn, msgAscnoid, .asc, ascii "ASC%d does not support identify"⟩,
    ⟨.err, msgMisascopt, .none, ascii "Missing option after ASC number"⟩,
    ⟨.warn, msgAscnoset, .asc, ascii "ASC %d does not support ascset"⟩,
    ⟨.info, msgAschelp, .both, ascii "ASC %d set help: %s"⟩,
    ⟨.succ, msgAscsetok, .both, ascii "ASC %d set OK"⟩,
    ⟨.err, msgAscseterr, .both, ascii "ASC %d set failed: %s"⟩,
    ⟨.succ, msgLcd, .none, ascii "LCD"⟩,
    ⟨.succ, msgLockok, .none, ascii "Lock stats created"⟩,
    ⟨.warn, msgLockdis, .none, ascii "Lock stats not enabled"⟩]

/-- `sprintf` for %d and %s, with its arguments as text. -/
def sprintf : Bytes → List Bytes → Bytes
  | [], _ => []
  | [c], _ => [c]
  | c :: d :: format, args =>
    if c = 0x25 then args.headD [] ++ sprintf format args.tail
    else c :: sprintf (d :: format) args

/-- What a message reads of the miner. -/
structure Desk where
  time : Nat
  totalPools : Nat
  numascs : Nat
  poolUrl : Int → Option Bytes
  optApiDescription : Option Bytes

def tmpbufsiz : Nat := 8192

/-- A text with a string of any length: it has no result when the string is NULL
or the buffer is too small. -/
def stringText (description : Bytes) (args : Bytes → List Bytes) (str : Option Bytes) :
    Option Bytes :=
  (str.map fun str => sprintf description (args str)).filter fun buf => buf.length < tmpbufsiz

def messageText (desk : Desk) (code : CODE) (paramid : Int) (param2 : Option Bytes) :
    Option Bytes :=
  match code.params with
  | .asc | .pid | .int => some (sprintf code.description [decimal paramid])
  | .pool => stringText code.description (fun url => [decimal paramid, url]) (desk.poolUrl paramid)
  | .ascmax => some (sprintf code.description [decimal paramid, decimal (desk.numascs - 1)])
  | .pmax => some (sprintf code.description [decimal desk.totalPools])
  | .poolmax => some (sprintf code.description [decimal paramid, decimal (desk.totalPools - 1)])
  | .dmax => some (sprintf code.description [decimal desk.numascs])
  | .cmd => some (sprintf code.description [ascii "command"])
  | .str => stringText code.description (fun str => [str]) param2
  | .both => stringText code.description (fun str => [decimal paramid, str]) param2
  | .bool => some (sprintf code.description [if paramid ≠ 0 then ascii "true" else ascii "false"])
  | .set => stringText code.description (fun str => [str, decimal paramid]) param2
  | .none => some code.description

def severityText : Severity → Bytes
  | .warn => ascii "W"
  | .info => ascii "I"
  | .succ => ascii "S"
  | .err => ascii "E"

def statusRecord (R : Type) (desk : Desk) (severity : Bytes) (code : Int) (msg : Bytes) :
    List (ApiData R) :=
  [⟨ascii "STATUS", .string severity⟩, ⟨ascii "When", .integer desk.time⟩,
    ⟨ascii "Code", .integer code⟩, ⟨ascii "Msg", .escape msg⟩,
    ⟨ascii "Description", .escape desk.optApiDescription⟩]

/-- JSON1 name JSON2 -/
def jsonSection (name : Bytes) : Bytes := quote :: (name ++ [quote, colon, openBracket])

def message (R : Type) [Floating R] (desk : Desk) (io : Io) (messageid : Nat) (paramid : Int)
    (param2 : Option Bytes) (isjson : Bool) : Option Io :=
  let io := if isjson then ioAdd io (openBrace :: jsonSection (ascii "STATUS")) else io
  let record :=
    match codes.find? fun code => code.code = messageid with
    | some code =>
      (messageText desk code paramid param2).map fun buf =>
        statusRecord R desk (severityText code.severity) messageid buf
    | none => some (statusRecord R desk (ascii "F") (-1) (decimal messageid))
  record.map fun root =>
    let io := printData io root isjson false
    if isjson then ioAdd io [closeBracket] else io

/-! ## Joined commands -/

def headJoin (io : Io) (cmdptr : Bytes) (isjson firstjoin : Bool) : Io :=
  let name := escapeString cmdptr isjson
  if isjson then ioAdd io ((if firstjoin then [openBrace] else [comma]) ++ jsonSection name)
  else ioAdd io (ascii "CMD=" ++ name ++ [separator])

/-- JSON4 JSON5 -/
def jsonEnd : Bytes := ascii ",\"id\":1\x7d"

def tailJoin (io : Io) (isjson : Bool) : Io :=
  let io := if io.close then { ioAdd io [closeBracket] with close := false } else io
  if isjson then ioAdd io (jsonEnd ++ [closeBracket]) else io

/-- The reply that is sent, which stays in the buffer. -/
def sendResult (io : Io) (isjson : Bool) : Io :=
  let io := if io.close then ioAdd io [closeBracket] else io
  if isjson then ioAdd io jsonEnd else io

end CgminerT4.Source.ApiReply
