import CgminerT4.Source.ApiReports

/-!
# The API server (api.c)

The command table, the access of a group, and the loop of `api` from the bytes
that recv leaves in the buffer to the replies that are sent. jansson's parser is
the parameter `jsonLoadb`; the handlers of the commands in write mode are the
parameter `writeHandler`. A request that arrives has no NUL before its end.
-/
namespace CgminerT4.Source.ApiServer
open Library Library.ByteString Jansson ApiReply ApiReports

/-! ## Commands -/

/-- The handlers that the table points to. -/
inductive Func where
  | apiversion | minerconfig | devstatus | edevstatus | poolstatus | summary | pgacount | switchpool | addpool
  | poolpriority | poolquota | enablepool | disablepool | removepool | dosave | doquit | privileged | notify
  | devdetails | dorestart | minerstats | minerdebug | minerestats | checkcommand | failoveronly | minecoin
  | debugstate | setconfig | usbstats | dozero | dohotplug | ascdev | ascenable | ascdisable | ascidentify | ascset
  | asccount | lcddata | lockstats | fanmode | fanspd | powerdown
  deriving DecidableEq

structure CMDS where
  name : Bytes
  func : Func
  iswritemode : Bool
  joinable : Bool
  deriving DecidableEq

def cmds : List CMDS :=
  [⟨ascii "version", .apiversion, false, true⟩, ⟨ascii "config", .minerconfig, false, true⟩,
    ⟨ascii "devs", .devstatus, false, true⟩, ⟨ascii "edevs", .edevstatus, false, true⟩,
    ⟨ascii "pools", .poolstatus, false, true⟩, ⟨ascii "summary", .summary, false, true⟩,
    ⟨ascii "pgacount", .pgacount, false, true⟩, ⟨ascii "switchpool", .switchpool, true, false⟩,
    ⟨ascii "addpool", .addpool, true, false⟩, ⟨ascii "poolpriority", .poolpriority, true, false⟩,
    ⟨ascii "poolquota", .poolquota, true, false⟩, ⟨ascii "enablepool", .enablepool, true, false⟩,
    ⟨ascii "disablepool", .disablepool, true, false⟩,
    ⟨ascii "removepool", .removepool, true, false⟩, ⟨ascii "save", .dosave, true, false⟩,
    ⟨ascii "quit", .doquit, true, false⟩, ⟨ascii "privileged", .privileged, true, false⟩,
    ⟨ascii "notify", .notify, false, true⟩, ⟨ascii "devdetails", .devdetails, false, true⟩,
    ⟨ascii "restart", .dorestart, true, false⟩, ⟨ascii "stats", .minerstats, false, true⟩,
    ⟨ascii "dbgstats", .minerdebug, false, true⟩, ⟨ascii "estats", .minerestats, false, true⟩,
    ⟨ascii "check", .checkcommand, false, false⟩,
    ⟨ascii "failover-only", .failoveronly, true, false⟩, ⟨ascii "coin", .minecoin, false, true⟩,
    ⟨ascii "debug", .debugstate, true, false⟩, ⟨ascii "setconfig", .setconfig, true, false⟩,
    ⟨ascii "usbstats", .usbstats, false, true⟩, ⟨ascii "zero", .dozero, true, false⟩,
    ⟨ascii "hotplug", .dohotplug, true, false⟩, ⟨ascii "asc", .ascdev, false, false⟩,
    ⟨ascii "ascenable", .ascenable, true, false⟩, ⟨ascii "ascdisable", .ascdisable, true, false⟩,
    ⟨ascii "ascidentify", .ascidentify, true, false⟩, ⟨ascii "ascset", .ascset, true, false⟩,
    ⟨ascii "asccount", .asccount, false, true⟩, ⟨ascii "lcd", .lcddata, false, true⟩,
    ⟨ascii "lockstats", .lockstats, true, true⟩, ⟨ascii "fanmode", .fanmode, false, true⟩,
    ⟨ascii "fanspd", .fanspd, false, true⟩, ⟨ascii "powerdown", .powerdown, false, true⟩]

/-! ## Groups -/

/-- A group may use all commands, or those in a list "|cmd1|cmd2|". -/
inductive Group where
  | privgroup
  | listed (commands : Bytes)

/-- setup_groups: R is all commands that are not in write mode. -/
def noprivgroup : Group :=
  .listed (separator :: (cmds.filter fun cmd => !cmd.iswritemode).flatMap fun cmd =>
    cmd.name ++ [separator])

def cmdbuf (name : Bytes) : Bytes := separator :: (name ++ [separator])

/-- `ISPRIVGROUP(group) || strstr(COMMANDS(group), cmdbuf)` -/
def access : Group → Bytes → Bool
  | .privgroup, _ => true
  | .listed commands, name => cmdbuf name <:+: commands

section
variable {R : Type} [Floating R]

def checkcommand (group : Group) : Handler R := fun m param isjson io =>
  match param with
  | none | some [] => (message R (desk m) io msgMischk 0 none isjson).map fun io => (m, io)
  | some param =>
    let found := cmds.any fun cmd => cmd.name = param
    (report m io msgCheck (ascii "CHECK")
      [apiAddConst "Exists" (if found then yes else no),
        apiAddConst "Access" (if found && access group param then yes else no)]
      isjson).map fun io => (m, io)

variable (writeHandler : Func → Handler R)

def perform (group : Group) : Func → Handler R
  | .apiversion => apiversion
  | .minerconfig => minerconfig
  | .devstatus => devstatus
  | .edevstatus => edevstatus
  | .poolstatus => poolstatus
  | .summary => summary
  | .pgacount => pgacount
  | .notify => notify
  | .devdetails => devdetails
  | .minerstats => minerstats
  | .minerdebug => minerdebug
  | .minerestats => minerestats
  | .checkcommand => checkcommand group
  | .minecoin => minecoin
  | .usbstats => usbstats
  | .ascdev => ascdev
  | .asccount => asccount
  | .lcddata => lcddata
  | .fanmode => fanmode
  | .fanspd => fanspd
  | .powerdown => powerdown
  | func => writeHandler func

/-! ## Requests -/

/-- What a request asks for: a message about its form, or a command. -/
inductive Asked where
  | invalid (messageid : Nat)
  | command (cmd : Bytes) (param : Option Bytes)
  deriving DecidableEq

variable (jsonLoadb : Bytes → Option Json)

def isjson (buf : Bytes) : Bool := buf.head? = some JsonText.openBrace

/-- The parameter of a request in JSON. -/
def jsonParam (json : Option Json) : Option Bytes :=
  match jsonObjectGet json "parameter" with
  | some (.string param) => some param
  | some (.integer n) => some (decimal (toInt n))
  | some (.real q) => some (fixedText 6 q)
  | _ => none

def asked (buf : Bytes) : Asked :=
  if isjson buf then
    match jsonLoadb buf with
    | some (.object members) =>
      match jsonObjectGet (some (.object members)) "command" with
      | none => .invalid msgMiscmd
      | some (.string cmd) => .command cmd (jsonParam (some (.object members)))
      | some _ => .invalid msgInvcmd
    | _ => .invalid msgInvjson
  else
    .command (buf.takeWhile (· ≠ separator))
      (if separator ∈ buf then some ((buf.dropWhile (· ≠ separator)).drop 1) else none)

def findCommand (name : Bytes) : Option CMDS := cmds.find? fun cmd => cmd.name = name

/-- The handler of a command, or the denial. -/
def runCommand (group : Group) (cmd : CMDS) : Handler R := fun m param isjson io =>
  if access group cmd.name then perform writeHandler group cmd.func m param isjson io
  else (message R (desk m) io msgAccdeny 0 cmd.name isjson).map fun io => (m, io)

/-- A request that names one command. -/
def single (group : Group) (name : Bytes) : Handler R := fun m param isjson io =>
  match findCommand name with
  | some cmd => runCommand writeHandler group cmd m param isjson io
  | none => (message R (desk m) io msgInvcmd 0 none isjson).map fun io => (m, io)

/-- The state of the loop over joined commands. -/
structure Joining (R : Type) where
  miner : Miner R
  io : Io
  cmdsbuf : Bytes
  firstjoin : Bool

/-- One name of a joined request: an empty or a repeated one is passed over. -/
def joinStep (group : Group) (isjson : Bool) (s : Joining R) (name : Bytes) : Option (Joining R) :=
  if name = [] then some s
  else
    match findCommand name with
    | some cmd =>
      if cmdbuf name <:+: s.cmdsbuf then some s
      else
        let io := headJoin s.io name isjson s.firstjoin
        (if cmd.joinable then runCommand writeHandler group cmd s.miner none isjson io
          else (message R (desk s.miner) io msgAccdeny 0 cmd.name isjson).map fun io =>
            (s.miner, io)).map
          fun (m, io) => ⟨m, tailJoin io isjson, s.cmdsbuf ++ name ++ [separator], false⟩
    | none =>
      (message R (desk s.miner) (headJoin s.io name isjson s.firstjoin) msgInvcmd 0 none isjson).map
          fun io =>
        { s with io := tailJoin io isjson, firstjoin := false }

/-- `strchr(cmdptr, CMDJOIN)` over and over. -/
def joinedNames (cmd : Bytes) : List Bytes := cmd.splitOn cmdjoin

def joined (group : Group) (cmd : Bytes) (m : Miner R) (isjson : Bool) (io : Io) :
    Option (Miner R × Io) :=
  ((joinedNames cmd).foldlM (joinStep writeHandler group isjson) ⟨m, io, [separator], true⟩).map
    fun s => (s.miner, s.io)

/-! ## The loop -/

/-- A request with the group of its client. -/
structure Request where
  buf : Bytes
  group : Group

/-- What the loop keeps between connections. -/
structure Server (R : Type) where
  miner : Miner R
  isjoin : Bool

/-- What a request leaves, and the replies sent for it. -/
def serve (s : Server R) (request : Request) : Option (Server R × List Bytes) :=
  let json := isjson request.buf
  match asked jsonLoadb request.buf with
  | .invalid messageid =>
    (message R (desk s.miner) ioReinit messageid 0 none json).map fun io =>
      let io := sendResult io json
      (s, if s.isjoin then [io.text, (sendResult io json).text] else [io.text])
  | .command cmd param =>
    if cmdjoin ∈ cmd then
      (joined writeHandler request.group cmd s.miner json ioReinit).map fun (m, io) =>
        (⟨m, true⟩, [(sendResult io json).text])
    else
      (single writeHandler request.group cmd s.miner param json ioReinit).map fun (m, io) =>
        (⟨m, false⟩, [(sendResult io json).text])

end

end CgminerT4.Source.ApiServer
