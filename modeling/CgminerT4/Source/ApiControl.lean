import CgminerT4.Source.ApiServer

/-!
# API commands in write mode (api.c, cgminer.c)

The pool commands change the pool table as in the model of the pools; what its
array holds behind `total_pools` is the parameter `behind`. Whether a file can be
opened is the parameter `opens`. The driver has neither identify_device nor
set_device, and every device has a mining thread. Files, threads, logs and the
quota counters are left out.
-/
namespace CgminerT4.Source.ApiControl
open Library Library.ByteString ApiReply ApiReports ApiServer
open PoolControl (Pools Reply atoi)
open PoolConfig (lower detectStratum)
open SessionTable (PoolId)

section
variable {R : Type} [Floating R]

def answer (m : Miner R) (io : Io) (messageid : Nat) (paramid : Int) (param2 : Option Bytes)
    (isjson : Bool) :
    Option (Miner R × Io) :=
  (message R (desk m) io messageid paramid param2 isjson).map fun io => (m, io)

/-! ## Pools -/

/-- The message of a reply, for a parameter that names the pool `id`. -/
def replyMessage (id : Int) : Reply → Nat × Int
  | .noPool => (msgNopool, 0)
  | .missingId => (msgMispid, 0)
  | .invalidId id => (msgInvpid, id)
  | .duplicateId id => (msgDuppid, id)
  | .switched => (msgSwitchp, id)
  | .alreadyEnabled => (msgAlrenap, id)
  | .enabled => (msgEnapool, id)
  | .priorities => (msgPoolprio, 0)
  | .alreadyDisabled => (msgAlrdisp, id)
  | .disableLast => (msgDislastp, id)
  | .disabled => (msgDispool, id)
  | .removeLast => (msgRemlastp, id)
  | .activePool => (msgActpool, id)
  | .removed => (msgRempool, id)

def named (param : Option Bytes) : Int := atoi (param.getD [])

def poolAnswer (m : Miner R) (param : Option Bytes) (isjson : Bool) (io : Io)
    (param2 : Option Bytes) (result : Option (Reply × Pools)) : Option (Miner R × Io) :=
  result.bind fun (reply, pools) =>
    answer { m with pools } io (replyMessage (named param) reply).1
      (replyMessage (named param) reply).2 param2 isjson

variable (behind : Nat → Option PoolId)

def switchpool : Handler R := fun m param isjson io =>
  poolAnswer m param isjson io none
    (PoolControl.switchpool m.options.poolStrategy behind m.pools param)

def enablepool : Handler R := fun m param isjson io =>
  poolAnswer m param isjson io none
    (PoolControl.enablepool m.options.poolStrategy behind m.pools param)

def disablepool : Handler R := fun m param isjson io =>
  poolAnswer m param isjson io none
    (PoolControl.disablepool m.options.poolStrategy behind m.pools param)

def poolpriority : Handler R := fun m param isjson io =>
  poolAnswer m param isjson io none
    (PoolControl.poolpriority m.options.poolStrategy behind m.pools param)

/-- The url is escaped before the pool is removed. -/
def removepool : Handler R := fun m param isjson io =>
  poolAnswer m param isjson io (((desk m).poolUrl (named param)).map fun url =>
    escapeString url isjson)
    (PoolControl.removepool m.options.poolStrategy behind m.pools param)

/-- The characters up to a comma that is not escaped, and what follows it. -/
def copyadvanceafter : Bytes → Bytes × Bytes
  | [] => ([], [])
  | [c] => if c = JsonText.comma then ([], []) else ([c], [])
  | c :: d :: param =>
    if c = JsonText.comma then ([], d :: param)
    else if c = JsonText.backslash then
      let (buf, rest) := copyadvanceafter param
      (d :: buf, rest)
    else
      let (buf, rest) := copyadvanceafter (d :: param)
      (c :: buf, rest)

/-- The url, the user and the password. -/
def pooldetails (param : Bytes) : Option (Bytes × Bytes × Bytes) :=
  let (url, param) := copyadvanceafter param
  if param = [] then none
  else
    let (user, param) := copyadvanceafter param
    if param = [] then none
    else some (url, user, (copyadvanceafter param).1)

def zeroStats : CgminerStats := ⟨0, ⟨0, 0⟩, ⟨0, 0⟩, ⟨0, 0⟩⟩

/-- add_pool -/
def newPool (R : Type) [Floating R] : PoolInfo R :=
  let zero : R := Floating.ofInt 0
  { rpcUrl := none, rpcUser := none, rpcPass := none, rpcProxy := none, quota := 1, hdrPath := false,
    getworkRequested := 0, accepted := 0, rejected := 0, works := 0, discardedWork :=
      0, staleShares := 0,
    getfailOccasions := 0, remotefailOccasions := 0, lastShareTime := 0, diff1 :=
      0, diffAccepted := zero,
    diffRejected := zero, diffStale := zero, lastShareDiff := zero, sdiff := zero, hasGbt :=
      false, bestDiff := 0,
    badWork := 0, currentHeight := 0, bbversion := 0, cgminerStats := zeroStats,
    cgminerPoolStats :=
      { zeroStats with
        getworkAttempts := 0, getworkWaitRolling := zero, hadrolltime := false, canroll :=
          false, hadexpire := false,
        rolltime := 0, minDiff := zero, maxDiff := zero, lastDiff := zero, minDiffCount :=
          0, maxDiffCount := 0,
        timesSent := 0, bytesSent := 0, netBytesSent := 0, timesReceived := 0, bytesReceived := 0,
        netBytesReceived := 0 } }

def addpool : Handler R := fun m param isjson io =>
  match param with
  | none | some [] => answer m io msgMispdp 0 none isjson
  | some param =>
    match pooldetails param with
    | none => answer m io msgInvpdp 0 (escapeString param isjson) isjson
    | some (url, user, pass) =>
      (detectStratum url).bind fun stratumUrl =>
        let pool := m.pools.table.allocated
        let info := { newPool R with rpcUrl := url, rpcUser := user, rpcPass := pass }
        let m := { m with
          pools := PoolControl.addpool m.pools stratumUrl.isSome
          pool := Function.update m.pool pool info }
        answer m io msgAddpool (m.pools.table.pool pool).poolNo (escapeString url isjson) isjson

def poolquota : Handler R := fun m param isjson io =>
  if PoolControl.totalPools m.pools = 0 then answer m io msgNopool 0 none isjson
  else
    match param with
    | none | some [] => answer m io msgMispid 0 none isjson
    | some param =>
      if JsonText.comma ∉ param then answer m io msgConval 0 param isjson
      else
        let id := atoi (param.takeWhile (· ≠ JsonText.comma))
        match if id < 0 then none else m.pools.table.pools[id.toNat]? with
        | none => answer m io msgInvpid id none isjson
        | some pool =>
          let quota := atoi ((param.dropWhile (· ≠ JsonText.comma)).drop 1)
          if quota < 0 then answer m io msgInvneg quota (m.pool pool).rpcUrl isjson
          else
            answer { m with pool := Function.update m.pool pool { m.pool pool with quota } }
              io msgSetquota quota
              (m.pool pool).rpcUrl isjson

/-! ## Devices -/

/-- The ASC that a parameter names, or the message. -/
def namedAsc (m : Miner R) (param : Option Bytes) : Except (Nat × Int) Nat :=
  if numascs m = 0 then .error (msgAscnon, 0)
  else
    match param with
    | none | some [] => .error (msgMisid, 0)
    | some param =>
      let id := atoi param
      if id < 0 ∨ id ≥ numascs m then .error (msgInvasc, id) else .ok id.toNat

def setDeven (m : Miner R) (asc : Nat) (deven : DevEnable) : Miner R :=
  { m with devices := m.devices.modify asc fun cgpu => { cgpu with deven } }

def isDisabled (m : Miner R) (asc : Nat) : Bool :=
  (m.devices[asc]?).any fun cgpu => cgpu.deven = .disabled

def ascenable : Handler R := fun m param isjson io =>
  match namedAsc m param with
  | .error (messageid, id) => answer m io messageid id none isjson
  | .ok asc =>
    if !isDisabled m asc then answer m io msgAsclrena asc none isjson
    else answer (setDeven m asc .enabled) io msgAscena asc none isjson

def ascdisable : Handler R := fun m param isjson io =>
  match namedAsc m param with
  | .error (messageid, id) => answer m io messageid id none isjson
  | .ok asc =>
    if isDisabled m asc then answer m io msgAsclrdis asc none isjson
    else answer (setDeven m asc .disabled) io msgAscdis asc none isjson

def ascidentify : Handler R := fun m param isjson io =>
  match namedAsc m param with
  | .error (messageid, id) => answer m io messageid id none isjson
  | .ok asc => answer m io msgAscnoid asc none isjson

def ascset : Handler R := fun m param isjson io =>
  if numascs m = 0 then answer m io msgAscnon 0 none isjson
  else
    match param with
    | none | some [] => answer m io msgMisid 0 none isjson
    | some param =>
      if (param.dropWhile (· ≠ JsonText.comma)).drop 1 = [] then answer m io msgMisascopt 0
        none isjson
      else
        let id := atoi (param.takeWhile (· ≠ JsonText.comma))
        if id < 0 ∨ id ≥ numascs m then answer m io msgInvasc id none isjson
        else answer m io msgAscnoset id none isjson

/-! ## The whole miner -/

variable (opens : Bytes → Bool) (defaultSaveFile : Bytes)

def dosave : Handler R := fun m param isjson io =>
  let file :=
    match param with
    | none | some [] => defaultSaveFile
    | some param => param
  answer m io (if opens file then msgSaved else msgBadfn) 0 (escapeString file isjson) isjson

/-- JSON_ACTION and the name between quotes. -/
def jsonAction (name : Bytes) : Bytes :=
  JsonText.openBrace :: JsonText.quote ::
    (ascii "STATUS" ++ [JsonText.quote, JsonText.colon, JsonText.quote] ++ name ++
    [JsonText.quote])

def doquit : Handler R := fun m _ isjson _ =>
  some ({ m with bye := true, doAQuit := true },
    ioPut (if isjson then jsonAction (ascii "BYE") else ascii "BYE"))

def dorestart : Handler R := fun m _ isjson _ =>
  some ({ m with bye := true, doARestart := true },
    ioPut (if isjson then jsonAction (ascii "RESTART") else ascii "RESTART"))

def privileged : Handler R := fun m _ isjson io => answer m io msgAccok 0 none isjson

def failoveronly : Handler R := fun m param isjson io => answer m io msgDeprecated 0 param isjson

/-- The switch over the first character of the parameter. -/
def debugOptions (o : Options) (c : UInt8) : Options :=
  if c = 0x73 then { o with optRealquiet := true }
  else if c = 0x71 then { o with optQuiet := !o.optQuiet }
  else if c = 0x76 then
    { o with optLogOutput := !o.optLogOutput, optQuiet := o.optLogOutput && o.optQuiet }
  else if c = 0x64 then
    { o with optDebug := !o.optDebug, optLogOutput := !o.optDebug, optQuiet := o.optDebug && o.optQuiet }
  else if c = 0x72 then
    { o with optProtocol := !o.optProtocol, optQuiet := o.optProtocol && o.optQuiet }
  else if c = 0x70 then
    { o with wantPerDeviceStats := !o.wantPerDeviceStats, optLogOutput := !o.wantPerDeviceStats }
  else if c = 0x6e then
    { o with optLogOutput := false, optDebug := false, optQuiet := false, optProtocol := false,
             wantPerDeviceStats := false, optWorktime := false }
  else if c = 0x77 then { o with optWorktime := !o.optWorktime }
  else o

def debugRecord (R : Type) (o : Options) : List (ApiData R) :=
  [apiAddBool "Silent" o.optRealquiet, apiAddBool "Quiet" o.optQuiet,
    apiAddBool "Verbose" o.optLogOutput, apiAddBool "Debug" o.optDebug,
    apiAddBool "RPCProto" o.optProtocol, apiAddBool "PerDevice" o.wantPerDeviceStats,
    apiAddBool "WorkTime" o.optWorktime]

def debugstate : Handler R := fun m param isjson io =>
  let m := { m with options := debugOptions m.options (lower ((param.getD []).headD 0)) }
  (report m io msgDebugset (ascii "DEBUG") (debugRecord R m.options) isjson).map fun io => (m, io)

def sameIgnoringCase (a b : Bytes) : Bool := a.map lower = b.map lower

/-- The options that setconfig no longer has. -/
def deprecated (param : Bytes) : Bool :=
  sameIgnoringCase param (ascii "queue") || sameIgnoringCase param (ascii "scantime") ||
    sameIgnoringCase param (ascii "expiry")

/-- The first message does not end the handler. -/
def setconfig : Handler R := fun m param isjson io =>
  param.bind fun param =>
    (if deprecated param then message R (desk m) io msgDeprecated 0 param isjson else
        some io).bind fun io =>
      answer m io msgUnkcon 0 param isjson

def zeroBestshare (m : Miner R) : Miner R :=
  { m with
    totals := { m.totals with bestDiff := 0 }
    pool := fun id => if id ∈ m.pools.table.pools then { m.pool id with bestDiff := 0 } else
      m.pool id }

def zeroPool (pool : PoolInfo R) : PoolInfo R :=
  let zero : R := Floating.ofInt 0
  { pool with
    getworkRequested := 0, accepted := 0, rejected := 0, staleShares := 0, discardedWork :=
      0, getfailOccasions := 0,
    remotefailOccasions := 0, lastShareTime := 0, diff1 := 0, diffAccepted :=
      zero, diffRejected := zero,
    diffStale := zero, lastShareDiff := zero }

def zeroMiner (m : Miner R) : Miner R :=
  let zero : R := Floating.ofInt 0
  zeroBestshare { m with
    totals := { m.totals with
      totalRolling := zero, rolling1 := zero, rolling5 := zero, rolling15 :=
        zero, totalMhashesDone := zero,
      totalGetworks := 0, totalAccepted := 0, totalRejected := 0, hwErrors := 0, totalStale :=
        0, totalDiscarded := 0,
      localWork := 0, totalGo := 0, totalRo := 0, totalSecs := Floating.ofInt 1, totalDiff1 :=
        0, foundBlocks := 0,
      totalDiffAccepted := zero, totalDiffRejected := zero, totalDiffStale := zero }
    pool := fun id => if id ∈ m.pools.table.pools then zeroPool (m.pool id) else m.pool id
    devices := m.devices.map fun cgpu =>
      { cgpu with devStartTv := m.now, totalMhashes := zero, accepted := 0, rejected := 0, hwErrors := 0, utility := zero } }

def dozero : Handler R := fun m param isjson io =>
  match param with
  | none | some [] => answer m io msgZermis 0 none isjson
  | some param =>
    let what := param.takeWhile (· ≠ JsonText.comma)
    match (param.dropWhile (· ≠ JsonText.comma)).drop 1 with
    | [] => answer m io msgMisbool 0 none isjson
    | c :: _ =>
      let all := sameIgnoringCase what (ascii "all")
      let bs := !all && sameIgnoringCase what (ascii "bestshare")
      if !all && !bs then answer m io msgZerinv 0 what isjson
      else if lower c ≠ 0x74 ∧ lower c ≠ 0x66 then answer m io msgInvbool 0 none isjson
      else
        let m := if all then zeroMiner m else zeroBestshare m
        answer m io (if lower c = 0x74 then msgZersum else msgZernosum) 0
          (if all then ascii "All" else ascii "BestShare") isjson

def dohotplug : Handler R := fun m _ isjson io => answer m io msgNohplg 0 none isjson

def lockstats : Handler R := fun m _ isjson io => answer m io msgLockdis 0 none isjson

/-- The handlers that the table marks for write mode. -/
def writeHandler : Func → Handler R
  | .switchpool => switchpool behind
  | .addpool => addpool
  | .poolpriority => poolpriority behind
  | .poolquota => poolquota
  | .enablepool => enablepool behind
  | .disablepool => disablepool behind
  | .removepool => removepool behind
  | .dosave => dosave opens defaultSaveFile
  | .doquit => doquit
  | .privileged => privileged
  | .dorestart => dorestart
  | .failoveronly => failoveronly
  | .debugstate => debugstate
  | .setconfig => setconfig
  | .dozero => dozero
  | .dohotplug => dohotplug
  | .ascenable => ascenable
  | .ascdisable => ascdisable
  | .ascidentify => ascidentify
  | .ascset => ascset
  | .lockstats => lockstats
  | _ => fun _ _ _ _ => none

end

end CgminerT4.Source.ApiControl
