import CgminerT4.Source.ApiReply
import CgminerT4.Source.PoolConfig

/-!
# API commands that report (api.c, driver-SPI-bitmine-t4.c)

The miner as the API sees it, in a build for the T4 driver alone: every device is
a chain of the driver BA1, without USB and FPGAs. One reading of the clock serves
a request. A handler takes the miner, the parameter, the kind of the reply and
the buffer; it has no result where memory is misused.
-/
namespace CgminerT4.Source.ApiReports
open Library Library.ByteString ApiReply
open PoolControl (Pools atoi)
open PoolSwitch (PoolEnable PoolStrategy)
open SessionTable (PoolId)

/-! ## The miner -/

inductive DevEnable where
  | enabled
  | disabled
  | recover
  deriving DecidableEq, Inhabited

inductive Alive where
  | well
  | sick
  | dead
  | nostart
  | init
  deriving Inhabited

inductive DevReason where
  | threadFailInit
  | threadZeroHash
  | threadFailQueue
  | devSickIdle60
  | devDeadIdle600
  | devNostart
  | devOverHeat
  | devThermalCutoff
  | devCommsError
  | devThrottle
  deriving Inhabited

structure CgminerStats where
  getworkCalls : Nat
  getworkWait : Timeval
  getworkWaitMax : Timeval
  getworkWaitMin : Timeval
  deriving Inhabited

structure CgminerPoolStats (R : Type) extends CgminerStats where
  getworkAttempts : Nat
  getworkWaitRolling : R
  hadrolltime : Bool
  canroll : Bool
  hadexpire : Bool
  rolltime : Nat
  minDiff : R
  maxDiff : R
  lastDiff : R
  minDiffCount : Nat
  maxDiffCount : Nat
  timesSent : Nat
  bytesSent : Nat
  netBytesSent : Nat
  timesReceived : Nat
  bytesReceived : Nat
  netBytesReceived : Nat
  deriving Inhabited

structure Chip where
  disabled : Bool
  hwErrors : Int
  stales : Int
  noncesFound : Int
  nonceRangesDone : Int
  cooldownBegin : Int
  failCount : Int
  failReset : Int
  temp : Int
  nVol : Int
  pll : Int
  pllOptimal : Bool
  deriving Inhabited

structure Chain where
  chainId : Nat
  numCores : Int
  numActiveChips : Int
  chainSkew : Int
  vid : Int
  vidOptimal : Bool
  pllOptimal : Bool
  disabled : Bool
  lastTempTime : Int
  chips : List Chip
  deriving Inhabited

structure Device (R : Type) where
  deviceId : Int
  name : Option Bytes
  kname : Option Bytes
  devicePath : Option Bytes
  chain : Chain
  deven : DevEnable
  status : Alive
  accepted : Int
  rejected : Int
  hwErrors : Int
  utility : R
  rolling : R
  rolling1 : R
  rolling5 : R
  rolling15 : R
  totalMhashes : R
  temp : R
  tempMax : R
  tempMin : R
  tempPrewarn : Fin 4 → Int
  chipNum : Int
  coreNum : Int
  fanDuty : Int
  chainNum : Int
  mhsAv : R
  lastDeviceValidWork : Nat
  deviceLastWell : Nat
  deviceLastNotWell : Nat
  deviceNotWellReason : DevReason
  threadFailInitCount : Int
  threadZeroHashCount : Int
  threadFailQueueCount : Int
  devSickIdle60Count : Int
  devDeadIdle600Count : Int
  devNostartCount : Int
  devOverHeatCount : Int
  devThermalCutoffCount : Int
  devCommsErrorCount : Int
  devThrottleCount : Int
  cgminerStats : CgminerStats
  devStartTv : Timeval
  deriving Inhabited

/-- What is reported of a pool besides its place, its flags and its priority. -/
structure PoolInfo (R : Type) where
  rpcUrl : Option Bytes
  rpcUser : Option Bytes
  rpcPass : Option Bytes
  rpcProxy : Option (PoolConfig.ProxyType × Bytes)
  quota : Int
  hdrPath : Bool
  getworkRequested : Nat
  accepted : Int
  rejected : Int
  works : Int
  discardedWork : Nat
  staleShares : Nat
  getfailOccasions : Nat
  remotefailOccasions : Nat
  lastShareTime : Nat
  diff1 : Int
  diffAccepted : R
  diffRejected : R
  diffStale : R
  lastShareDiff : R
  sdiff : R
  hasGbt : Bool
  bestDiff : Nat
  badWork : Nat
  currentHeight : Nat
  bbversion : Nat
  cgminerStats : CgminerStats
  cgminerPoolStats : CgminerPoolStats R
  deriving Inhabited

structure Totals (R : Type) where
  totalSecs : R
  totalMhashesDone : R
  totalRolling : R
  rolling1 : R
  rolling5 : R
  rolling15 : R
  foundBlocks : Nat
  totalGetworks : Int
  totalAccepted : Int
  totalRejected : Int
  hwErrors : Int
  totalDiscarded : Int
  totalStale : Int
  totalGo : Nat
  localWork : Nat
  totalRo : Nat
  newBlocks : Nat
  totalDiff1 : Int
  totalDiffAccepted : R
  totalDiffRejected : R
  totalDiffStale : R
  bestDiff : Nat
  lastGetwork : Nat
  deriving Inhabited

instance : Inhabited PoolStrategy where
  default := .failover

structure Options where
  version : Bytes
  poolStrategy : PoolStrategy
  optLogInterval : Int
  optApiDescription : Option Bytes
  optRealquiet : Bool
  optQuiet : Bool
  optLogOutput : Bool
  optDebug : Bool
  optProtocol : Bool
  wantPerDeviceStats : Bool
  optWorktime : Bool
  deriving Inhabited

instance : Inhabited Pools where
  default :=
    ⟨⟨0, fun _ => ⟨0, 0, false⟩, []⟩, fun _ => PoolControl.zeroedStatus, fun _ => 0, none, 0⟩

structure Miner (R : Type) where
  pools : Pools
  pool : PoolId → PoolInfo R
  devices : List (Device R)
  totals : Totals R
  options : Options
  fanSpeed : Int
  resetDelay : Int
  fanCfgSpeed : Int
  debugStats : Nat → Bool
  blockTimeval : Timeval
  currentHash : Bytes
  haveLongpoll : Bool
  currentDiff : R
  bye : Bool
  doAQuit : Bool
  doARestart : Bool
  time : Nat
  now : Timeval
  deriving Inhabited

abbrev Handler (R : Type) := Miner R → Option Bytes → Bool → Io → Option (Miner R × Io)

section
variable {R : Type} [Floating R]

/-! ## Fields -/

def apiAddString (name : String) (data : Bytes) : ApiData R := ⟨ascii name, .string data⟩
def apiAddConst (name : String) (data : Bytes) : ApiData R := ⟨ascii name, .string data⟩
def apiAddEscape (name : String) (data : Option Bytes) : ApiData R := ⟨ascii name, .escape data⟩
def apiAddInt (name : String) (data : Int) : ApiData R := ⟨ascii name, .integer data⟩
def apiAddUint (name : String) (data : Nat) : ApiData R := ⟨ascii name, .integer data⟩
def apiAddTime (name : String) (data : Nat) : ApiData R := ⟨ascii name, .integer data⟩
def apiAddBool (name : String) (data : Bool) : ApiData R := ⟨ascii name, .bool data⟩
def apiAddTimeval (name : String) (data : Timeval) : ApiData R := ⟨ascii name, .timeval data⟩
def apiAddElapsed (name : String) (data : R) : ApiData R := ⟨ascii name, .fixed 0 data⟩
def apiAddMhs (name : String) (data : R) : ApiData R := ⟨ascii name, .fixed 2 data⟩
def apiAddUtility (name : String) (data : R) : ApiData R := ⟨ascii name, .fixed 2 data⟩
def apiAddTemp (name : String) (data : R) : ApiData R := ⟨ascii name, .fixed 2 data⟩
def apiAddMhtotal (name : String) (data : R) : ApiData R := ⟨ascii name, .fixed 4 data⟩
def apiAddDouble (name : String) (data : R) : ApiData R := ⟨ascii name, .fixed 6 data⟩
def apiAddDiff (name : String) (data : R) : ApiData R := ⟨ascii name, .fixed 8 data⟩
def apiAddPercent (name : String) (data : R) : ApiData R :=
  ⟨ascii name, .fixed 4 (Floating.mul data (Floating.ofInt 100))⟩

/-! ## Sections -/

def numascs (m : Miner R) : Nat := m.devices.length

def desk (m : Miner R) : Desk where
  time := m.time
  totalPools := PoolControl.totalPools m.pools
  numascs := numascs m
  poolUrl id := (m.pools.table.pools[id.toNat]?).bind fun pool => (m.pool pool).rpcUrl
  optApiDescription := m.options.optApiDescription

/-- The opening of a section, `isjson ? COMSTR JSON_X : _X COMSTR`. -/
def openSection (io : Io) (name : Bytes) (isjson : Bool) : Io :=
  ioAdd io (if isjson then JsonText.comma :: jsonSection name else name ++ [JsonText.comma])

def closeSection (io : Io) (isjson : Bool) : Io := if isjson then ioClose io else io

/-- A message, and a section with one record. -/
def report (m : Miner R) (io : Io) (messageid : Nat) (name : Bytes) (root : List (ApiData R))
    (isjson : Bool) : Option Io :=
  (message R (desk m) io messageid 0 none isjson).map fun io =>
    closeSection (printData (openSection io name isjson) root isjson false) isjson

/-- The records of a section; `i` numbers those before. -/
def printRecords (isjson : Bool) (io : Io) (i : Nat) : List (List (ApiData R)) → Io
  | [] => io
  | root :: records =>
    printRecords isjson (printData io root isjson (isjson && i > 0)) (i + 1) records

/-- A message, and a section with several records that is opened in JSON only. -/
def reportAll (m : Miner R) (io : Io) (messageid : Nat) (name : Bytes)
    (records : List (List (ApiData R))) (isjson : Bool) :
    Option Io :=
  (message R (desk m) io messageid 0 none isjson).map fun io =>
    let io := if isjson then ioAdd io (JsonText.comma :: jsonSection name) else io
    closeSection (printRecords isjson io 0 records) isjson

/-! ## Devices -/

def yes : Bytes := ascii "Y"
def no : Bytes := ascii "N"

def drvName : Bytes := ascii "BA1"

def status2str : Alive → Bytes
  | .well => ascii "Alive"
  | .sick => ascii "Sick"
  | .dead => ascii "Dead"
  | .nostart => ascii "NoStart"
  | .init => ascii "Initialising"

def cgpuRuntime (m : Miner R) (cgpu : Device R) : R :=
  let devRuntime :=
    if cgpu.devStartTv.sec = 0 then m.totals.totalSecs else Floating.tdiff m.now cgpu.devStartTv
  if Floating.lt devRuntime (Floating.ofInt 1) then Floating.ofInt 1 else devRuntime

/-- `accepted / secs * 60` -/
def perMinute (accepted : Int) (secs : R) : R :=
  Floating.mul (Floating.div (Floating.ofInt accepted) secs) (Floating.ofInt 60)

/-- The name "MHS %ds". -/
def mhsname (m : Miner R) : Bytes := sprintf (ascii "MHS %ds") [decimal m.options.optLogInterval]

def ascRecord (m : Miner R) (asc : Nat) (cgpu : Device R) : List (ApiData R) :=
  let devRuntime := cgpuRuntime m cgpu
  [apiAddInt "ASC" asc, apiAddString "Name" drvName, apiAddInt "ID" cgpu.deviceId,
    apiAddString "Enabled" (if cgpu.deven ≠ .disabled then yes else no),
    apiAddString "Status" (status2str cgpu.status),
    apiAddTemp "Temperature" (Floating.single cgpu.temp), apiAddInt "CHIP" cgpu.chipNum,
    apiAddInt "CORE" cgpu.coreNum, apiAddInt "DUTY" cgpu.fanDuty,
    apiAddMhs "MHS av" (Floating.div cgpu.totalMhashes devRuntime),
    ⟨mhsname m, .fixed 2 cgpu.rolling⟩, apiAddMhs "MHS 1m" cgpu.rolling1,
    apiAddMhs "MHS 5m" cgpu.rolling5, apiAddMhs "MHS 15m" cgpu.rolling15,
    apiAddInt "Accepted" cgpu.accepted, apiAddInt "Rejected" cgpu.rejected,
    apiAddInt "Hardware Errors" cgpu.hwErrors, apiAddUtility "Utility" cgpu.utility,
    apiAddElapsed "Device Elapsed" devRuntime]

/-- The utility is brought up to date and reported. -/
def ascstatus (m : Miner R) (asc : Nat) (isjson precom : Bool) (io : Io) : Miner R × Io :=
  match m.devices[asc]? with
  | none => (m, io)
  | some cgpu =>
    let cgpu := { cgpu with utility := perMinute cgpu.accepted (cgpuRuntime m cgpu) }
    ({ m with devices := m.devices.set asc cgpu },
      printData io (ascRecord m asc cgpu) isjson precom)

/-- The loop over the ASCs. -/
def ascstatuses (isjson : Bool) (m : Miner R) (io : Io) : Miner R × Io :=
  (List.range (numascs m)).foldl (fun (m, io) i =>
    ascstatus m i isjson (isjson && i > 0) io) (m, io)

def devstatus : Handler R := fun m _ isjson io =>
  if numascs m = 0 then (message R (desk m) io msgNodevs 0 none isjson).map fun io => (m, io)
  else
    (message R (desk m) io msgDevs 0 none isjson).map fun io =>
      let io := if isjson then ioAdd io (JsonText.comma :: jsonSection (ascii "DEVS")) else io
      let (m, io) := ascstatuses isjson m io
      (m, closeSection io isjson)

/-- Only devices on USB are left out. -/
def edevstatus : Handler R := devstatus

def ascdev : Handler R := fun m param isjson io =>
  if numascs m = 0 then (message R (desk m) io msgAscnon 0 none isjson).map fun io => (m, io)
  else
    match param with
    | none | some [] => (message R (desk m) io msgMisid 0 none isjson).map fun io => (m, io)
    | some param =>
      let id := atoi param
      if id < 0 ∨ id ≥ numascs m then (message R (desk m) io msgInvasc id none isjson).map
        fun io => (m, io)
      else
        (message R (desk m) io msgAscdev id none isjson).map fun io =>
          let io := if isjson then ioAdd io (JsonText.comma :: jsonSection (ascii "ASC")) else io
          let (m, io) := ascstatus m id.toNat isjson false io
          (m, closeSection io isjson)

def asccount : Handler R := fun m _ isjson io =>
  (report m io msgNumasc (ascii "ASCS") [apiAddInt "Count" (numascs m)] isjson).map
    fun io => (m, io)

def pgacount : Handler R := fun m _ isjson io =>
  (report m io msgNumpga (ascii "PGAS") [apiAddInt "Count" 0] isjson).map fun io => (m, io)

def reasonText (cgpu : Device R) : Bytes :=
  if cgpu.deviceLastNotWell = 0 then ascii "None"
  else
    match cgpu.deviceNotWellReason with
    | .threadFailInit => ascii "Thread failed to init"
    | .threadZeroHash => ascii "Thread got zero hashes"
    | .threadFailQueue => ascii "Thread failed to queue work"
    | .devSickIdle60 => ascii "Device idle for 60s"
    | .devDeadIdle600 => ascii "Device dead - idle for 600s"
    | .devNostart => ascii "Device failed to start"
    | .devOverHeat => ascii "Device over heated"
    | .devThermalCutoff => ascii "Device reached thermal cutoff"
    | .devCommsError => ascii "Device comms error"
    | .devThrottle => ascii "Unknown reason - code bug"

def notifyRecord (device : Nat) (cgpu : Device R) : List (ApiData R) :=
  [apiAddInt "NOTIFY" device, apiAddString "Name" drvName, apiAddInt "ID" cgpu.deviceId,
    apiAddTime "Last Well" cgpu.deviceLastWell, apiAddTime "Last Not Well" cgpu.deviceLastNotWell,
    apiAddString "Reason Not Well" (reasonText cgpu),
    apiAddInt "*Thread Fail Init" cgpu.threadFailInitCount,
    apiAddInt "*Thread Zero Hash" cgpu.threadZeroHashCount,
    apiAddInt "*Thread Fail Queue" cgpu.threadFailQueueCount,
    apiAddInt "*Dev Sick Idle 60s" cgpu.devSickIdle60Count,
    apiAddInt "*Dev Dead Idle 600s" cgpu.devDeadIdle600Count,
    apiAddInt "*Dev Nostart" cgpu.devNostartCount, apiAddInt "*Dev Over Heat" cgpu.devOverHeatCount,
    apiAddInt "*Dev Thermal Cutoff" cgpu.devThermalCutoffCount,
    apiAddInt "*Dev Comms Error" cgpu.devCommsErrorCount,
    apiAddInt "*Dev Throttle" cgpu.devThrottleCount]

def notify : Handler R := fun m _ isjson io =>
  if m.devices = [] then (message R (desk m) io msgNodevs 0 none isjson).map fun io => (m, io)
  else
    (reportAll m io msgNotify (ascii "NOTIFY")
      (m.devices.zipIdx.map fun (cgpu, i) => notifyRecord i cgpu) isjson).map
      fun io => (m, io)

def devdetailsRecord (i : Nat) (cgpu : Device R) : List (ApiData R) :=
  [apiAddInt "DEVDETAILS" i, apiAddString "Name" drvName, apiAddInt "ID" cgpu.deviceId,
    apiAddString "Driver" (ascii "BitmineA1"), apiAddConst "Kernel" (cgpu.kname.getD []),
    apiAddConst "Model" (cgpu.name.getD []), apiAddConst "Device Path" (cgpu.devicePath.getD [])]

def devdetails : Handler R := fun m _ isjson io =>
  if m.devices = [] then (message R (desk m) io msgNodevs 0 none isjson).map fun io => (m, io)
  else
    (reportAll m io msgDevdetails (ascii "DEVDETAILS")
      (m.devices.zipIdx.map fun (cgpu, i) => devdetailsRecord i cgpu)
      isjson).map fun io => (m, io)

/-! ## Pools -/

def poolStatusText (m : Miner R) (pool : PoolId) : Bytes :=
  match (m.pools.status pool).enabled with
  | .disabled => ascii "Disabled"
  | .rejecting => ascii "Rejecting"
  | .enabled => if (m.pools.status pool).idle then ascii "Dead" else ascii "Alive"

/-- A share of the work that a pool answered. -/
def shareOf (part total : R) : R :=
  if Floating.isZero total then Floating.ofInt 0 else Floating.div part total

def poolRecord (m : Miner R) (i : Nat) (id : PoolId) : List (ApiData R) :=
  let pool := m.pool id
  let flags := m.pools.status id
  let answered := Floating.add (Floating.add pool.diffAccepted pool.diffRejected) pool.diffStale
  let (type, proxy) : ApiData R × ApiData R :=
    match pool.rpcProxy with
    | some (type, proxy) =>
      (apiAddConst "Proxy Type" (PoolConfig.proxytype type), apiAddEscape "Proxy" (some proxy))
    | none => (apiAddConst "Proxy Type" [], apiAddConst "Proxy" [])
  [apiAddEscape "URL" pool.rpcUrl, apiAddEscape "User" pool.rpcUser, apiAddInt "POOL" i,
    apiAddString "Status" (poolStatusText m id), apiAddInt "Priority" (m.pools.table.pool id).prio,
    apiAddInt "Quota" pool.quota, apiAddString "Long Poll" (if pool.hdrPath then yes else no),
    apiAddUint "Getworks" pool.getworkRequested, apiAddInt "Accepted" pool.accepted,
    apiAddInt "Rejected" pool.rejected, apiAddInt "Works" pool.works,
    apiAddUint "Discarded" pool.discardedWork, apiAddUint "Stale" pool.staleShares,
    apiAddUint "Get Failures" pool.getfailOccasions,
    apiAddUint "Remote Failures" pool.remotefailOccasions,
    apiAddTime "Last Share Time" pool.lastShareTime, apiAddInt "Diff1 Shares" pool.diff1,
    type, proxy, apiAddDiff "Difficulty Accepted" pool.diffAccepted,
    apiAddDiff "Difficulty Rejected" pool.diffRejected,
    apiAddDiff "Difficulty Stale" pool.diffStale,
    apiAddDiff "Last Share Difficulty" pool.lastShareDiff,
    apiAddDiff "Work Difficulty" pool.cgminerPoolStats.lastDiff,
    apiAddBool "Has Stratum" flags.hasStratum,
    apiAddBool "Stratum Active" (m.pools.currentpool = some id),
    apiAddDiff "Stratum Difficulty" (if flags.stratumActive then pool.sdiff else Floating.ofInt 0),
    apiAddBool "Has GBT" pool.hasGbt, apiAddUint "Best Share" pool.bestDiff,
    apiAddPercent "Pool Rejected%" (shareOf pool.diffRejected answered),
    apiAddPercent "Pool Stale%" (shareOf pool.diffStale answered),
    apiAddUint "Bad Work" pool.badWork, apiAddUint "Current Block Height" pool.currentHeight,
    apiAddUint "Current Block Version" pool.bbversion]

/-- The loop over the pools; the comma depends on the place of the pool. -/
def poolRecords (m : Miner R) (isjson : Bool) (io : Io) (i : Nat) : List PoolId → Io
  | [] => io
  | id :: ids =>
    let io := if (m.pools.table.pool id).removed then io else
      printData io (poolRecord m i id) isjson (isjson && i > 0)
    poolRecords m isjson io (i + 1) ids

def poolstatus : Handler R := fun m _ isjson io =>
  if PoolControl.totalPools m.pools = 0 then (message R (desk m) io msgNopool 0 none isjson).map
    fun io => (m, io)
  else
    (message R (desk m) io msgPool 0 none isjson).map fun io =>
      let io := if isjson then ioAdd io (JsonText.comma :: jsonSection (ascii "POOLS")) else io
      (m, closeSection (poolRecords m isjson io 0 m.pools.table.pools) isjson)

/-! ## Statistics -/

def chipFields (i : Nat) (chip : Chip) : List (ApiData R) :=
  let number := if i < 10 then ascii "0" ++ decimal i else decimal i
  let named (name : String) (data : Int) : ApiData R := ⟨number ++ ascii name, .integer data⟩
  [named " HW errors" chip.hwErrors, named " Stales" chip.stales,
    named " Nonces found" chip.noncesFound, named " Nonce ranges" chip.nonceRangesDone,
    named " Cooldown" chip.cooldownBegin, named " Fail count" chip.failCount,
    named " Fail reset" chip.failReset, named " Temp" chip.temp, named " nVol" chip.nVol,
    named " PLL" chip.pll, ⟨number ++ ascii " pllOptimal", .bool chip.pllOptimal⟩]

/-- `1 << i` is an int, so a chip from 32 on has no bit of its own; bit 31 is spread by its sign. -/
def chipBit (i : Nat) : Nat := if i % 32 = 31 then 2 ^ 64 - 2 ^ 31 else 2 ^ (i % 32)

def chipmap (chips : List Chip) : Nat :=
  chips.zipIdx.foldl (fun map (chip, i) => if chip.disabled then map else map ||| chipBit i) 0

/-- The conversion %Lx. -/
def hexText (n : Nat) : Bytes := (Nat.toDigits 16 n).map fun c => UInt8.ofNat c.toNat

def a1ApiStats (m : Miner R) (cgpu : Device R) : List (ApiData R) :=
  let t1 := cgpu.chain
  [apiAddInt "Chain ID" t1.chainId, apiAddInt "Num chips" t1.chips.length,
    apiAddInt "Num cores" t1.numCores, apiAddInt "Num active chips" t1.numActiveChips,
    apiAddInt "Chain skew" t1.chainSkew, apiAddDouble "Temp max" cgpu.tempMax,
    apiAddDouble "Temp min" cgpu.tempMin, apiAddInt "Temp prewarn 0" (cgpu.tempPrewarn 0),
    apiAddInt "Temp prewarn 1" (cgpu.tempPrewarn 1),
    apiAddInt "Temp prewarn 2" (cgpu.tempPrewarn 2),
    apiAddInt "Temp prewarn 3" (cgpu.tempPrewarn 3), apiAddInt "Fan duty" m.fanCfgSpeed,
    apiAddInt "iVid" t1.vid, apiAddBool "VidOptimal" t1.vidOptimal,
    apiAddBool "pllOptimal" t1.pllOptimal, apiAddInt "Chain num" cgpu.chainNum,
    apiAddDouble "MHS av" cgpu.mhsAv, apiAddBool "Disabled" t1.disabled,
    apiAddString "Enabled chips" (hexText (chipmap t1.chips)), apiAddDouble "Temp" cgpu.temp,
    apiAddInt "Last temp time" t1.lastTempTime] ++
    t1.chips.zipIdx.flatMap fun (chip, i) => chipFields i chip

/-- The request that the chain's thread answers. -/
def a1ApiDebug (m : Miner R) (cgpu : Device R) : Miner R :=
  { m with debugStats := Function.update m.debugStats cgpu.chain.chainId true }

def poolStatsFields (stats : CgminerPoolStats R) : List (ApiData R) :=
  [apiAddUint "Pool Calls" stats.getworkCalls, apiAddUint "Pool Attempts" stats.getworkAttempts,
    apiAddTimeval "Pool Wait" stats.getworkWait, apiAddTimeval "Pool Max" stats.getworkWaitMax,
    apiAddTimeval "Pool Min" stats.getworkWaitMin, apiAddDouble "Pool Av" stats.getworkWaitRolling,
    apiAddBool "Work Had Roll Time" stats.hadrolltime, apiAddBool "Work Can Roll" stats.canroll,
    apiAddBool "Work Had Expire" stats.hadexpire, apiAddUint "Work Roll Time" stats.rolltime,
    apiAddDiff "Work Diff" stats.lastDiff, apiAddDiff "Min Diff" stats.minDiff,
    apiAddDiff "Max Diff" stats.maxDiff, apiAddUint "Min Diff Count" stats.minDiffCount,
    apiAddUint "Max Diff Count" stats.maxDiffCount, apiAddUint "Times Sent" stats.timesSent,
    apiAddUint "Bytes Sent" stats.bytesSent, apiAddUint "Times Recv" stats.timesReceived,
    apiAddUint "Bytes Recv" stats.bytesReceived, apiAddUint "Net Bytes Sent" stats.netBytesSent,
    apiAddUint "Net Bytes Recv" stats.netBytesReceived]

def itemstats (m : Miner R) (i : Nat) (id : Bytes) (stats : CgminerStats)
    (poolStats : Option (CgminerPoolStats R)) (extra : List (ApiData R)) : List (ApiData R) :=
  [apiAddInt "STATS" i, apiAddString "ID" id, apiAddElapsed "Elapsed" m.totals.totalSecs,
    apiAddUint "Calls" stats.getworkCalls, apiAddTimeval "Wait" stats.getworkWait,
    apiAddTimeval "Max" stats.getworkWaitMax, apiAddTimeval "Min" stats.getworkWaitMin] ++
    (poolStats.elim [] poolStatsFields) ++ extra

def deviceStats (m : Miner R) : List (List (ApiData R)) :=
  m.devices.zipIdx.map fun (cgpu, i) =>
    itemstats m i (drvName ++ decimal cgpu.deviceId) cgpu.cgminerStats none (a1ApiStats m cgpu)

/-- The records of the pools behind those of the devices. -/
def poolStats (m : Miner R) : List (List (ApiData R)) :=
  m.pools.table.pools.zipIdx.map fun (id, j) =>
    itemstats m (m.devices.length + j) (ascii "POOL" ++ decimal j) (m.pool id).cgminerStats
      (some (m.pool id).cgminerPoolStats) []

def minerstats : Handler R := fun m _ isjson io =>
  (reportAll m io msgMinestats (ascii "STATS") (deviceStats m ++ poolStats m) isjson).map
    fun io => (m, io)

def minerdebug : Handler R := fun m _ isjson io =>
  let m := m.devices.foldl a1ApiDebug m
  (reportAll m io msgMinedebug (ascii "STATS") (deviceStats m ++ poolStats m) isjson).map
    fun io => (m, io)

def minerestats : Handler R := fun m _ isjson io =>
  (reportAll m io msgMinestats (ascii "STATS") (deviceStats m) isjson).map fun io => (m, io)

def usbstats : Handler R := fun m _ isjson io =>
  (message R (desk m) io msgNousta 0 none isjson).map fun io => (m, io)

/-! ## The whole miner -/

def apiversion : Handler R := fun m _ isjson io =>
  (report m io msgVersion (ascii "VERSION")
    [apiAddString "CGMiner" m.options.version, apiAddConst "API" (ascii "3.7")] isjson).map
      fun io => (m, io)

def strategyText : PoolStrategy → Bytes
  | .failover => ascii "Failover"
  | .roundrobin => ascii "Round Robin"
  | .rotate => ascii "Rotate"
  | .loadbalance => ascii "Load Balance"
  | .balance => ascii "Balance"

def minerconfig : Handler R := fun m _ isjson io =>
  (report m io msgMineconfig (ascii "CONFIG")
    [apiAddInt "ASC Count" (numascs m), apiAddInt "PGA Count" 0,
      apiAddInt "Pool Count" (PoolControl.totalPools m.pools),
      apiAddConst "Strategy" (strategyText m.options.poolStrategy),
      apiAddInt "Log Interval" m.options.optLogInterval, apiAddConst "Device Code" (ascii "BA1 "),
      apiAddConst "OS" (ascii "Linux"), apiAddConst "Hotplug" (ascii "None")]
    isjson).map fun io => (m, io)

/-- `n ? x / n : 0` -/
def ratioOf (part : R) (n : Int) : R :=
  if n = 0 then Floating.ofInt 0 else Floating.div part (Floating.ofInt n)

def summaryRecord (m : Miner R) : List (ApiData R) :=
  let t := m.totals
  let secs := if Floating.isZero t.totalSecs then Floating.ofInt 1 else t.totalSecs
  let answered :=
    Floating.add (Floating.add t.totalDiffAccepted t.totalDiffRejected) t.totalDiffStale
  [apiAddElapsed "Elapsed" t.totalSecs,
    apiAddMhs "MHS av" (Floating.div t.totalMhashesDone t.totalSecs),
    ⟨mhsname m, .fixed 2 t.totalRolling⟩, apiAddMhs "MHS 1m" t.rolling1,
    apiAddMhs "MHS 5m" t.rolling5, apiAddMhs "MHS 15m" t.rolling15,
    apiAddUint "Found Blocks" t.foundBlocks, apiAddInt "Getworks" t.totalGetworks,
    apiAddInt "Accepted" t.totalAccepted, apiAddInt "Rejected" t.totalRejected,
    apiAddInt "Hardware Errors" t.hwErrors,
    apiAddUtility "Utility" (perMinute t.totalAccepted secs),
    apiAddInt "Discarded" t.totalDiscarded, apiAddInt "Stale" t.totalStale,
    apiAddUint "Get Failures" t.totalGo, apiAddUint "Local Work" t.localWork,
    apiAddUint "Remote Failures" t.totalRo, apiAddUint "Network Blocks" t.newBlocks,
    apiAddMhtotal "Total MH" t.totalMhashesDone,
    apiAddUtility "Work Utility" (perMinute t.totalDiff1 secs),
    apiAddDiff "Difficulty Accepted" t.totalDiffAccepted,
    apiAddDiff "Difficulty Rejected" t.totalDiffRejected,
    apiAddDiff "Difficulty Stale" t.totalDiffStale, apiAddUint "Best Share" t.bestDiff,
    apiAddPercent "Device Hardware%"
    (ratioOf (Floating.ofInt t.hwErrors) (t.hwErrors + t.totalDiff1)),
    apiAddPercent "Device Rejected%" (ratioOf t.totalDiffRejected t.totalDiff1),
    apiAddPercent "Pool Rejected%" (shareOf t.totalDiffRejected answered),
    apiAddPercent "Pool Stale%" (shareOf t.totalDiffStale answered),
    apiAddTime "Last getwork" t.lastGetwork]

def summary : Handler R := fun m _ isjson io =>
  (report m io msgSumm (ascii "SUMMARY") (summaryRecord m) isjson).map fun io => (m, io)

def minecoin : Handler R := fun m _ isjson io =>
  (report m io msgMinecoin (ascii "COIN")
    [apiAddConst "Hash Method" (ascii "sha256"), apiAddTimeval "Current Block Time" m.blockTimeval,
      apiAddString "Current Block Hash" m.currentHash, apiAddBool "LP" m.haveLongpoll,
      apiAddDiff "Network Difficulty" m.currentDiff] isjson).map fun io => (m, io)

/-- The share of the pools that came last: its time and its difficulty. -/
def lastShare (m : Miner R) : Nat × R :=
  (m.pools.table.pools.filter fun id => !(m.pools.table.pool id).removed).foldl
    (fun (time, diff) id =>
      let pool := m.pool id
      if time = 0 ∨ time < pool.lastShareTime then (pool.lastShareTime, pool.lastShareDiff) else
        (time, diff))
    (0, Floating.ofInt 0)

def lastValidWork (m : Miner R) : Nat :=
  m.devices.foldl (fun last cgpu =>
    if last = 0 ∨ last < cgpu.lastDeviceValidWork then cgpu.lastDeviceValidWork else last) 0

def highestTemp (m : Miner R) : R :=
  m.devices.foldl (fun temp cgpu =>
    if Floating.lt temp cgpu.temp then Floating.single cgpu.temp else temp)
    (Floating.ofInt 0)

def lcdRecord (m : Miner R) : List (ApiData R) :=
  let t := m.totals
  let ghs (mhs : R) : R := Floating.div mhs (Floating.ofInt 1000)
  [apiAddElapsed "Elapsed" t.totalSecs,
    apiAddMhs "GHS av" (ghs (Floating.div t.totalMhashesDone t.totalSecs)),
    apiAddMhs "GHS 5m" (ghs t.rolling5), apiAddMhs "GHS 5s" (ghs t.totalRolling),
    apiAddTemp "Temperature" (highestTemp m), apiAddDiff "Last Share Difficulty" (lastShare m).2,
    apiAddTime "Last Share Time" (lastShare m).1, apiAddUint "Best Share" t.bestDiff,
    apiAddTime "Last Valid Work" (lastValidWork m), apiAddUint "Found Blocks" t.foundBlocks,
    apiAddEscape "Current Pool" (m.pools.currentpool.elim (some (ascii "none")) fun id =>
    (m.pool id).rpcUrl),
    apiAddEscape "User" (m.pools.currentpool.elim (some []) fun id => (m.pool id).rpcUser)]

def lcddata : Handler R := fun m _ isjson io =>
  (report m io msgLcd (ascii "LCD") (lcdRecord m) isjson).map fun io => (m, io)

/-! ## Fan and power -/

def fanmode : Handler R := fun m param isjson io =>
  match param with
  | none | some [] => (message R (desk m) io msgMispdp 0 none isjson).map fun io => (m, io)
  | some _ => some (m, io)

def fanspd : Handler R := fun m param isjson io =>
  match param with
  | none | some [] => (message R (desk m) io msgMispdp 0 none isjson).map fun io => (m, io)
  | some param =>
    let fanSpeed := atoi param
    some (if fanSpeed ≥ 0 ∧ fanSpeed ≤ 5 then { m with fanSpeed } else m, io)

def powerdown : Handler R := fun m param isjson io =>
  match param with
  | none | some [] => (message R (desk m) io msgMispdp 0 none isjson).map fun io => (m, io)
  | some param => some ({ m with resetDelay := atoi param }, io)

end

end CgminerT4.Source.ApiReports
