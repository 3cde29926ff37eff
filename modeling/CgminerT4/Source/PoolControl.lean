import CgminerT4.Source.Jansson
import CgminerT4.Source.PoolSwitch
import CgminerT4.Source.SessionTable

/-!
# Control of the pools (cgminer.c, api.c)

The pool table with the flags of the pools and the counter `enabled_pools`, and
the functions and API commands that add, remove, select, enable, disable and
reorder pools. Pools are pointers, so a removed pool keeps its fields. What the
array holds behind `total_pools` is the parameter `behind`; without a current
pool, or with no pointer there, a call has no result. The texts of the replies,
the quotas, the staged works of the last pool, share statistics other than
`seq_rejects` and the pool's test thread are left out.
-/
namespace CgminerT4.Source.PoolControl
open Library.ByteString Jansson
open SessionTable (PoolId PoolTable)
open PoolSwitch (PoolEnable PoolStrategy PoolStatus poolUnusable)

structure Pools where
  table : PoolTable
  status : PoolId → PoolStatus
  seqRejects : PoolId → Nat
  currentpool : Option PoolId
  enabledPools : Int

def zeroedStatus : PoolStatus where
  idle := false
  enabled := .disabled
  hasStratum := false
  stratumActive := false
  stratumNotify := false

def totalPools (s : Pools) : Nat := s.table.pools.length

def setStatus (s : Pools) (pool : PoolId) (status : PoolStatus) : Pools :=
  { s with status := Function.update s.status pool status }

def setEnabled (s : Pools) (pool : PoolId) (flag : PoolEnable) : Pools :=
  setStatus s pool { s.status pool with enabled := flag }

/-! ## The table -/

def addPool (s : Pools) : Pools :=
  { setStatus s s.table.allocated zeroedStatus with
    table := SessionTable.addPool s.table
    seqRejects := Function.update s.seqRejects s.table.allocated 0 }

def enablePool (s : Pools) (pool : PoolId) : Pools :=
  if (s.status pool).enabled ≠ .enabled then
    { setEnabled s pool .enabled with enabledPools := s.enabledPools + 1 }
  else s

def rejectPool (s : Pools) (pool : PoolId) : Pools :=
  { setEnabled s pool .rejecting with
    enabledPools := if (s.status pool).enabled = .enabled then s.enabledPools - 1 else
      s.enabledPools }

def addPoolDetails (s : Pools) (pool : PoolId) : Pools :=
  enablePool (setStatus s pool { s.status pool with idle := true }) pool

/-- The API command addpool with details it accepts, and the result of detect_stratum. -/
def addpool (s : Pools) (hasStratum : Bool) : Pools :=
  let pool := s.table.allocated
  let added := addPool s
  addPoolDetails (setStatus added pool { added.status pool with hasStratum }) pool

def removePool (s : Pools) (pool : PoolId) : Pools :=
  { s with table := SessionTable.removePool s.table pool }

/-! ## switch_pools -/

def priorityPool (t : PoolTable) (choice : Nat) : Option PoolId :=
  (t.pools.find? fun pool => (t.pool pool).prio = choice).or t.pools[choice]?

/-- Move the pools in front of the selected one down. -/
def moveDown (t : PoolTable) (selected other : PoolId) : SessionTable.Pool :=
  if other ∈ t.pools ∧ (t.pool other).prio < (t.pool selected).prio then
    { t.pool other with prio := (t.pool other).prio + 1 }
  else t.pool other

/-- Switch the selected pool to priority 0. -/
def promote (t : PoolTable) (selected : PoolId) : PoolTable :=
  if (t.pool selected).prio ≠ 0 then
    { t with
      pool := Function.update (moveDown t selected) selected
        { moveDown t selected selected with prio := 0 } }
  else t

def usable (s : Pools) (pool : PoolId) : Bool := !poolUnusable (s.status pool)

/-- The first usable pool in the order of the priorities. -/
def masterPool (s : Pools) : Option PoolId :=
  ((List.range (totalPools s)).filterMap (priorityPool s.table)).find? (usable s)

/-- The numbers that follow `nextPool` in the cycle. -/
def cycle (total : Nat) : Nat → Nat → List Nat
  | 0, _ => []
  | count + 1, nextPool =>
    let nextPool := if nextPool + 1 ≥ total then 0 else nextPool + 1
    nextPool :: cycle total count nextPool

/-- The switch over pool_strategy. -/
def choosePool (strategy : PoolStrategy) (s : Pools) (poolNo : Nat)
    (selected : Option PoolId) : Nat :=
  match strategy with
  | .balance | .failover | .loadbalance =>
    match masterPool s with
    | some pool => (s.table.pool pool).poolNo
    | none => poolNo
  | .roundrobin | .rotate =>
    match selected.filter fun pool => !(s.status pool).idle with
    | some pool => (s.table.pool pool).poolNo
    | none =>
      ((cycle (totalPools s) (totalPools s - 1) poolNo).find? fun next =>
        (s.table.pools[next]?).any (usable s)).getD
        poolNo

variable (strategy : PoolStrategy) (behind : Nat → Option PoolId)

def switchPools (s : Pools) (selected : Option PoolId) : Option Pools :=
  s.currentpool.bind fun current =>
    let poolNo := (s.table.pool current).poolNo
    let s := { s with table := selected.elim s.table (promote s.table) }
    let poolNo := choosePool strategy s poolNo selected
    ((s.table.pools[poolNo]?).or (behind poolNo)).map fun pool =>
      { s with currentpool := some pool }

/-! ## API commands -/

inductive Reply where
  | noPool
  | missingId
  | invalidId (id : Int)
  | duplicateId (id : Int)
  | switched
  | alreadyEnabled
  | enabled
  | priorities
  | alreadyDisabled
  | disableLast
  | disabled
  | removeLast
  | activePool
  | removed
  deriving DecidableEq

def isSpace (c : UInt8) : Bool := c = 32 || (9 ≤ c && c ≤ 13)

def isDigit (c : UInt8) : Bool := 48 ≤ c && c ≤ 57

/-- `(int)strtol(s, NULL, 10)`, where strtol stops at the ends of long. -/
def atoi (s : Bytes) : Int :=
  let text := s.dropWhile isSpace
  let negative := text.head? = some 0x2d
  let digits := if negative ∨ text.head? = some 0x2b then text.drop 1 else text
  let number : Int := (digits.takeWhile isDigit).foldl (fun n c => 10 * n + (c.toNat - 48)) 0
  toInt (max (-2 ^ 63) (min (2 ^ 63 - 1) (if negative then -number else number)))

/-- The checks that all commands begin with. -/
def checkParam (s : Pools) (param : Option Bytes) : Except Reply Bytes :=
  if totalPools s = 0 then .error .noPool
  else
    match param with
    | none | some [] => .error .missingId
    | some param => .ok param

/-- The pool that the parameter of a command names. -/
def namedPool (s : Pools) (param : Option Bytes) : Except Reply PoolId :=
  (checkParam s param).bind fun param =>
    let id := atoi param
    if id < 0 ∨ id ≥ totalPools s then .error (.invalidId id)
    else
      match s.table.pools[id.toNat]? with
      | some pool => .ok pool
      | none => .error (.invalidId id)

def switchpool (s : Pools) (param : Option Bytes) : Option (Reply × Pools) :=
  match namedPool s param with
  | .error reply => some (reply, s)
  | .ok pool =>
    (switchPools strategy behind (setEnabled s pool .enabled) (some pool)).map fun s =>
      (.switched, s)

def enablepool (s : Pools) (param : Option Bytes) : Option (Reply × Pools) :=
  match namedPool s param with
  | .error reply => some (reply, s)
  | .ok pool =>
    if (s.status pool).enabled = .enabled then some (.alreadyEnabled, s)
    else
      let s := setEnabled s pool .enabled
      s.currentpool.bind fun current =>
        if (s.table.pool pool).prio < (s.table.pool current).prio then
          (switchPools strategy behind s (some pool)).map fun s => (.enabled, s)
        else some (.enabled, s)

def disablepool (s : Pools) (param : Option Bytes) : Option (Reply × Pools) :=
  match namedPool s param with
  | .error reply => some (reply, s)
  | .ok pool =>
    if (s.status pool).enabled = .disabled then some (.alreadyDisabled, s)
    else if s.enabledPools ≤ 1 then some (.disableLast, s)
    else
      let s := setEnabled s pool .disabled
      if s.currentpool = some pool then (switchPools strategy behind s none).map fun s =>
        (.disabled, s)
      else some (.disabled, s)

def removepool (s : Pools) (param : Option Bytes) : Option (Reply × Pools) :=
  match namedPool s param with
  | .error reply => some (reply, s)
  | .ok pool =>
    if totalPools s ≤ 1 then some (.removeLast, s)
    else
      (if s.currentpool = some pool then switchPools strategy behind s none else some s).map
          fun s =>
        if s.currentpool = some pool then (.activePool, s)
        else (.removed, removePool (setEnabled s pool .disabled) pool)

/-! ## poolpriority -/

/-- The numbers in a list separated by commas; nothing follows a final comma. -/
def listedIds (param : Bytes) : List Int :=
  if param = [] then []
  else atoi (param.takeWhile (· ≠ 0x2c)) :: listedIds ((param.dropWhile (· ≠ 0x2c)).drop 1)
termination_by param.length
decreasing_by
  rename_i nonempty
  have positive := List.length_pos_of_ne_nil nonempty
  have shorter := List.length_dropWhile_le (· ≠ 0x2c) param
  rw [List.length_drop]
  omega

/-- `pools_changed`, `new_prio` and `prio`. -/
structure Mentions where
  changed : Nat → Bool
  newPrio : Nat → Nat
  prio : Nat

def mention (total : Nat) : Mentions → List Int → Except Reply Mentions
  | m, [] => .ok m
  | m, i :: rest =>
    if i < 0 ∨ i ≥ total then .error (.invalidId i)
    else if m.changed i.toNat then .error (.duplicateId i)
    else
      mention total
        { changed := Function.update m.changed i.toNat true
          newPrio := Function.update m.newPrio i.toNat m.prio
          prio := m.prio + 1 } rest

/-- `pools[i]->prio = prio`. -/
def setPrio (t : PoolTable) (i prio : Nat) : PoolTable :=
  match t.pools[i]? with
  | some pool => { t with pool := Function.update t.pool pool { t.pool pool with prio } }
  | none => t

/-- The first `rounds` rounds of the loop that stores the new priorities. -/
def storePriorities (t : PoolTable) (m : Mentions) : Nat → PoolTable
  | 0 => t
  | i + 1 =>
    let t := storePriorities t m i
    if m.changed i then setPrio t i (m.newPrio i) else t

/-- The inner loop: the first unchanged pool with that priority. -/
def findUnchanged (t : PoolTable) (m : Mentions) (pr : Nat) : Option Nat :=
  (List.range t.pools.length).find? fun i =>
    !m.changed i && (t.pools[i]?).any fun pool => (t.pool pool).prio = pr

/-- The first `rounds` rounds of the loop that appends the unchanged pools. -/
def appendPriorities (t : PoolTable) (m : Mentions) : Nat → PoolTable × Mentions
  | 0 => (t, m)
  | pr + 1 =>
    let (t, m) := appendPriorities t m pr
    match findUnchanged t m pr with
    | some i =>
      (setPrio t i m.prio,
        { m with changed := Function.update m.changed i true, prio := m.prio + 1 })
    | none => (t, m)

def poolpriority (s : Pools) (param : Option Bytes) : Option (Reply × Pools) :=
  let read := (checkParam s param).bind fun param =>
    mention (totalPools s) { changed := fun _ => false, newPrio := fun _ => 0, prio := 0 }
      (listedIds param)
  match read with
  | .error reply => some (reply, s)
  | .ok m =>
    let stored := storePriorities s.table m (totalPools s)
    let s := { s with table := (appendPriorities stored m (totalPools s)).1 }
    s.currentpool.bind fun current =>
      if (s.table.pool current).prio ≠ 0 then (switchPools strategy behind s none).map fun s =>
        (.priorities, s)
      else some (.priorities, s)

/-! ## share_result -/

/-- What share_result finds out about a share: whether the pool took it, whether
enough shares were found (`opt_shares`), whether the work was stale, and the
comparison of `seq_rejects` with the utility. -/
structure ShareResult where
  pool : PoolId
  accepted : Bool
  finished : Bool
  stale : Bool
  aboveUtility : Bool

def shareResult (optDisablePool : Bool) (s : Pools) (r : ShareResult) : Option Pools :=
  if r.accepted then
    let s := { s with seqRejects := Function.update s.seqRejects r.pool 0 }
    if r.finished then some s
    else if (s.status r.pool).enabled = .rejecting then switchPools strategy behind
      (enablePool s r.pool) none
    else some s
  else
    let seqRejects := s.seqRejects r.pool + 1
    let s := { s with seqRejects := Function.update s.seqRejects r.pool seqRejects }
    if seqRejects > 10 && !r.stale && optDisablePool && s.enabledPools > 1 && r.aboveUtility then
      let s := rejectPool s r.pool
      (if s.currentpool = some r.pool then switchPools strategy behind s none else some s).map
          fun s =>
        { s with seqRejects := Function.update s.seqRejects r.pool 0 }
    else some s

end CgminerT4.Source.PoolControl
