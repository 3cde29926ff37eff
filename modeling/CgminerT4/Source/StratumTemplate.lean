import CgminerT4.Source.Hex
import CgminerT4.Source.WorkItem

/-!
# Stratum templates (util.c, cgminer.c)

The part of struct pool that a subscription and the notify messages fill and
gen_stratum_work reads. parse_notify stores field by field under data_lock and
can give up after any merkle node, the header and either coinbase part, leaving
what it has stored. A result of none stands for undefined behaviour: a NULL
string decoded or copied, a node freed twice or read after free, a copy that
leaves its array.

gen_hash is the parameter `genHash`. The connection and its flags, the reference
counts of JSON values, the midstate and the floating-point target of a work are
left out.
-/
namespace CgminerT4.Source.StratumTemplate
open Library.ByteString Jansson Hex WorkItem

abbrev Digest := Buffer 32

/-- An entry of `swork.merkle_bin`: a decoded node, an allocated node that
hex2bin gave up on, or a pointer that was freed or never set. -/
inductive Slot where
  | live (node : Digest)
  | undecoded
  | dangling
  deriving DecidableEq

/-- `nonce1bin` are the n1_len bytes of it that are in use, `coinbase` is all of its
memory, of which coinbase_len bytes are in use. The string buffers hold their C
strings. -/
structure Pool where
  poolNo : PoolNo
  sessionid : Option Bytes
  nonce1 : Option Bytes
  nonce1bin : Bytes
  n2size : Nat
  jobId : Option Bytes
  clean : Bool
  merkleBin : List Slot
  merkles : Nat
  prevHash : Bytes
  bbversion : Bytes
  nbit : Bytes
  ntime : Bytes
  headerBin : Buffer 128
  coinbase : Option Bytes
  coinbaseLen : Nat
  nonce2Offset : Nat
  nonce2 : UInt64
  nextDiff : Double
  diffAfter : Double
  sdiff : Double
  badWork : Nat
  getworkRequested : Nat
  deriving DecidableEq

/-- The zeroed struct of add_pool. -/
def emptyPool (poolNo : PoolNo) : Pool where
  poolNo
  sessionid := none
  nonce1 := none
  nonce1bin := []
  n2size := 0
  jobId := none
  clean := false
  merkleBin := []
  merkles := 0
  prevHash := []
  bbversion := []
  nbit := []
  ntime := []
  headerBin := .zero 128
  coinbase := none
  coinbaseLen := 0
  nonce2Offset := 0
  nonce2 := 0
  nextDiff := 0
  diffAfter := 0
  sdiff := 0
  badWork := 0
  getworkRequested := 0

def jsonArrayString (val : Option Json) (entry : Nat) : Option Bytes :=
  jsonStringValue (jsonArrayGet val entry)

/-! ## mining.notify -/

/-- The parameters of a notify message that passes the checks of parse_notify. -/
structure Notify where
  jobId : Bytes
  prevHash : Bytes
  coinbase1 : Bytes
  coinbase2 : Bytes
  merkleArr : List Json
  bbversion : Bytes
  nbit : Bytes
  ntime : Bytes
  clean : Bool

def validStrings (n : Notify) : Bool :=
  validAscii n.jobId && validHex n.prevHash && validHex n.coinbase1 && validHex n.coinbase2 &&
    validHex n.bbversion && validHex n.nbit && validHex n.ntime

/-- parse_notify up to the lock; none when it rejects the message. -/
def readNotify (val : Option Json) : Option Notify :=
  match jsonArrayGet val 4, jsonArrayString val 0, jsonArrayString val 1, jsonArrayString val 2,
    jsonArrayString val 3, jsonArrayString val 5, jsonArrayString val 6, jsonArrayString val 7 with
  | some (.array merkleArr), some jobId, some prevHash, some coinbase1, some coinbase2,
    some bbversion, some nbit, some ntime =>
    let n : Notify :=
      { jobId, prevHash, coinbase1, coinbase2, merkleArr, bbversion, nbit, ntime
        clean := jsonIsTrue (jsonArrayGet val 8) }
    if validStrings n then some n else none
  | _, _, _, _, _, _, _, _ => none

/-- The first stores under the lock, up to `nonce2_offset`. -/
def storeHead (pool : Pool) (n : Notify) : Pool :=
  let cb1Len := n.coinbase1.length / 2
  let cb2Len := n.coinbase2.length / 2
  { pool with
    jobId := some n.jobId
    clean := if pool.prevHash = n.prevHash.take 64 then n.clean else true
    prevHash := n.prevHash.take 64
    bbversion := n.bbversion.take 8
    nbit := n.nbit.take 8
    ntime := n.ntime.take 8
    sdiff := if 0 < pool.nextDiff then pool.nextDiff else pool.sdiff
    nextDiff := if 0 < pool.nextDiff then pool.diffAfter else pool.nextDiff
    diffAfter := if 0 < pool.nextDiff then 0 else pool.diffAfter
    coinbaseLen := cb1Len + pool.nonce1bin.length + pool.n2size + cb2Len
    nonce2Offset := cb1Len + pool.nonce1bin.length }

/-- The loop that frees the old nodes. -/
def freeMerkles : Nat → List Slot → Option (List Slot)
  | 0, slots => some slots
  | _ + 1, [] => none
  | _ + 1, .dangling :: _ => none
  | merkles + 1, _ :: slots => (freeMerkles merkles slots).map (.dangling :: ·)

/-- cgrealloc of the pointer array. -/
def reallocSlots (merkles : Nat) (slots : List Slot) : List Slot :=
  slots.take merkles ++ List.replicate (merkles - slots.length) .dangling

/-- A successful hex2bin of a node. -/
def decodeNode (merkle : Bytes) : Option Digest :=
  if decoded : (hex2bin merkle 32).2 = true then
    some
      { bytes := (hex2bin merkle 32).1
        length_eq := by
          obtain ⟨_, written, size⟩ := hex2bin_success _ _ decoded
          rw [written, size] }
  else none

/-- The loop that allocates and decodes the new nodes from index `i` on. -/
def storeMerkles : List Json → Nat → List Slot → Option (List Slot × Bool)
  | [], _, slots => some (slots, true)
  | entry :: rest, i, slots =>
    match jsonStringValue (some entry) with
    | none => none
    | some merkle =>
      match decodeNode merkle with
      | none => some (slots.set i .undecoded, false)
      | some node => storeMerkles rest (i + 1) (slots.set i (.live node))

def blankMerkle : Bytes := List.replicate 64 0x30

def workpadding : Bytes :=
  [0x30, 0x30, 0x30, 0x30, 0x30, 0x30, 0x38, 0x30] ++ List.replicate 80 0x30 ++
    [0x38, 0x30, 0x30, 0x32, 0x30, 0x30, 0x30, 0x30]

/-- snprintf into `header`, which holds 256 characters. -/
def headerText (n : Notify) : Bytes :=
  (n.bbversion.take 8 ++ n.prevHash.take 64 ++ blankMerkle ++ n.ntime.take 8 ++ n.nbit.take 8 ++
    List.replicate 8 0x30 ++ workpadding).take 256

/-- The new coinbase with its three parts copied in. -/
def buildCoinbase (pool : Pool) (cb1 cb2 : Bytes) : Bytes :=
  overwrite (overwrite (overwrite (cgcalloc pool.coinbaseLen 1) 0 cb1) cb1.length pool.nonce1bin)
    (cb1.length + pool.nonce1bin.length + pool.n2size) cb2

/-- The stores behind the merkle nodes. -/
def storeTail (pool : Pool) (n : Notify) : Pool × Bool :=
  let counted :=
    { pool with
      merkles := n.merkleArr.length
      badWork := if n.merkleArr.length < 2 then pool.badWork + 1 else pool.badWork
      nonce2 := if n.clean then 0 else pool.nonce2 }
  let header := hex2bin (headerText n) 128
  let stored :=
    match counted.headerBin.store 0 header.1 with
    | some headerBin => { counted with headerBin }
    | none => counted
  let cb1 := hex2bin n.coinbase1 (n.coinbase1.length / 2)
  let cb2 := hex2bin n.coinbase2 (n.coinbase2.length / 2)
  if !header.2 then (stored, false)
  else if !cb1.2 then (stored, false)
  else if !cb2.2 then (stored, false)
  else ({ stored with coinbase := some (buildCoinbase stored cb1.1 cb2.1) }, true)

/-- The section of parse_notify under data_lock. -/
def storeNotify (pool : Pool) (n : Notify) : Option (Pool × Bool) :=
  let head := storeHead pool n
  match freeMerkles head.merkles head.merkleBin with
  | none => none
  | some freed =>
    let slots := if n.merkleArr = [] then freed else reallocSlots n.merkleArr.length freed
    match storeMerkles n.merkleArr 0 slots with
    | none => none
    | some (merkleBin, false) => some ({ head with merkleBin }, false)
    | some (merkleBin, true) => some (storeTail { head with merkleBin } n)

def parseNotify (pool : Pool) (val : Option Json) : Option (Pool × Bool) :=
  match readNotify val with
  | none => some (pool, false)
  | some n => (storeNotify pool n).map fun (next, ret) =>
      ({ next with getworkRequested := next.getworkRequested + 1 }, ret)

/-! ## The other messages -/

def parseDiff (pool : Pool) (val : Option Json) : Pool × Bool :=
  let diff : Double := (jsonNumberValue (jsonArrayGet val 0) : ℚ)
  if diff ≤ 0 then (pool, false)
  else if pool.nextDiff ≠ 0 then ({ pool with diffAfter := diff }, true)
  else ({ pool with nextDiff := diff }, true)

def toLower (c : UInt8) : UInt8 := if 65 ≤ c ∧ c ≤ 90 then c + 32 else c

/-- `!strncasecmp(buf, name, strlen(name))` for a lower case name. -/
def startsWithName (buf name : Bytes) : Bool := (buf.take name.length).map toLower = name

/-- "mining.notify" -/
def notifyName : Bytes :=
  [0x6D, 0x69, 0x6E, 0x69, 0x6E, 0x67, 0x2E, 0x6E, 0x6F, 0x74, 0x69, 0x66, 0x79]

/-- "mining.set_difficulty" -/
def setDifficultyName : Bytes :=
  [0x6D, 0x69, 0x6E, 0x69, 0x6E, 0x67, 0x2E, 0x73, 0x65, 0x74, 0x5F, 0x64, 0x69, 0x66, 0x66, 0x69,
   0x63, 0x75, 0x6C, 0x74, 0x79]

inductive Method where
  | notify (params : Option Json)
  | setDifficulty (params : Option Json)
  | other

/-- The dispatch of parse_method on a decoded line, none when it is not JSON. -/
def readMethod (val : Option Json) : Method :=
  let errVal := jsonObjectGet val "error"
  let params := jsonObjectGet val "params"
  match jsonStringValue (jsonObjectGet val "method") with
  | none => .other
  | some buf =>
    if errVal.isSome && !jsonIsNull errVal then .other
    else if startsWithName buf notifyName then .notify params
    else if startsWithName buf setDifficultyName then .setDifficulty params
    else .other

/-- The methods other than these two do not touch the template; a reconnect
subscribes anew by itself. -/
def parseMethod (pool : Pool) (val : Option Json) : Option (Pool × Bool) :=
  match readMethod val with
  | .notify params => parseNotify pool params
  | .setDifficulty params => some (parseDiff pool params)
  | .other => some (pool, false)

/-! ## Subscription -/

/-- The loop of get_sessionid over the subscriptions in the reply. -/
def findSessionid : List Json → Option Bytes
  | [] => none
  | entry :: rest =>
    if !jsonIsArray (some entry) then none
    else
      match jsonArrayString (some entry) 0 with
      | none => findSessionid rest
      | some notify =>
        if startsWithName notify notifyName then jsonArrayString (some entry) 1
        else findSessionid rest

def getSessionid (val : Option Json) : Option Bytes :=
  match jsonArrayGet val 0 with
  | some (.array items) => findSessionid items
  | _ => none

/-- One attempt of initiate_stratum to get an answer. -/
inductive Attempt where
  /-- No connection, nothing sent or no line received. -/
  | unanswered
  /-- The line received, none when it is not JSON. -/
  | reply (val : Option Json)

/-- What a reply has to name: session id, extranonce1 and the size of extranonce2. -/
structure Subscription where
  sessionid : Option Bytes
  nonce1 : Bytes
  n2size : Nat

/-- The checks on a reply. -/
def readSubscription (val : Option Json) : Option Subscription :=
  let resVal := jsonObjectGet val "result"
  let errVal := jsonObjectGet val "error"
  if resVal.isNone || jsonIsNull resVal || (errVal.isSome && !jsonIsNull errVal) then none
  else
    match jsonArrayString resVal 1 with
    | none => none
    | some nonce1 =>
      let n2size := toInt (jsonIntegerValue (jsonArrayGet resVal 2))
      if !validHex nonce1 then none
      else if n2size < 2 ∨ n2size > 16 then none
      else some { sessionid := getSessionid resVal, nonce1, n2size := n2size.toNat }

/-- The stores of a successful subscription. -/
def storeSubscription (pool : Pool) (sub : Subscription) : Pool :=
  { pool with
    sessionid := sub.sessionid
    nonce1 := some sub.nonce1
    nonce1bin := overwrite (List.replicate (sub.nonce1.length / 2) 0) 0
      (hex2bin sub.nonce1 (sub.nonce1.length / 2)).1
    n2size := sub.n2size
    nextDiff := 0
    diffAfter := 0
    sdiff := 1 }

def readAttempt : Attempt → Option Subscription
  | .unanswered => none
  | .reply val => readSubscription val

/-- initiate_stratum: after a reply that is no good the session is dropped and a
second attempt made. -/
def initiateStratum (pool : Pool) (first second : Attempt) : Pool × Bool :=
  match first, readAttempt first with
  | _, some sub => (storeSubscription pool sub, true)
  | .unanswered, none => (pool, false)
  | .reply _, none =>
    let afresh := { pool with sessionid := none, nonce1 := none }
    match readAttempt second with
    | some sub => (storeSubscription afresh sub, true)
    | none => (afresh, false)

/-! ## gen_stratum_work -/

variable (genHash : Bytes → Digest)

/-- The loop over the merkle nodes. -/
def foldMerkleBin : Nat → List Slot → Digest → Option Digest
  | 0, _, merkleRoot => some merkleRoot
  | merkles + 1, .live node :: slots, merkleRoot =>
    foldMerkleBin merkles slots (genHash (merkleRoot.bytes ++ node.bytes))
  | _ + 1, _, _ => none

/-- `behind` are the bytes that lie behind the eight bytes of `nonce2le` on the
stack; a longer copy reads them too. -/
def genStratumWork (behind : Bytes) (pool : Pool) (work : Work) : Option (Pool × Work) :=
  let nonce2le := littleEndian 8 pool.nonce2.toNat ++ behind
  match pool.coinbase, pool.jobId, pool.nonce1 with
  | some coinbase, some jobId, some nonce1 =>
    if pool.n2size ≤ nonce2le.length ∧ pool.coinbaseLen ≤ coinbase.length then
      (blit coinbase pool.nonce2Offset (nonce2le.take pool.n2size)).bind fun updated =>
        (foldMerkleBin genHash pool.merkles pool.merkleBin
          (genHash (updated.take pool.coinbaseLen))).bind fun merkleRoot =>
            (work.data.store 0 (pool.headerBin.bytes.take 112)).bind fun header =>
              (header.store 36 (flipWords merkleRoot.bytes)).map fun data =>
                ({ pool with coinbase := some updated, nonce2 := pool.nonce2 + 1 },
                  { work with
                    data
                    nonce2 := pool.nonce2
                    nonce2Len := pool.n2size
                    sdiff := pool.sdiff
                    jobId := some jobId
                    nonce1 := some nonce1
                    ntime := some pool.ntime
                    pool := pool.poolNo
                    stratum := true
                    nonce := 0
                    longpoll := false
                    getworkMode := some 'S'
                    drvRolllimit := 60 })
    else none
  | _, _, _ => none

end CgminerT4.Source.StratumTemplate
