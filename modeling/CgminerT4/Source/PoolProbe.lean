import CgminerT4.Source.GbtTemplate
import CgminerT4.Source.PoolConfig

/-!
# The probe for block templates (cgminer.c, util.c)

gbt_check_rules, and pool_active up to the end of the probe, which chooses
between the protocols gbt and gbt solo. `answers` gives what the url of the pool
answers to a request, none where the transfer or the parsing fails; `curl` and
`gbtCurl` tell whether curl_easy_init gives a handle. What pool_active does behind
the probe, with getwork or with stratum changes none of the fields here.
-/
namespace CgminerT4.Source.PoolProbe
open Library.ByteString Jansson WorkItem GbtTemplate PoolConfig

/-- gbt_req or gbt_solo_req. -/
inductive Request where
  | gbt | gbtSolo
  deriving DecidableEq

def understoodRules : Request → List Bytes
  | .gbt => []
  | .gbtSolo => [ascii "segwit"]

def bang : UInt8 := 0x21

/-- The items that a loop with an `int` counter visits. -/
def countedItems (arr : Option Json) : List Json :=
  (arrayItems arr).take (toInt (jsonArraySize arr)).toNat

def gbtCheckRequiredRule (rule : Bytes) (understoodRules : List Bytes) : Bool :=
  rule ∈ understoodRules

/-- One turn of the loop over the rules. -/
def ruleUnderstood (understoodRules : List Bytes) (rule : Json) : Bool :=
  match jsonStringValue (some rule) with
  | some (c :: rest) => c ≠ bang || gbtCheckRequiredRule rest understoodRules
  | _ => true

def gbtCheckRules (rulesArr : Option Json) (understoodRules : List Bytes) : Bool :=
  (countedItems rulesArr).all (ruleUnderstood understoodRules)

/-- The last check of json_rpc_call: a result, and no error. -/
def jsonRpcCall (answer : Option Json) : Option Json :=
  match answer with
  | none => none
  | some val =>
    if jsonObjectGet (some val) "result" = none then none
    else
      match jsonObjectGet (some val) "error" with
      | some err => if jsonIsNull (some err) then some val else none
      | none => some val

/-- The strings of the `mutable` array that have a meaning. -/
structure Mutables where
  append : Bool
  submit : Bool
  transactions : Bool
  deriving DecidableEq

/-- `!strncasecmp(s, name, n)` for a name of `n` characters. -/
def hasPrefix (name s : Bytes) : Bool := (s.take name.length).map lower = name

/-- One turn of the loop over the mutable strings. -/
def readMutable (seen : Mutables) (arrval : Json) : Mutables :=
  match jsonStringValue (some arrval) with
  | none => seen
  | some text =>
    if hasPrefix (ascii "coinbase/append") text then { seen with append := true }
    else if hasPrefix (ascii "submit/coinbase") text then { seen with submit := true }
    else if hasPrefix (ascii "transactions") text then { seen with transactions := true }
    else seen

def readMutables (val : Json) : Mutables :=
  (countedItems (jsonObjectGet (jsonObjectGet (some val) "result") "mutable")).foldl readMutable
    ⟨false, false, false⟩

structure Pool where
  poolNo : PoolNo
  hasStratum : Bool
  probed : Bool
  hasGbt : Bool
  gbtSolo : Bool
  rpcReq : Request
  gbtCurl : Bool

/-- The pool, and opt_btcd. -/
structure State where
  pool : Pool
  optBtcd : Option PoolNo

/-- The answer that the mutable strings are read from: that to gbt_req, or that
to gbt_solo_req when the first one is missing or refused. -/
def probed (answers : Request → Option Json) : Option (Request × Json) :=
  let accepted (request : Request) : Option Json :=
    (jsonRpcCall (answers request)).filter fun val =>
      gbtCheckRules (jsonObjectGet (some val) "rules") (understoodRules request)
  match accepted .gbt with
  | some val => some (.gbt, val)
  | none => (accepted .gbtSolo).map fun val => (.gbtSolo, val)

/-- The fields that an answer sets; none when the program quits. -/
def setProtocol (s : State) (gbtCurl : Bool) (val : Json) : Option State :=
  let seen := readMutables val
  if seen.append && seen.submit then
    some { s with pool := { s.pool with hasGbt := true, rpcReq := .gbt } }
  else if seen.transactions then
    if gbtCurl then
      some { s with
        pool := { s.pool with rpcReq := .gbtSolo, gbtCurl := true, gbtSolo := true }
        optBtcd := some (s.optBtcd.getD s.pool.poolNo) }
    else none
  else some s

/-- pool_active up to the end of the probe; none when the program quits. -/
def poolActive (optGetwork curl gbtCurl : Bool) (answers : Request → Option Json) (s : State) :
    Option State :=
  if optGetwork || s.pool.hasStratum || !curl || s.pool.probed then some s
  else
    let set := match probed answers with
      | some (_, val) => setProtocol s gbtCurl val
      | none => some s
    set.map fun s => { s with pool := { s.pool with probed := false } }

end CgminerT4.Source.PoolProbe
