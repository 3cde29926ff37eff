import CgminerT4.Source.GbtTemplate

/-!
# Block submission (cgminer.c)

gen_gbt_work and gen_solo_work with what a work keeps for its submission, the
template that the former may ask for before, and the request that
submit_upstream_work makes of a work. The two buffers of 1024
characters have no result when they overflow, and neither has a `txn_data`
string with characters that were never written. A count of transactions that
leaves the range of int has no result. The reply to the request is left out, as
are the midstate and the floating-point difficulty of the work.
-/
namespace CgminerT4.Source.BlockSubmit
open Library.ByteString Library.SignedInt Jansson Hex WorkItem GbtMerkle GbtTemplate

/-- The fields of struct work that a block submission uses besides those of `Work`. -/
structure GbtWork extends Work where
  coinbase : Option Bytes
  gbtTxns : CInt
  deriving DecidableEq

variable (genHash : Bytes → Digest)

def workpadding : Bytes := ascii "00000080" ++ List.replicate 80 0x30 ++ ascii "80020000"

/-- The copies into `work->data`, in order. -/
def gbtWrites (pool : TemplatePool) (merkleroot : Digest) : List (Nat × Bytes) :=
  [(0, pool.gbtVersion), (4, pool.previousblockhash.bytes), (4 + 32 + 32, pool.curtime),
    (4 + 32 + 32 + 4, pool.gbtBits.bytes), (4 + 32, flipWords merkleroot.bytes),
    (4 + 32 + 32 + 4 + 4, List.replicate 4 0),
    (4 + 32 + 32 + 4 + 4 + 4, (hex2bin workpadding 48).1)]

def genGbtWork (pool : TemplatePool) (work : GbtWork) : Option (TemplatePool × GbtWork) :=
  if pool.n2size ≤ 8 then
    (blit pool.coinbase pool.nonce2Offset
      ((littleEndian 8 pool.nonce2.toNat).take pool.n2size)).bind
      fun coinbase =>
        let next := { pool with coinbase, nonce2 := pool.nonce2 + 1 }
        (work.data.storeAll (gbtWrites next (gbtMerkleroot genHash next.toPool))).bind fun data =>
          (CInt.ofInt (pool.gbtTxns + 1)).map fun gbtTxns =>
            (next,
              { work with
                data
                target := pool.gbtTarget
                coinbase := some (bin2hex coinbase)
                gbtTxns
                jobId := pool.gbtWorkid.or work.jobId
                pool := pool.poolNo
                gbt := true
                longpoll := false
                getworkMode := some 'G'
                drvRolllimit := 60 })
  else none

/-- update_gbt with work_decode, for the reply `val` to its request. -/
def updateGbt (pool : TemplatePool) (val : Option Json) (hashSwap : Buffer 32) :
    Option TemplatePool :=
  let resVal := jsonObjectGet val "result"
  if resVal.isNone || jsonIsNull resVal then some pool
  else (gbtDecode genHash pool resVal hashSwap).map (·.1)

/-- gen_gbt_work from its first line: a pool whose last work is over a minute old
is asked for a new template; none in `reply` when the request fails. -/
def genGbtWorkAt (now lastwork : Int) (reply : Option (Option Json)) (hashSwap : Buffer 32)
    (pool : TemplatePool) (work : GbtWork) : Option (TemplatePool × GbtWork) :=
  match (if now - lastwork > 60 then reply else none) with
  | none => genGbtWork genHash pool work
  | some val => (updateGbt genHash pool val hashSwap).bind fun pool => genGbtWork genHash pool work

def genSoloWork (pool : TemplatePool) (work : GbtWork) : Option (TemplatePool × GbtWork) :=
  (GbtMerkle.genSoloWork genHash pool.toPool work.toWork).bind fun (base, out) =>
    (CInt.ofInt (pool.transactions + 1)).map fun gbtTxns =>
      ({ pool with toPool := base },
        { toWork := out, coinbase := some (bin2hex base.coinbase), gbtTxns })

/-! ## submit_upstream_work -/

/-- The characters that the three branches append for the count. -/
def varint (gbtTxns : CInt) : Bytes :=
  if gbtTxns.val < 0xfd then bin2hex [UInt8.ofInt gbtTxns.val]
  else if gbtTxns.val ≤ 0xffff then ascii "fd" ++ bin2hex
    (littleEndian 2 (UInt16.ofInt gbtTxns.val).toNat)
  else ascii "fe" ++ bin2hex (littleEndian 4 (UInt32.ofInt gbtTxns.val).toNat)

def flip80 (data : Buffer 128) : Bytes := flipWords (data.bytes.take 80)

def submitPrefix : Bytes := ascii "\x7b\"id\": 0, \"method\": \"submitblock\", \"params\": [\""

/-- What follows the block hex in the request. -/
def submitSuffix (jobId : Option Bytes) : Bytes :=
  match jobId with
  | none => ascii "\"]\x7d\n"
  | some jobId => ascii "\", \x7b\"workid\": \"" ++ jobId ++ ascii "\"\x7d]\x7d\n"

/-- `gbt_block`. -/
def gbtBlock (work : GbtWork) : Option Bytes :=
  work.coinbase.bind fun coinbase =>
    let block := bin2hex (flip80 work.data) ++ varint work.gbtTxns ++ coinbase
    if block.length < 1024 then some block else none

/-- What is appended to it for the transactions. -/
def blockTxns (pool : TemplatePool) : Option Bytes :=
  if hasGbt pool then some []
  else
    match pool.txnData with
    | none => some []
    | some txnData => if txnData.copied.length = txnData.size then some txnData.copied else none

/-- The request, whose only parameter besides the workid is the block hex. -/
def submitUpstreamWork (pool : TemplatePool) (work : GbtWork) : Option Bytes :=
  (gbtBlock work).bind fun block =>
    if (submitPrefix ++ block).length < 1024 then
      (blockTxns pool).map fun txns => submitPrefix ++ block ++ txns ++ submitSuffix work.jobId
    else none

end CgminerT4.Source.BlockSubmit
