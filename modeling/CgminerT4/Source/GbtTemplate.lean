import CgminerT4.Source.GbtWitness
import CgminerT4.Source.WorkRoll

/-!
# Block templates: decoding (cgminer.c)

gbt_decode for pools that provide the coinbase and gbt_solo_decode for solo
mining, with all the fields of struct pool they store. diff_from_target is the
parameter `diffFromTarget`, gen_hash the parameter `genHash`; the clock, the
contents of an uninitialised `hash_swap` and opt_btc_sig are arguments. A copy
that leaves its array and a pointer moved behind the end of its string have no
result; the terminator that __bin2hex writes one byte behind `witness_str` is
taken to hit nothing. `scriptsig_base` is followed by `script_pubkey` in struct
pool, so a copy that runs over its end reads from there.
-/
namespace CgminerT4.Source.GbtTemplate
open Library.ByteString Jansson Hex WorkItem WorkRoll GbtMerkle GbtWitness

/-- The string in `txn_data`: the characters copied so far, and the length it
was allocated for. -/
structure TxnData where
  copied : Bytes
  size : Nat
  deriving DecidableEq

/-- `coinbase` are the coinbase_len bytes in use of the `coinbaseAlloc` bytes that
cgcalloc allocates for it. A pool either provides the coinbase (has_gbt) or is mined solo. -/
structure TemplatePool extends GbtMerkle.Pool where
  gbtSolo : Bool
  coinbaseAlloc : Nat
  previousblockhash : Buffer 32
  prevHash : Bytes
  gbtVersion : Bytes
  curtime : Bytes
  bbversion : Bytes
  nbit : Bytes
  nValue : Int
  gbtBits : Buffer 4
  gbtWorkid : Option Bytes
  gbtTxns : Nat
  txnData : Option TxnData
  badWork : Nat
  height : Int
  scriptsigBase : Buffer 100
  scriptPubkey : Buffer 28
  n1Len : Nat

/-- The zeroed struct of add_pool, once pool_active has found its mode. -/
def newPool (poolNo : PoolNo) (gbtSolo : Bool) : TemplatePool where
  poolNo
  coinbase := []
  nonce2 := 0
  nonce2Offset := 0
  n2size := 0
  headerBin := .zero 128
  ntime := []
  gbtTarget := .zero 32
  sdiff := 0
  transactions := 0
  merklebin := .zero (16 * 32)
  merkles := 0
  gbtSolo
  coinbaseAlloc := 0
  previousblockhash := .zero 32
  prevHash := []
  gbtVersion := List.replicate 4 0
  curtime := List.replicate 4 0
  bbversion := []
  nbit := []
  nValue := 0
  gbtBits := .zero 4
  gbtWorkid := none
  gbtTxns := 0
  txnData := none
  badWork := 0
  height := 0
  scriptsigBase := .zero 100
  scriptPubkey := .zero 28
  n1Len := 0

def hasGbt (pool : TemplatePool) : Bool := !pool.gbtSolo

/-! ## Transactions -/

def arrayItems (arr : Option Json) : List Json :=
  match arr with
  | some (.array items) => items
  | _ => []

def transactionData (txn : Json) : Option Bytes := jsonStringValue (jsonObjectGet (some txn) "data")

/-- The loop that copies the data; it ends with the first transaction that has
no id. -/
def copyTxnData : List Json → Bytes
  | [] => []
  | txn :: rest =>
    match storedTxid txn with
    | none => (transactionData txn).getD []
    | some _ => (transactionData txn).getD [] ++ copyTxnData rest

def storeTxnData (txns : List Json) : Option TxnData :=
  if txns.isEmpty then none
  else if txns.all fun txn => (transactionData txn).isSome then
    some { copied := copyTxnData txns, size := (txns.map fun txn =>
      ((transactionData txn).getD []).length).sum }
  else none

variable (genHash : Bytes → Digest)

/-- gbt_merkle_bins with the data it keeps for a submission. -/
def buildGbtTxns (pool : TemplatePool) (transactionArr : Option Json) : Option TemplatePool :=
  (gbtMerkleBins genHash pool.toPool transactionArr).map fun base =>
    { pool with toPool := base, txnData := storeTxnData (arrayItems transactionArr) }

/-! ## Common fields -/

/-- hex2bin into an array of the right size; after a failure the bytes it did
not reach are the old ones. -/
def hex2binInto (b : Buffer n) (hexstr : Bytes) : Buffer n :=
  ⟨overwrite b.bytes 0 (hex2bin hexstr n).1, by
    have written := length_hex2bin_le hexstr n
    rw [length_overwrite _ _ _ (by rw [b.length_eq]; omega), b.length_eq]⟩

/-- Words in reverse order. -/
def swap256 (src : Buffer 32) : Buffer 32 :=
  ⟨flipWords src.bytes.reverse, by rw [length_flipWords, List.length_reverse, src.length_eq]⟩

def swabTarget (src : Buffer 32) : Buffer 32 :=
  ⟨swab256 src.bytes, by rw [swab256, List.length_reverse, src.length_eq]⟩

/-- The conversion %08x. -/
def hex08 (n : Int) : Bytes := bin2hex (htobe32 (UInt32.ofInt n))

variable (diffFromTarget : Buffer 32 → Double)

/-- The stores that both decoders make from these members. -/
def storeCommon (pool : TemplatePool) (hashSwap : Buffer 32) (previousblockhash target bits : Bytes)
    (version curtime : Int) : TemplatePool :=
  let prevSwap := hex2binInto hashSwap previousblockhash
  { pool with
    previousblockhash := swap256 prevSwap
    gbtTarget := swabTarget (hex2binInto prevSwap target)
    gbtVersion := htobe32 (UInt32.ofInt version)
    curtime := htobe32 (UInt32.ofInt curtime)
    gbtBits := hex2binInto pool.gbtBits bits }

/-! ## gbt_decode -/

structure GbtFields where
  previousblockhash : Bytes
  target : Bytes
  coinbasetxn : Bytes
  version : Int
  curtime : Int
  bits : Bytes
  workid : Option Bytes

/-- gbt_decode up to the lock; none when a member is missing. -/
def readGbt (resVal : Option Json) : Option GbtFields :=
  match jsonStringValue (jsonObjectGet resVal "previousblockhash"),
    jsonStringValue (jsonObjectGet resVal "target"),
    jsonStringValue (jsonObjectGet (jsonObjectGet resVal "coinbasetxn") "data"),
    jsonStringValue (jsonObjectGet resVal "longpollid"),
      jsonStringValue (jsonObjectGet resVal "bits") with
  | some previousblockhash, some target, some coinbasetxn, some _, some bits =>
    let expires := toInt (jsonIntegerValue (jsonObjectGet resVal "expires"))
    let version := toInt (jsonIntegerValue (jsonObjectGet resVal "version"))
    let curtime := toInt (jsonIntegerValue (jsonObjectGet resVal "curtime"))
    if expires = 0 ∨ version = 0 ∨ curtime = 0 then none
    else
      some
        { previousblockhash, target, coinbasetxn, version, curtime, bits
          workid := jsonStringValue (jsonObjectGet resVal "workid") }
  | _, _, _, _, _ => none

/-- The coinbase with room for the nonce2 behind its script, and the offset of
that room. The lengths are ints. -/
def appendNonce2 (coinbasetxn : Bytes) : Option (Bytes × Nat) :=
  let cbtLen := coinbasetxn.length / 2
  if 2 ^ 31 ≤ cbtLen + 9 then none
  else if coinbasetxn.length < 84 then none
  else
    (blit (cgcalloc (cbtLen + 9) 1) 0 (hex2bin coinbasetxn 42).1).bind fun front =>
      let origLen := (front.getD 41 0).toNat
      let extraLen := UInt8.ofNat (origLen + 8)
      if coinbasetxn.length < 84 + 2 * origLen then none
      else
        (blit front 42 (hex2bin (coinbasetxn.drop 84) origLen).1).bind fun script =>
          (blit (script.set 41 extraLen) (42 + extraLen.toNat)
            (hex2bin (coinbasetxn.drop (84 + 2 * origLen)) (cbtLen - origLen - 42)).1).map
                fun coinbase =>
              (coinbase, origLen + 42)

def gbtDecode (pool : TemplatePool) (resVal : Option Json) (hashSwap : Buffer 32) :
    Option (TemplatePool × Bool) :=
  match readGbt resVal with
  | none => some (pool, false)
  | some t =>
    (appendNonce2 t.coinbasetxn).bind fun (coinbase, nonce2Offset) =>
      let common :=
        storeCommon pool hashSwap t.previousblockhash t.target t.bits t.version t.curtime
      let stored :=
        { common with
          n2size := 8
          coinbase := coinbase.take (t.coinbasetxn.length / 2 + 8)
          coinbaseAlloc := coinbase.length
          nonce2Offset
          gbtWorkid := t.workid }
      (buildGbtTxns genHash stored (jsonObjectGet resVal "transactions")).map fun built =>
        ({ built with badWork := if built.transactions < 3 then built.badWork + 1 else built.badWork }, true)

/-! ## gbt_solo_decode -/

structure SoloFields where
  previousblockhash : Bytes
  target : Bytes
  transactionArr : Option Json
  version : Int
  curtime : Int
  bits : Bytes
  height : Int
  coinbasevalue : UInt64
  flags : Bytes
  insertWitness : Bool
  defaultWitnessCommitment : Option Bytes

/-- `if (*rule == '!') rule++;` -/
def skipMark (rule : Bytes) : Bytes := if rule.head? = some 0x21 then rule.drop 1 else rule

/-- The loop over the rules: it stops at one whose name does not start with segwit. -/
def insertWitness (rulesArr : Option Json) : Bool :=
  (arrayItems rulesArr).any fun rule =>
    match jsonStringValue (some rule) with
    | none => false
    | some text => (skipMark text).take 6 ≠ ascii "segwit"

/-- gbt_solo_decode up to the lock; none when a member is missing. -/
def readSolo (resVal : Option Json) : Option SoloFields :=
  match jsonStringValue (jsonObjectGet resVal "previousblockhash"),
    jsonStringValue (jsonObjectGet resVal "target"),
    jsonStringValue (jsonObjectGet resVal "bits"), jsonObjectGet resVal "coinbaseaux",
    jsonStringValue (jsonObjectGet (jsonObjectGet resVal "coinbaseaux") "flags") with
  | some previousblockhash, some target, some bits, some _, some flags =>
    let version := toInt (jsonIntegerValue (jsonObjectGet resVal "version"))
    let curtime := toInt (jsonIntegerValue (jsonObjectGet resVal "curtime"))
    if version = 0 ∨ curtime = 0 then none
    else
      some
        { previousblockhash, target, version, curtime, bits, flags
          transactionArr := jsonObjectGet resVal "transactions"
          height := toInt (jsonIntegerValue (jsonObjectGet resVal "height"))
          coinbasevalue := UInt64.ofInt (jsonIntegerValue (jsonObjectGet resVal "coinbasevalue"))
          insertWitness := insertWitness (jsonObjectGet resVal "rules")
          defaultWitnessCommitment := jsonStringValue
            (jsonObjectGet resVal "default_witness_commitment") }
  | _, _, _, _, _ => none

/-- The stores under gbt_lock up to `gbt_bits`. -/
def storeSolo (pool : TemplatePool) (t : SoloFields) (hashSwap : Buffer 32) : TemplatePool :=
  let common := storeCommon pool hashSwap t.previousblockhash t.target t.bits t.version t.curtime
  { common with
    prevHash := bin2hex common.previousblockhash.bytes
    sdiff := diffFromTarget common.gbtTarget
    ntime := hex08 t.curtime
    bbversion := hex08 t.version
    nbit := t.bits.take 8
    nValue := toInt t.coinbasevalue.toNat }

/-- What becomes of the witness commitment. -/
inductive Witness where
  | undefined
  | rejected
  | data (witnessdata : Bytes)
  deriving DecidableEq

def witnessdataSize : Nat := 36

/-- The commitment is calculated and compared with the one of the template. -/
def checkWitness (t : SoloFields) : Witness :=
  let zeros := List.replicate witnessdataSize 0
  if !t.insertWitness then .data zeros
  else
    let calculated := gbtWitnessData genHash t.transactionArr zeros witnessdataSize
    if !calculated.1 then .rejected
    else
      match t.defaultWitnessCommitment with
      | none => .data calculated.2
      | some commitment =>
        if commitment.length < 4 then .undefined
        else if (commitment.drop 4).take (2 * witnessdataSize) ≠ bin2hex calculated.2 then .rejected
        else .data calculated.2

/-- The five bytes written, and how many of them are used. -/
def serNumber (val : Int) : Bytes × Nat :=
  let len := if val < 128 then 1 else if val < 16512 then 2 else if val < 2113664 then 3 else 4
  (UInt8.ofNat len :: littleEndian 4 (UInt32.ofInt val).toNat, len + 1)

structure Time where
  sec : Nat
  usec : Nat

/-- The timestamp, the name of the miner and the size of the extranonce. -/
def timestamp (now : Time) : Bytes :=
  0xfe :: littleEndian 4 now.sec ++ 0xfe :: littleEndian 4 now.usec ++
    (9 :: ascii "cgminer42") ++ [8]

/-- Where the flags start, behind their size. -/
def flagsOfs (t : SoloFields) : Nat := 1 + (serNumber t.height).2 + 1

def timestampOfs (t : SoloFields) : Nat := flagsOfs t + t.flags.length / 2

/-- Where the extranonce starts. -/
def extranonceOfs (t : SoloFields) : Nat := timestampOfs t + 21

def sigOfs (t : SoloFields) : Nat := extranonceOfs t + 8

/-- At most 32 characters of opt_btc_sig, behind their number. -/
def sigPush (sig : Bytes) : Bytes := UInt8.ofNat (min sig.length 32) :: sig.take 32

/-- `ofs` before the template length is stored. -/
def scriptLength (t : SoloFields) (optBtcSig : Option Bytes) : Nat :=
  match optBtcSig with
  | none => sigOfs t
  | some sig => sigOfs t + (sigPush sig).length

/-- The writes to `scriptsig_base`, in order; the extranonce is not among them. -/
def scriptWrites (t : SoloFields) (now : Time) (optBtcSig : Option Bytes) : List (Nat × Bytes) :=
  [(0, List.replicate 42 0),
    (1, (serNumber t.height).1),
    (flagsOfs t - 1, [UInt8.ofNat (t.flags.length / 2)]),
    (flagsOfs t, (hex2bin t.flags (t.flags.length / 2)).1),
    (timestampOfs t, timestamp now)] ++
    (optBtcSig.toList.map fun sig => (sigOfs t, sigPush sig)) ++
    [(0, [UInt8.ofNat (scriptLength t optBtcSig)])]

/-- The second output, empty without a witness. -/
def witnessOutput (insertWitness : Bool) (witnessdata : Bytes) : Bytes :=
  if insertWitness then
    List.replicate 8 0 ++ [UInt8.ofNat (witnessdataSize + 2), 0x6a, UInt8.ofNat witnessdataSize] ++
      witnessdata
  else []

/-- The writes to the new coinbase, behind room for its first 41 bytes. -/
def coinbaseWrites (t : SoloFields) (witnessdata script : Bytes) : List (Nat × Bytes) :=
  let ofs := script.length
  [(41, script),
    (41 + ofs, [0xff, 0xff, 0xff, 0xff]),
    (41 + ofs + 4, [if t.insertWitness then 2 else 1]),
    (41 + ofs + 4 + 1, littleEndian 8 t.coinbasevalue.toNat),
    (41 + ofs + 4 + 1 + 8 + 1 + 25, witnessOutput t.insertWitness witnessdata)]

/-- `len`: what cgcalloc is asked for. -/
def coinbaseSize (insertWitness : Bool) (ofs : Nat) : Nat :=
  41 + ofs + 4 + 1 + 8 + 1 + 25 + 4 + if insertWitness then 8 + 1 + 2 + witnessdataSize else 0

/-- The stores behind the witness commitment. -/
def storeCoinbase (pool : TemplatePool) (t : SoloFields) (witnessdata : Bytes) (now : Time)
    (optBtcSig : Option Bytes) : Option TemplatePool :=
  (pool.scriptsigBase.storeAll (scriptWrites t now optBtcSig)).bind fun scriptsigBase =>
    let ofs := scriptLength t optBtcSig + 1
    let size := coinbaseSize t.insertWitness ofs * alignLen 1
    let coinbaseLen :=
      41 + ofs + 4 + 1 + 8 + 1 + 25 + (witnessOutput t.insertWitness witnessdata).length + 4
    let readable := scriptsigBase.bytes ++ pool.scriptPubkey.bytes
    if ofs ≤ readable.length ∧ coinbaseLen ≤ size then
      ((Buffer.zero size).storeAll (coinbaseWrites t witnessdata (readable.take ofs))).map
          fun coinbase =>
        { pool with
          badWork := if pool.transactions < 3 then pool.badWork + 1 else pool.badWork
          height := t.height
          scriptsigBase
          nonce2Offset := 41 + extranonceOfs t
          n1Len := ofs
          coinbase := coinbase.bytes.take coinbaseLen
          coinbaseAlloc := size
          nonce2 := 0
          n2size := 4 }
    else none

/-- The text of the header; its 256 characters always fit. -/
def soloHeader (pool : TemplatePool) : Bytes :=
  pool.bbversion ++ pool.prevHash ++ List.replicate 64 0x30 ++ pool.ntime ++ pool.nbit ++
    List.replicate 8 0x30 ++
    ([0x30, 0x30, 0x30, 0x30, 0x30, 0x30, 0x38, 0x30] ++ List.replicate 80 0x30 ++
      [0x38, 0x30, 0x30, 0x32, 0x30, 0x30, 0x30, 0x30])

inductive Decoded where
  /-- The process exits. -/
  | quit
  | undefined
  /-- The pool, whether gbt_lock is still held, and the result. -/
  | returned (pool : TemplatePool) (locked ret : Bool)

/-- The last part, without the lock. -/
def storeHeader (pool : TemplatePool) : Decoded :=
  if (hex2bin (soloHeader pool) 128).2 then
    .returned { pool with headerBin := hex2binInto pool.headerBin (soloHeader pool) } false true
  else .quit

def gbtSoloDecode (pool : TemplatePool) (resVal : Option Json) (hashSwap : Buffer 32) (now : Time)
    (optBtcSig : Option Bytes) : Decoded :=
  match readSolo resVal with
  | none => .returned pool false false
  | some t =>
    match buildGbtTxns genHash (storeSolo diffFromTarget pool t hashSwap) t.transactionArr with
    | none => .undefined
    | some stored =>
      match checkWitness genHash t with
      | .undefined => .undefined
      | .rejected => .returned stored true false
      | .data witnessdata =>
        match storeCoinbase stored t witnessdata now optBtcSig with
        | none => .undefined
        | some built => storeHeader built

/-! ## __setup_gbt_solo -/

def scriptsigHeader : Bytes := ascii "0100000001" ++ List.replicate 64 0x30 ++ ascii "ffffffff"

def scriptsigHeaderBin : Bytes := (hex2bin scriptsigHeader 41).1

def setupGbtSolo (pool : TemplatePool) : Option TemplatePool :=
  (blit pool.coinbase 0 scriptsigHeaderBin).bind fun headed =>
    (blit headed (41 + pool.n1Len + 4 + 1 + 8) [25]).bind fun sized =>
      (blit sized (41 + pool.n1Len + 4 + 1 + 8 + 1) (pool.scriptPubkey.bytes.take 25)).map
          fun coinbase =>
        { pool with coinbase }

end CgminerT4.Source.GbtTemplate
