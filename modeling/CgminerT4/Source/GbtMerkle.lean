import CgminerT4.Source.Hex
import CgminerT4.Source.WorkItem

/-!
# Block templates: transactions and merkle branch (cgminer.c)

gbt_merkle_bins lays the transaction ids out behind a placeholder for the
coinbase and halves this list in place, keeping the first node behind the
placeholder of every level in `merklebin`. __gbt_merkleroot and gen_solo_work
hash the kept nodes into the hash of the coinbase. gen_hash is the parameter
`genHash`. The transaction data kept for submitting a block and the strings for
the submission are left out.
-/
namespace CgminerT4.Source.GbtMerkle
open Library.ByteString Jansson Hex WorkItem

abbrev Digest := Buffer 32

/-- The fields of struct pool that templates use; `coinbase_len` is the length
of `coinbase`. -/
structure Pool where
  poolNo : PoolNo
  coinbase : Bytes
  nonce2 : UInt64
  nonce2Offset : Nat
  n2size : Nat
  headerBin : Buffer 128
  ntime : Bytes
  gbtTarget : Buffer 32
  sdiff : Double
  transactions : Nat
  merklebin : Buffer (16 * 32)
  merkles : Nat

variable (genHash : Bytes → Digest)

/-- Words in reverse order, each with its bytes in reverse order. -/
def swab256 (src : Bytes) : Bytes := src.reverse

/-- The id a transaction object goes by, as it is stored in `hashbin`. -/
def storedTxid (txn : Json) : Option Bytes :=
  let hash := jsonStringValue (jsonObjectGet (some txn) "hash")
  match (jsonStringValue (jsonObjectGet (some txn) "txid")).or hash with
  | none => none
  | some txid =>
    if (hex2bin txid 32).2 then some (swab256 (hex2bin txid 32).1) else none

/-- The loop over the transactions from index `i` on; none when it returns early. -/
def storeTxids : List Json → Nat → Bytes → Option Bytes
  | [], _, hashbin => some hashbin
  | txn :: rest, i, hashbin =>
    match storedTxid txn with
    | none => none
    | some txid => storeTxids rest (i + 1) (overwrite hashbin (32 + 32 * i) txid)

/-- The `for` loop that hashes the pairs of a level over its front. -/
def hashPairs (binlen i j : Nat) (hashbin : Bytes) : Bytes :=
  if j < binlen then
    hashPairs binlen (i + 32) (j + 64)
      (overwrite hashbin i (genHash ((hashbin.drop j).take 64)).bytes)
  else hashbin
termination_by binlen - j

/-- The `while` loop; a 17th node does not fit `merklebin`. -/
def reduceLevels (hashbin : Bytes) (binleft binlen : Nat) (pool : Pool) : Option Pool :=
  if binleft ≤ 1 then some pool
  else
    match pool.merklebin.store (pool.merkles * 32) ((hashbin.drop 32).take 32) with
    | none => none
    | some merklebin =>
      let pool := { pool with merklebin, merkles := pool.merkles + 1 }
      if binleft % 2 = 1 then
        let hashbin := overwrite hashbin binlen ((hashbin.drop (binlen - 32)).take 32)
        let hashbin := hashPairs genHash (binlen + 32) 32 64 hashbin
        reduceLevels hashbin ((binleft + 1) / 2) ((binleft + 1) / 2 * 32) pool
      else
        let hashbin := hashPairs genHash binlen 32 64 hashbin
        reduceLevels hashbin (binleft / 2) (binleft / 2 * 32) pool
termination_by binleft

/-- The alloca'd `hashbin`: a zero placeholder, room for the ids and for one
repeated node. Bytes are written before they are read. -/
def emptyHashbin (transactions : Nat) : Bytes := List.replicate (32 * transactions + 64) 0

def gbtMerkleBins (pool : Pool) (transactionArr : Option Json) : Option Pool :=
  let transactions := jsonArraySize transactionArr
  let pool := { pool with transactions, merkles := 0 }
  let txns := match transactionArr with
    | some (.array items) => items
    | _ => []
  if txns.all fun txn => (jsonStringValue (jsonObjectGet (some txn) "data")).isSome then
    match storeTxids txns 0 (emptyHashbin transactions) with
    | none => some pool
    | some hashbin =>
      reduceLevels genHash hashbin (transactions + 1) (transactions * 32 + 32) pool
  else some pool

/-- The `i`-th node of `merklebin`. -/
def merkleNode (pool : Pool) (i : Nat) : Bytes := (pool.merklebin.bytes.drop (i * 32)).take 32

/-- The loop that both __gbt_merkleroot and gen_solo_work run on `merkle_sha`. -/
def foldMerklebin (pool : Pool) (coinbaseHash : Digest) : Digest :=
  (List.range pool.merkles).foldl (fun merkleSha i =>
    genHash (merkleSha.bytes ++ merkleNode pool i))
    coinbaseHash

def gbtMerkleroot (pool : Pool) : Digest := foldMerklebin genHash pool (genHash pool.coinbase)

/-- The 80 bytes header of solo work: the next nonce2 in the coinbase, the root
in the header. None when a copy leaves its array. -/
def genSoloWork (pool : Pool) (work : Work) : Option (Pool × Work) :=
  if pool.n2size ≤ 8 then
    (blit pool.coinbase pool.nonce2Offset
      ((littleEndian 8 pool.nonce2.toNat).take pool.n2size)).bind
      fun coinbase =>
        let next := { pool with coinbase, nonce2 := pool.nonce2 + 1 }
        let merkleRoot := flipWords (foldMerklebin genHash next (genHash coinbase)).bytes
        (work.data.store 0 (pool.headerBin.bytes.take 112)).bind fun header =>
          (header.store 36 merkleRoot).map fun data =>
            (next,
              { work with
                data
                nonce2 := pool.nonce2
                nonce2Len := pool.n2size
                sdiff := pool.sdiff
                ntime := some pool.ntime
                target := pool.gbtTarget
                gbt := true
                pool := pool.poolNo
                nonce := 0
                longpoll := false
                getworkMode := some 'C'
                drvRolllimit := 60 })
  else none

end CgminerT4.Source.GbtMerkle
