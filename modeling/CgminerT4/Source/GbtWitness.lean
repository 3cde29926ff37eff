import CgminerT4.Source.GbtMerkle

/-!
# Block templates: the witness commitment (cgminer.c)

gbt_witness_data over the alloca'd `hashbin`: 32 zero bytes for the coinbase,
the hashes of the transactions, reduced in place to the root at its front.
gen_hash is the parameter `genHash`; it reads its input before it writes, so
the overlap of the first pair is harmless. `txncount` and `binlen` are ints: the
transactions are taken to be fewer than 2^26 - 2, so that 32 * txncount + 64 is
one. The hashes of more, of 64 characters each, are more text than json_loads
reads.
-/
namespace CgminerT4.Source.GbtWitness
open Library.ByteString Jansson Hex GbtMerkle

variable (genHash : Bytes → Digest)

def witnessHeader : Bytes := [0xaa, 0x21, 0xa9, 0xed]

def witnessNonce : Bytes := List.replicate 32 0

/-- The hash of a transaction object, as it is stored in `hashbin`. -/
def storedHash (txn : Json) : Option Bytes :=
  match jsonStringValue (jsonObjectGet (some txn) "hash") with
  | none => none
  | some hash => if (hex2bin hash 32).2 then some (swab256 (hex2bin hash 32).1) else none

/-- The loop over the transactions from index `i` on; none when it returns early. -/
def storeHashes : List Json → Nat → Bytes → Option Bytes
  | [], _, hashbin => some hashbin
  | txn :: rest, i, hashbin =>
    match storedHash txn with
    | none => none
    | some hash => storeHashes rest (i + 1) (overwrite hashbin (32 + 32 * i) hash)

/-- The inner `for` loop. -/
def witnessPairs (txncount i : Nat) (hashbin : Bytes) : Bytes :=
  if i < txncount then
    witnessPairs txncount (i + 2)
      (overwrite hashbin (32 * (i / 2)) (genHash ((hashbin.drop (32 * i)).take 64)).bytes)
  else hashbin
termination_by txncount - i

/-- The outer `for` loop. -/
def witnessLevels (txncount : Nat) (hashbin : Bytes) : Bytes :=
  if txncount > 1 then
    if txncount % 2 = 1 then
      let hashbin :=
        overwrite hashbin (32 * txncount) ((hashbin.drop (32 * (txncount - 1))).take 32)
      witnessLevels ((txncount + 1) / 2) (witnessPairs genHash (txncount + 1) 0 hashbin)
    else witnessLevels (txncount / 2) (witnessPairs genHash txncount 0 hashbin)
  else hashbin
termination_by txncount

/-- The result and the contents of `witnessdata`. -/
def gbtWitnessData (transactionArr : Option Json) (witnessdata : Bytes) (availSize : Nat) :
    Bool × Bytes :=
  let txncount := jsonArraySize transactionArr
  let txns := match transactionArr with
    | some (.array items) => items
    | _ => []
  if availSize < witnessHeader.length + 32 then (false, witnessdata)
  else
    match storeHashes txns 0 (emptyHashbin txncount) with
    | none => (false, witnessdata)
    | some hashbin =>
      let hashbin := overwrite (witnessLevels genHash (txncount + 1) hashbin) 32 witnessNonce
      (true, overwrite (overwrite witnessdata 0 witnessHeader) 4 (genHash (hashbin.take 64)).bytes)

end CgminerT4.Source.GbtWitness
