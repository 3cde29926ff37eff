import CgminerT4.Guarantees.GbtMerkleBranch
import CgminerT4.Source.GbtWitness

/-!
# gbt_witness_data commits to the merkle root of the witness hashes

The buffer is read as the nodes of one level at its front. One round of the
outer loop turns a level into the next one, a repeated last node included; the
first pair is hashed over itself, the others over places already read, so
behind the first pair the loop is the pair loop of gbt_merkle_bins.
-/
namespace CgminerT4.Guarantees.WitnessCommitment
open Library.ByteString Library.MerkleTree Source Source.Jansson Source.Hex Source.GbtMerkle
open Source.GbtWitness GbtMerkleBranch

variable (genHash : Bytes → Digest)

/-- The pair loop counts nodes where that of gbt_merkle_bins counts bytes. -/
theorem witnessPairs_eq (txncount i : Nat) (hashbin : Bytes) (even : i % 2 = 0) :
    witnessPairs genHash txncount i hashbin =
      hashPairs genHash (32 * txncount) (16 * i) (32 * i) hashbin := by
  induction i, hashbin using witnessPairs.induct genHash txncount with
  | case1 i hashbin inside ih =>
    have target : 32 * (i / 2) = 16 * i := by omega
    rw [witnessPairs, if_pos inside, ih (by omega)]
    conv_rhs => rw [hashPairs, if_pos (by omega)]
    rw [target, Nat.mul_add 16, Nat.mul_add 32]
  | case2 i hashbin outside =>
    rw [witnessPairs, if_neg outside, hashPairs, if_neg (by omega)]

/-- One round on a level of even size. -/
theorem witnessPairs_level (a b : Digest) (rest : List Digest) (junk : Bytes)
    (even : rest.length % 2 = 0) :
    ∃ spare : Bytes, 32 ≤ spare.length ∧
      witnessPairs genHash (rest.length + 2) 0 (flat (a :: b :: rest) ++ junk) =
        flat (pairHash genHash a b :: nextLevel (pairHash genHash) rest) ++ spare := by
  have size : ∀ d : Digest, d.bytes.length = 32 := fun d => d.length_eq
  have halved := length_nextLevel (pairHash genHash) rest
  have first : ((flat (a :: b :: rest) ++ junk).drop (32 * 0)).take 64 = a.bytes ++ b.bytes := by
    have two : 64 = (a.bytes ++ b.bytes).length := by simp [size]
    rw [Nat.mul_zero, List.drop_zero, flat_cons, flat_cons, ← List.append_assoc,
      List.append_assoc, two, List.take_left]
  have written :
      overwrite (flat (a :: b :: rest) ++ junk) (32 * (0 / 2)) (pairHash genHash a b).bytes =
      (pairHash genHash a b).bytes ++ (b.bytes ++ (flat rest ++ junk)) := by
    have replaced :=
      overwrite_middle [] a.bytes (pairHash genHash a b).bytes (flat (b :: rest) ++ junk)
      (by rw [size, size])
    simpa using replaced
  have stepped : witnessPairs genHash (rest.length + 2) 0 (flat (a :: b :: rest) ++ junk) =
      hashPairs genHash (32 * (rest.length + 2)) 32 64
        ((pairHash genHash a b).bytes ++ (b.bytes ++ (flat rest ++ junk))) := by
    rw [witnessPairs, if_pos (by omega), first, witnessPairs_eq _ _ _ _ (by decide)]
    rw [← written]
    rfl
  have front : ((pairHash genHash a b).bytes ++ (b.bytes ++ (flat rest ++ junk))).take 32 =
      (pairHash genHash a b).bytes := List.take_left' (size _)
  have back : ((pairHash genHash a b).bytes ++ (b.bytes ++ (flat rest ++ junk))).drop 64 =
      flat rest ++ junk := by
    rw [← List.append_assoc]
    exact List.drop_left' (by simp [size])
  obtain ⟨length, result⟩ :=
    hashPairs_spec genHash rest even (32 * (rest.length + 2)) 32 64 _ _ junk
    front back (by omega) (by decide) (by simp [size]; omega)
  rw [stepped]
  refine ⟨(hashPairs genHash (32 * (rest.length + 2)) 32 64
    ((pairHash genHash a b).bytes ++ (b.bytes ++ (flat rest ++ junk)))).drop
      (32 + 32 * (nextLevel (pairHash genHash) rest).length), ?_, ?_⟩
  · simp only [List.length_drop, length, List.length_append, size, length_flat]
    omega
  · rw [flat_cons, ← result, List.take_append_drop]

/-- Repeating the last node of an odd level in the room behind it. -/
theorem repeat_last (front : List Digest) (last : Digest) (junk : Bytes) (room : 32 ≤ junk.length) :
    overwrite (flat (front ++ [last]) ++ junk) (32 * (front.length + 1))
        (((flat (front ++ [last]) ++ junk).drop (32 * front.length)).take 32) =
      flat (front ++ [last, last]) ++ junk.drop 32 := by
  have repeated := repeat_node (flat front) junk last (32 * front.length) (length_flat front) room
  simpa [Nat.mul_add] using repeated

/-- The loop leaves the root of the level at the front of the buffer. -/
theorem witnessLevels_spec (a : Digest) (level : List Digest) (junk : Bytes)
    (room : 32 ≤ junk.length) :
    ∃ spare : Bytes, 32 ≤ spare.length ∧
      witnessLevels genHash (level.length + 1) (flat (a :: level) ++ junk) =
        (merkleRoot (pairHash genHash) a level).bytes ++ spare := by
  induction a, level using merkleRoot.induct (pairHash genHash) generalizing junk with
  | case1 a =>
    refine ⟨junk, room, ?_⟩
    rw [witnessLevels, if_neg (by simp), merkleRoot_nil]
    simp
  | case2 a b rest ih =>
    rw [merkleRoot_cons]
    have halved := length_nextLevel (pairHash genHash) rest
    rw [List.length_cons, witnessLevels, if_pos (by omega)]
    by_cases odd : rest.length % 2 = 1
    · obtain ⟨init, last, rfl⟩ : ∃ init last, rest = init ++ [last] :=
        ⟨rest.dropLast, rest.getLast (by rintro rfl; simp at odd),
          (List.dropLast_append_getLast _).symm⟩
      rw [List.length_append, List.length_singleton] at odd halved
      obtain ⟨spare, enough, moved⟩ :=
        witnessPairs_level genHash a b (init ++ [last, last]) (junk.drop 32)
        (by simp only [List.length_append, List.length_cons, List.length_nil]; omega)
      rw [nextLevel_repeat _ _ _ (by omega)] at moved
      obtain ⟨left, more, root⟩ := ih spare enough
      refine ⟨left, more, ?_⟩
      have last_index : (init ++ [last]).length + 1 + 1 - 1 = (a :: b :: init).length := by simp
      have count : (init ++ [last]).length + 1 + 1 = (a :: b :: init).length + 1 := by simp
      have doubled : (a :: b :: init).length + 1 + 1 = (init ++ [last, last]).length + 2 := by simp
      have up : ((init ++ [last, last]).length + 2) / 2 =
          (nextLevel (pairHash genHash) (init ++ [last])).length + 1 := by
        rw [halved, List.length_append, List.length_cons, List.length_singleton]
        omega
      have repeated := repeat_last (a :: b :: init) last junk room
      rw [if_pos (by simp; omega), last_index, count, ← root, ← moved, doubled, up]
      simp only [List.cons_append] at repeated ⊢
      rw [repeated]
    · obtain ⟨spare, enough, moved⟩ := witnessPairs_level genHash a b rest junk (by omega)
      obtain ⟨left, more, root⟩ := ih spare enough
      refine ⟨left, more, ?_⟩
      have count : (rest.length + 1 + 1) / 2 =
        (nextLevel (pairHash genHash) rest).length + 1 := by omega
      rw [if_neg (by omega), ← root, ← moved, count]

/-- The transaction object has this hash, in display order. -/
def HasHash (txn : Json) (hash : Digest) : Prop :=
  ∃ text, jsonStringValue (jsonObjectGet (some txn) "hash") = some text ∧
    validHex text = true ∧ text.length = 64 ∧ hash.bytes = (unhex text).reverse

theorem storedHash_of_hasHash (txn : Json) (hash : Digest) (named : HasHash txn hash) :
    storedHash txn = some hash.bytes := by
  obtain ⟨text, found, valid, length, bytes⟩ := named
  simp only [storedHash, found, hex2bin_valid text 32 valid length, if_true, swab256, bytes]

/-- The hashes are stored one behind the other. -/
theorem storeHashes_spec (txns : List Json) (hashes : List Digest)
    (named : List.Forall₂ HasHash txns hashes) (i : Nat) (hashbin : Bytes)
    (fits : 32 + 32 * i + 32 * hashes.length ≤ hashbin.length) :
    storeHashes txns i hashbin = some (overwrite hashbin (32 + 32 * i) (flat hashes)) := by
  apply stored_nodes storeHashes storedHash
  · exact fun _ _ => rfl
  · intro txn rest i hashbin bytes stored
    rw [storeHashes, stored]
  · exact named.imp storedHash_of_hasHash
  · exact fits

/-- The filled buffer begins with the zero leaf. -/
theorem filled_hashbin (hashes : List Digest) :
    overwrite (emptyHashbin hashes.length) (32 + 32 * 0) (flat hashes) =
      flat (Buffer.zero 32 :: hashes) ++ List.replicate 32 0 := by
  rw [filled_emptyHashbin, flat_cons]
  rfl

/-- aa21a9ed and the hash of the root, over the zero leaf and the transaction
hashes, followed by 32 zero bytes. -/
def commitment (hashes : List Digest) : Bytes :=
  [0xaa, 0x21, 0xa9, 0xed] ++
    (genHash ((merkleRoot (pairHash genHash) (Buffer.zero 32) hashes).bytes ++
      List.replicate 32 0)).bytes

/-- Given room for it, the commitment is written for every list of transactions
with valid hashes. -/
theorem gbt_witness_commitment (txns : List Json) (hashes : List Digest)
    (named : List.Forall₂ HasHash txns hashes) (witnessdata : Bytes) (availSize : Nat)
    (large : 36 ≤ availSize) (inside : availSize ≤ witnessdata.length) :
    gbtWitnessData genHash (some (.array txns)) witnessdata availSize =
      (true, overwrite witnessdata 0 (commitment genHash hashes)) := by
  have same := named.length_eq
  have stored := storeHashes_spec txns hashes named 0 (emptyHashbin hashes.length)
    (by simp [emptyHashbin]; omega)
  rw [filled_hashbin] at stored
  obtain ⟨spare, room, levels⟩ :=
    witnessLevels_spec genHash (.zero 32) hashes (List.replicate 32 0) (by simp)
  have preimage : (overwrite (witnessLevels genHash (hashes.length + 1)
      (flat (Buffer.zero 32 :: hashes) ++ List.replicate 32 0)) 32 witnessNonce).take 64 =
      (merkleRoot (pairHash genHash) (Buffer.zero 32) hashes).bytes ++ List.replicate 32 0 := by
    have front : (witnessLevels genHash (hashes.length + 1)
        (flat (Buffer.zero 32 :: hashes) ++ List.replicate 32 0)).take 32 =
        (merkleRoot (pairHash genHash) (Buffer.zero 32) hashes).bytes := by
      rw [levels]
      exact List.take_left' (Buffer.length_eq _)
    have known := take_overwrite _ witnessNonce _ 32 front
      (by rw [levels, List.length_append, Buffer.length_eq]; omega)
    exact known
  have enough : ¬ availSize < witnessHeader.length + 32 := by simp [witnessHeader]; omega
  have header : 0 + witnessHeader.length ≤ witnessdata.length := by simp [witnessHeader]; omega
  unfold gbtWitnessData
  simp only [jsonArraySize, same, stored, preimage, if_neg enough]
  exact congrArg (Prod.mk true) (overwrite_overwrite witnessdata witnessHeader _ 0 header)

/-- A transaction object with a hash in hexadecimal. -/
def txnWithHash (hash : Bytes) : Json := .object [("hash", .string hash)]

/-- Two transactions, for the array the caller passes. -/
theorem gbt_witness_commitment_two :
    gbtWitnessData (fun _ => .zero 32)
        (some (.array [txnWithHash (List.replicate 64 0x30), txnWithHash (List.replicate 64 0x30)]))
        (List.replicate 36 0) 36 =
      (true, overwrite (List.replicate 36 0) 0
        (commitment (fun _ => .zero 32) [.zero 32, .zero 32])) := by
  have named : HasHash (txnWithHash (List.replicate 64 0x30)) (.zero 32) :=
    ⟨List.replicate 64 0x30, rfl, by decide +kernel, rfl, by decide +kernel⟩
  exact gbt_witness_commitment (fun _ => .zero 32) _ _ (.cons named (.cons named .nil)) _ _
    (by decide)
    (by decide)

end CgminerT4.Guarantees.WitnessCommitment
