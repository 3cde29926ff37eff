import CgminerT4.Library.MerkleTree
import CgminerT4.Source.GbtMerkle
import Mathlib.Data.List.Forall2

/-!
# The branch of gbt_merkle_bins is the branch of the coinbase

The buffer is read as a placeholder followed by the nodes of one level. Hashing
its pairs over its front is `nextLevel` on the nodes behind the first one, so
the kept nodes are the branch of the first leaf, whatever the coinbase hash in
its place, and hashing them into it gives the root of the whole list.
-/
namespace CgminerT4.Guarantees.GbtMerkleBranch
open Library.ByteString Library.MerkleTree Source Source.Jansson Source.Hex Source.GbtMerkle

variable (genHash : Bytes → Digest)

/-- gen_hash of two neighbouring nodes. -/
def pairHash (a b : Digest) : Digest := genHash (a.bytes ++ b.bytes)

/-- The pair loop over an even number of pending nodes leaves the next level
behind the part already done. -/
theorem hashPairs_spec (pending : List Digest) (even : pending.length % 2 = 0)
    (binlen i j : Nat) (hashbin done junk : Bytes) (front : hashbin.take i = done)
    (back : hashbin.drop j = flat pending ++ junk) (ends : binlen = j + 32 * pending.length)
    (room : i + 32 ≤ j) (inside : binlen ≤ hashbin.length) :
    (hashPairs genHash binlen i j hashbin).length = hashbin.length ∧
      (hashPairs genHash binlen i j hashbin).take
        (i + 32 * (nextLevel (pairHash genHash) pending).length) =
        done ++ flat (nextLevel (pairHash genHash) pending) := by
  induction pending using nextLevel.induct generalizing i j hashbin done with
  | case1 a b rest ih =>
    simp only [List.length_cons] at even ends
    have fresh : (hashbin.drop j).take 64 = a.bytes ++ b.bytes := by
      have two : 64 = (a.bytes ++ b.bytes).length := by simp [a.length_eq, b.length_eq]
      rw [back, flat_cons, flat_cons, ← List.append_assoc a.bytes,
        List.append_assoc (a.bytes ++ b.bytes), two, List.take_left]
    have size : ∀ d : Digest, d.bytes.length = 32 := fun d => d.length_eq
    have fits : i + (pairHash genHash a b).bytes.length ≤ hashbin.length := by rw [size]; omega
    have known := take_overwrite hashbin (pairHash genHash a b).bytes done i front (by omega)
    have later : (overwrite hashbin i (pairHash genHash a b).bytes).drop (j + 64) =
        flat rest ++ junk := by
      have two : (a.bytes ++ b.bytes).length = 64 := by simp [a.length_eq, b.length_eq]
      rw [drop_overwrite _ _ _ _ (by rw [size]; omega) fits, ← List.drop_drop, back, flat_cons,
        flat_cons, ← List.append_assoc a.bytes, List.append_assoc (a.bytes ++ b.bytes),
        ← two, List.drop_left]
    rw [size] at known
    rw [hashPairs, if_pos (by omega), fresh]
    have next := ih (by omega) (i + 32) (j + 64) (overwrite hashbin i (pairHash genHash a b).bytes)
      (done ++ (pairHash genHash a b).bytes) known later (by omega) (by omega)
      (by rw [length_overwrite _ _ _ fits]; exact inside)
    rw [length_overwrite _ _ _ fits] at next
    obtain ⟨length, result⟩ := next
    refine ⟨length, ?_⟩
    have index : i + 32 * (nextLevel (pairHash genHash) (a :: b :: rest)).length =
        i + 32 + 32 * (nextLevel (pairHash genHash) rest).length := by
      rw [nextLevel, List.length_cons]
      omega
    rw [index, nextLevel, flat_cons, ← List.append_assoc]
    exact result
  | case2 a => simp at even
  | case3 =>
    rw [hashPairs, if_neg (by simp at ends; omega)]
    simpa [nextLevel] using front

/-- A buffer that holds a level behind the placeholder, and room to repeat a node. -/
def Holds (hashbin : Bytes) (level : List Digest) : Prop :=
  ∃ place junk : Bytes, place.length = 32 ∧ 32 ≤ junk.length ∧ hashbin = place ++ flat level ++ junk

/-- The node behind the placeholder. -/
theorem holds_first (hashbin : Bytes) (b : Digest) (rest : List Digest)
    (level : Holds hashbin (b :: rest)) : (hashbin.drop 32).take 32 = b.bytes := by
  obtain ⟨place, junk, placeholder, _, rfl⟩ := level
  rw [flat_cons, List.append_assoc, List.append_assoc, ← List.append_assoc place]
  exact take_drop_middle _ _ _ _ _ placeholder b.length_eq

/-- One round of the pair loop moves an even level up. -/
theorem hashPairs_holds (hashbin : Bytes) (b : Digest) (rest : List Digest)
    (even : rest.length % 2 = 0) (place junk : Bytes) (placeholder : place.length = 32)
    (layout : hashbin = place ++ flat (b :: rest) ++ junk) :
    Holds (hashPairs genHash (32 * (rest.length + 2)) 32 64 hashbin)
      (nextLevel (pairHash genHash) rest) := by
  have size : hashbin.length = 32 * (rest.length + 2) + junk.length := by
    rw [layout]
    simp only [List.length_append, length_flat, List.length_cons, placeholder]
    omega
  have front : hashbin.take 32 = place := by
    rw [layout, List.append_assoc, List.take_left' placeholder]
  have back : hashbin.drop 64 = flat rest ++ junk := by
    have two : (place ++ b.bytes).length = 64 := by
      rw [List.length_append, placeholder, b.length_eq]
    rw [layout, flat_cons, ← List.append_assoc, List.append_assoc, ← two, List.drop_left]
  obtain ⟨length, result⟩ := hashPairs_spec genHash rest even (32 * (rest.length + 2)) 32 64 hashbin
    place junk front back (by omega) (by decide) (by omega)
  have halved := length_nextLevel (pairHash genHash) rest
  refine ⟨place, (hashPairs genHash (32 * (rest.length + 2)) 32 64 hashbin).drop
    (32 + 32 * (nextLevel (pairHash genHash) rest).length), placeholder, ?_, ?_⟩
  · rw [List.length_drop, length]
    omega
  · rw [← result, List.take_append_drop]

/-- Copying a node into the room behind it. -/
theorem repeat_node (front junk : Bytes) (a : Digest) (start : Nat) (behind : front.length = start)
    (room : 32 ≤ junk.length) :
    overwrite (front ++ a.bytes ++ junk) (start + 32)
      (((front ++ a.bytes ++ junk).drop start).take 32) =
      front ++ a.bytes ++ a.bytes ++ junk.drop 32 := by
  have found : ((front ++ a.bytes ++ junk).drop start).take 32 = a.bytes :=
    take_drop_middle _ _ _ _ _ behind a.length_eq
  have split := overwrite_middle (front ++ a.bytes) (junk.take 32) a.bytes (junk.drop 32)
    (by rw [a.length_eq, List.length_take, Nat.min_eq_left room])
  rw [List.length_append, a.length_eq, behind, List.append_assoc _ (junk.take 32),
    List.take_append_drop] at split
  rw [found, split]

/-- The round on an odd level first repeats its last node. -/
theorem hashPairs_holds_odd (hashbin : Bytes) (b : Digest) (rest : List Digest)
    (odd : rest.length % 2 = 1) (level : Holds hashbin (b :: rest)) :
    Holds (hashPairs genHash (32 * (rest.length + 2) + 32) 32 64
        (overwrite hashbin (32 * (rest.length + 2))
          ((hashbin.drop (32 * (rest.length + 2) - 32)).take 32)))
      (nextLevel (pairHash genHash) rest) := by
  obtain ⟨place, junk, placeholder, room, rfl⟩ := level
  obtain ⟨init, a, rfl⟩ : ∃ init a, rest = init ++ [a] :=
    ⟨rest.dropLast, rest.getLast (by rintro rfl; simp at odd),
      (List.dropLast_append_getLast _).symm⟩
  simp only [List.length_append, List.length_singleton] at odd ⊢
  have layout : place ++ flat (b :: (init ++ [a])) ++ junk =
      (place ++ flat (b :: init)) ++ a.bytes ++ junk := by simp
  have repeated := repeat_node (place ++ flat (b :: init)) junk a (32 * (init.length + 2))
    (by simp only [List.length_append, length_flat, List.length_cons, placeholder]; omega) room
  have doubled : (place ++ flat (b :: init)) ++ a.bytes ++ a.bytes =
      place ++ flat (b :: (init ++ [a, a])) := by simp
  have moved := hashPairs_holds genHash _ b (init ++ [a, a]) (by simp; omega) place (junk.drop 32)
    placeholder rfl
  have length : 32 * ((init ++ [a, a]).length + 2) = 32 * (init.length + 1 + 2) + 32 := by
    simp only [List.length_append, List.length_cons, List.length_nil]
    omega
  have source : 32 * (init.length + 1 + 2) - 32 = 32 * (init.length + 2) := by omega
  have target : 32 * (init.length + 1 + 2) = 32 * (init.length + 2) + 32 := by omega
  rw [length, nextLevel_repeat _ _ _ (by omega)] at moved
  rw [source, layout]
  conv in overwrite _ _ _ => rw [target]
  rw [repeated, doubled]
  exact moved

/-- The loop keeps the branch of the level behind the nodes already kept. -/
theorem reduceLevels_spec (level : List Digest) (hashbin : Bytes) (pool : Pool)
    (held : Holds hashbin level)
    (space : pool.merkles + (branch (pairHash genHash) level).length ≤ 16) :
    ∃ next, reduceLevels genHash hashbin (level.length + 1) ((level.length + 1) * 32) pool =
      some next ∧
      next.merkles = pool.merkles + (branch (pairHash genHash) level).length ∧
      next.merklebin.bytes =
        overwrite pool.merklebin.bytes (pool.merkles * 32)
          (flat (branch (pairHash genHash) level)) := by
  induction level using branch.induct (pairHash genHash) generalizing hashbin pool with
  | case1 =>
    refine ⟨pool, ?_, ?_, ?_⟩
    · rw [reduceLevels, if_pos (by simp)]
    · simp
    · simp
  | case2 b rest ih =>
    rw [branch_cons, List.length_cons] at space
    have first := holds_first hashbin b rest held
    obtain ⟨merklebin, stored, bytes⟩ :=
      pool.merklebin.store_of_fits (pool.merkles * 32) b.bytes (by rw [b.length_eq]; omega)
    obtain ⟨moved, up⟩ : ∃ moved, Holds moved (nextLevel (pairHash genHash) rest) ∧
        reduceLevels genHash hashbin ((b :: rest).length + 1) (((b :: rest).length + 1) * 32) pool =
          reduceLevels genHash moved ((nextLevel (pairHash genHash) rest).length + 1)
            (((nextLevel (pairHash genHash) rest).length + 1) * 32)
            { pool with merklebin, merkles := pool.merkles + 1 } := by
      have halved := length_nextLevel (pairHash genHash) rest
      have binlen : ((b :: rest).length + 1) * 32 = 32 * (rest.length + 2) := by
        rw [List.length_cons, Nat.mul_comm]
      obtain ⟨place, junk, placeholder, room, layout⟩ := held
      rw [reduceLevels, if_neg (by simp), first, stored, binlen]
      by_cases odd : rest.length % 2 = 1
      · have levels : ((b :: rest).length + 1 + 1) / 2 =
            (nextLevel (pairHash genHash) rest).length + 1 := by
          rw [halved, List.length_cons]
          omega
        refine ⟨_, hashPairs_holds_odd genHash hashbin b rest odd ⟨place, junk, placeholder, room,
          layout⟩, ?_⟩
        simp only [levels]
        rw [if_pos (by rw [List.length_cons]; omega)]
      · have levels : ((b :: rest).length + 1) / 2 =
            (nextLevel (pairHash genHash) rest).length + 1 := by
          rw [halved, List.length_cons]
          omega
        refine ⟨_, hashPairs_holds genHash hashbin b rest
          (by omega) place junk placeholder layout, ?_⟩
        simp only [levels]
        rw [if_neg (by rw [List.length_cons]; omega)]
    obtain ⟨next, finished, merkles, kept⟩ :=
      ih moved { pool with merklebin, merkles := pool.merkles + 1 } up.1 (by dsimp only; omega)
    refine ⟨next, up.2.trans finished, ?_, ?_⟩
    · have after : next.merkles = pool.merkles + 1 + _ := merkles
      rw [after, branch_cons, List.length_cons]
      omega
    · have behind : (pool.merkles + 1) * 32 = pool.merkles * 32 + b.bytes.length := by
        rw [b.length_eq]
        omega
      rw [kept, bytes, branch_cons, flat_cons, behind, overwrite_overwrite]
      rw [b.length_eq, pool.merklebin.length_eq]
      omega

/-- The transaction object has data and goes by this id, in display order. -/
structure Names (txn : Json) (txid : Digest) : Prop where
  data : (jsonStringValue (jsonObjectGet (some txn) "data")).isSome = true
  text : ∃ text, (jsonStringValue (jsonObjectGet (some txn) "txid")).or
      (jsonStringValue (jsonObjectGet (some txn) "hash")) = some text ∧
    validHex text = true ∧ text.length = 64 ∧ txid.bytes = (unhex text).reverse

theorem names_data (txns : List Json) (txids : List Digest)
    (named : List.Forall₂ Names txns txids) :
    (txns.all fun txn => (jsonStringValue (jsonObjectGet (some txn) "data")).isSome) = true := by
  induction named with
  | nil => rfl
  | cons first _ ih => rw [List.all_cons, first.data, ih, Bool.true_and]

theorem storedTxid_of_names (txn : Json) (txid : Digest) (named : Names txn txid) :
    storedTxid txn = some txid.bytes := by
  obtain ⟨text, found, valid, length, bytes⟩ := named.text
  simp only [storedTxid, found, hex2bin_valid text 32 valid length, if_true, swab256, bytes]

/-- A loop that stores one node for each transaction stores them one behind the
other. -/
theorem stored_nodes (loop : List Json → Nat → Bytes → Option Bytes) (node : Json → Option Bytes)
    (done : ∀ i hashbin, loop [] i hashbin = some hashbin)
    (round : ∀ txn rest i hashbin bytes, node txn = some bytes →
      loop (txn :: rest) i hashbin = loop rest (i + 1) (overwrite hashbin (32 + 32 * i) bytes))
    (txns : List Json) (nodes : List Digest)
    (named : List.Forall₂ (fun txn digest => node txn = some digest.bytes) txns nodes) (i : Nat)
    (hashbin : Bytes) (fits : 32 + 32 * i + 32 * nodes.length ≤ hashbin.length) :
    loop txns i hashbin = some (overwrite hashbin (32 + 32 * i) (flat nodes)) := by
  induction named generalizing i hashbin with
  | nil => simp [done]
  | @cons txn digest txns nodes first rest ih =>
    simp only [List.length_cons] at fits
    have room : 32 + 32 * i + digest.bytes.length ≤ hashbin.length := by
      rw [digest.length_eq]; omega
    have behind : 32 + 32 * (i + 1) = 32 + 32 * i + digest.bytes.length := by
      rw [digest.length_eq]; omega
    rw [round _ _ _ _ _ first, ih (i + 1) _ (by rw [length_overwrite _ _ _ room]; omega), behind,
      overwrite_overwrite _ _ _ _ room, flat_cons]

/-- The ids are stored one behind the other. -/
theorem storeTxids_spec (txns : List Json) (txids : List Digest)
    (named : List.Forall₂ Names txns txids) (i : Nat) (hashbin : Bytes)
    (fits : 32 + 32 * i + 32 * txids.length ≤ hashbin.length) :
    storeTxids txns i hashbin = some (overwrite hashbin (32 + 32 * i) (flat txids)) := by
  apply stored_nodes storeTxids storedTxid
  · exact fun _ _ => rfl
  · intro txn rest i hashbin bytes stored
    rw [storeTxids, stored]
  · exact named.imp storedTxid_of_names
  · exact fits

/-- The filled buffer: the placeholder, the nodes, and room for one more. -/
theorem filled_emptyHashbin (nodes : List Digest) :
    overwrite (emptyHashbin nodes.length) (32 + 32 * 0) (flat nodes) =
      List.replicate 32 0 ++ flat nodes ++ List.replicate 32 0 := by
  have parts : emptyHashbin nodes.length =
      List.replicate 32 0 ++ List.replicate (32 * nodes.length) 0 ++ List.replicate 32 0 := by
    rw [emptyHashbin, List.replicate_append_replicate, List.replicate_append_replicate]
    congr 1
    omega
  have middle := overwrite_middle (List.replicate 32 0) (List.replicate (32 * nodes.length) 0)
    (flat nodes) (List.replicate 32 0) (by simp)
  rw [parts]
  rwa [List.length_replicate] at middle

/-- It holds the ids as its first level. -/
theorem holds_txids (txids : List Digest) :
    Holds (overwrite (emptyHashbin txids.length) (32 + 32 * 0) (flat txids)) txids :=
  ⟨List.replicate 32 0, List.replicate 32 0, List.length_replicate, by simp,
    filled_emptyHashbin txids⟩

/-- Folding over positions is folding over the elements found there. -/
theorem foldl_range {α β : Type} (l : List β) (f : α → Nat → α) (g : α → β → α) (a : α)
    (agree : ∀ i (inside : i < l.length) a, f a i = g a l[i]) :
    (List.range l.length).foldl f a = l.foldl g a := by
  induction l generalizing f a with
  | nil => rfl
  | cons b l ih =>
    rw [List.length_cons, List.range_succ_eq_map, List.foldl_cons, List.foldl_map, List.foldl_cons]
    rw [ih (fun a i => f a (i + 1)) (f a 0) fun i inside a =>
      agree (i + 1) (by simpa using inside) a]
    rw [agree 0 (by simp) a]
    rfl

/-- Folding a stored list of nodes. -/
theorem foldMerklebin_flat (pool : Pool) (nodes : List Digest) (count : pool.merkles = nodes.length)
    (front : pool.merklebin.bytes.take (32 * nodes.length) = flat nodes) (coinbaseHash : Digest) :
    foldMerklebin genHash pool coinbaseHash = nodes.foldl (pairHash genHash) coinbaseHash := by
  rw [foldMerklebin, count]
  refine foldl_range nodes _ _ coinbaseHash fun i inside sha => ?_
  have node : merkleNode pool i = nodes[i].bytes := by
    rw [← slice_flat nodes i inside, ← front, merkleNode, List.drop_take, List.take_take,
      Nat.min_eq_left (by omega), Nat.mul_comm]
  rw [node]
  rfl

/-- gbt_merkle_bins keeps ceil(log2(n + 1)) nodes, and hashing them into any
coinbase hash gives the merkle root of the whole block. -/
theorem gbt_merkle_branch (pool : Pool) (txns : List Json) (txids : List Digest)
    (named : List.Forall₂ Names txns txids) (few : txids.length + 1 ≤ 2 ^ 16) :
    ∃ next, gbtMerkleBins genHash pool (some (.array txns)) = some next ∧
      next.merkles = Nat.clog 2 (txids.length + 1) ∧
      ∀ coinbaseHash, foldMerklebin genHash next coinbaseHash =
        merkleRoot (pairHash genHash) coinbaseHash txids := by
  have same := named.length_eq
  have levels := length_branch (pairHash genHash) txids
  have short : Nat.clog 2 (txids.length + 1) ≤ 16 := Nat.clog_le_of_le_pow few
  have stored := storeTxids_spec txns txids named 0 (emptyHashbin txids.length)
    (by simp [emptyHashbin]; omega)
  obtain ⟨next, reduced, merkles, nodes⟩ := reduceLevels_spec genHash txids _
    { pool with transactions := txids.length, merkles := 0 } (holds_txids txids)
    (by rw [levels]; exact (Nat.zero_add _).trans_le short)
  refine ⟨next, ?_, ?_, ?_⟩
  · rw [gbtMerkleBins, if_pos (names_data txns txids named)]
    simp only [jsonArraySize, same, stored]
    rw [← reduced, Nat.add_mul]
  · rw [merkles, levels]
    exact Nat.zero_add _
  · intro coinbaseHash
    rw [foldMerklebin_flat genHash next (branch (pairHash genHash) txids), foldl_branch]
    · rw [merkles]
      exact Nat.zero_add _
    · have front :=
        take_overwrite pool.merklebin.bytes (flat (branch (pairHash genHash) txids)) [] 0
        rfl (Nat.zero_le _)
      rw [Nat.zero_add, List.nil_append] at front
      rw [nodes, ← length_flat]
      exact front

/-- The header of solo work carries the root that __gbt_merkleroot would compute,
word by word in reverse byte order. -/
theorem genSoloWork_header (pool next : Pool) (work out : WorkItem.Work)
    (made : genSoloWork genHash pool work = some (next, out)) :
    (out.data.bytes.drop 36).take 32 = flipWords (gbtMerkleroot genHash next).bytes ∧
      next.merklebin = pool.merklebin ∧ next.merkles = pool.merkles := by
  unfold genSoloWork at made
  split at made
  · simp only [Option.bind_eq_some_iff, Option.map_eq_some_iff, Prod.mk.injEq] at made
    obtain ⟨coinbase, _, header, _, data, stored, rfl, rfl⟩ := made
    refine ⟨?_, rfl, rfl⟩
    obtain ⟨fits, bytes⟩ := header.store_some data 36 _ stored
    have room : 36 ≤ header.bytes.length := by rw [header.length_eq]; decide
    have front : (header.bytes.take 36).length = 36 := by
      rw [List.length_take, Nat.min_eq_left room]
    dsimp only
    rw [bytes, overwrite]
    exact take_drop_middle _ _ _ _ _ front (by rw [length_flipWords]; exact Buffer.length_eq _)
  · cases made

/-- A transaction that names its id in hexadecimal. -/
def txnOf (txid : Bytes) : Json := .object [("data", .string []), ("txid", .string txid)]

/-- Two transactions: the branch has two nodes. -/
theorem gbt_merkle_branch_two :
    let pool : Pool := ⟨0, [], 0, 0, 0, .zero 128, [], .zero 32, 0, 0, .zero 512, 0⟩
    let txns := [txnOf (List.replicate 64 0x30), txnOf (List.replicate 64 0x30)]
    ∃ next, gbtMerkleBins (fun _ => .zero 32) pool (some (.array txns)) = some next ∧
      next.merkles = Nat.clog 2 ([Buffer.zero 32, Buffer.zero 32].length + 1) ∧
      ∀ coinbaseHash, foldMerklebin (fun _ => .zero 32) next coinbaseHash =
        merkleRoot (pairHash fun _ => .zero 32) coinbaseHash [.zero 32, .zero 32] := by
  have named : Names (txnOf (List.replicate 64 0x30)) (.zero 32) :=
    ⟨rfl, List.replicate 64 0x30, rfl, by decide +kernel, rfl, by decide +kernel⟩
  exact gbt_merkle_branch (fun _ => .zero 32) _ _ _ (.cons named (.cons named .nil)) (by decide)

end CgminerT4.Guarantees.GbtMerkleBranch
