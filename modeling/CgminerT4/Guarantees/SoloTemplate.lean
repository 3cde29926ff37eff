import CgminerT4.Source.GbtTemplate
import CgminerT4.Guarantees.GbtMerkleBranch

/-!
# What decoding a template stores

gbt_merkle_bins changes the transactions and the merkle branch only, and fails
to have a result exactly when the ids are all there and make more than 2^16
leaves with the coinbase. The rest of this module says what an accepted solo
template leaves in the pool.
-/
namespace CgminerT4.Guarantees.SoloTemplate
open Library.ByteString Source.Jansson Source.Hex Source.WorkRoll Source.GbtMerkle Source.GbtWitness
  Source.GbtTemplate

variable (genHash : Bytes → Digest) (diffFromTarget : Buffer 32 → Double)

/-- The level by level reduction touches only the branch. -/
theorem reduceLevels_frame (hashbin : Bytes) (binleft binlen : Nat)
    (pool next : Source.GbtMerkle.Pool)
    (reduced : reduceLevels genHash hashbin binleft binlen pool = some next) :
    next = { pool with merklebin := next.merklebin, merkles := next.merkles } := by
  induction binleft using Nat.strong_induction_on generalizing hashbin binlen pool with
  | _ binleft ih =>
    rw [reduceLevels] at reduced
    split at reduced
    · cases reduced
      rfl
    · next more =>
      split at reduced
      · cases reduced
      · split at reduced
        · have moved := ih ((binleft + 1) / 2) (by omega) _ _ _ reduced
          exact moved
        · have moved := ih (binleft / 2) (by omega) _ _ _ reduced
          exact moved

theorem jsonArraySize_eq (arr : Option Json) : jsonArraySize arr = (arrayItems arr).length := by
  cases arr with
  | none => rfl
  | some json => cases json <;> rfl

/-- gbt_merkle_bins over the elements of the array. -/
theorem gbtMerkleBins_eq (pool : Source.GbtMerkle.Pool) (arr : Option Json) :
    gbtMerkleBins genHash pool arr =
      if ((arrayItems arr).all fun txn => (transactionData txn).isSome) = true then
        match storeTxids (arrayItems arr) 0 (emptyHashbin (arrayItems arr).length) with
        | none => some { pool with transactions := (arrayItems arr).length, merkles := 0 }
        | some hashbin =>
          reduceLevels genHash hashbin ((arrayItems arr).length + 1)
            (((arrayItems arr).length + 1) * 32)
            { pool with transactions := (arrayItems arr).length, merkles := 0 }
      else some { pool with transactions := (arrayItems arr).length, merkles := 0 } := by
  rw [← jsonArraySize_eq, Nat.add_mul]
  rfl

theorem gbtMerkleBins_frame (pool next : Source.GbtMerkle.Pool) (arr : Option Json)
    (stored : gbtMerkleBins genHash pool arr = some next) :
    next = { pool with
      transactions := (arrayItems arr).length, merklebin := next.merklebin,
        merkles := next.merkles } := by
  rw [gbtMerkleBins_eq] at stored
  split at stored
  · split at stored
    · cases stored
      rfl
    · exact reduceLevels_frame genHash _ _ _ _ _ stored
  · cases stored
    rfl

/-- The node a level keeps is 32 bytes long. -/
theorem hashPairs_length (binlen i j : Nat) (hashbin : Bytes) (room : binlen ≤ hashbin.length)
    (behind : i ≤ j) (step : i + 32 ≤ binlen ∨ binlen ≤ j) :
    (hashPairs genHash binlen i j hashbin).length = hashbin.length := by
  fun_induction hashPairs genHash binlen i j hashbin with
  | case1 i j hashbin more ih =>
    have size := length_overwrite hashbin (genHash ((hashbin.drop j).take 64)).bytes i
      (by rw [Buffer.length_eq]; omega)
    rw [ih (by omega) (by omega) (by omega), size]
  | case2 => rfl

/-- Whether the nodes of all levels fit `merklebin` depends only on their number. -/
theorem reduceLevels_defined (hashbin : Bytes) (binleft : Nat) (pool : Source.GbtMerkle.Pool)
    (room : binleft * 32 + 32 ≤ hashbin.length) (few : pool.merkles ≤ 16) :
    (reduceLevels genHash hashbin binleft (binleft * 32) pool).isSome = true ↔
      binleft ≤ 2 ^ (16 - pool.merkles) := by
  induction binleft using Nat.strong_induction_on generalizing hashbin pool with
  | _ binleft ih =>
    rw [reduceLevels]
    split
    · next last =>
      have positive : 1 ≤ 2 ^ (16 - pool.merkles) := Nat.one_le_two_pow
      exact iff_of_true rfl (by omega)
    · next more =>
      have node : ((hashbin.drop 32).take 32).length = 32 := by
        rw [List.length_take, List.length_drop]
        omega
      by_cases full : pool.merkles = 16
      · have outside : pool.merklebin.store (pool.merkles * 32) ((hashbin.drop 32).take 32) =
            none := by
          unfold Buffer.store
          rw [dif_neg (by rw [node]; omega)]
        rw [outside, full]
        exact iff_of_false (by simp) (by simpa using more)
      · obtain ⟨merklebin, stored, _⟩ := pool.merklebin.store_of_fits (pool.merkles * 32)
          ((hashbin.drop 32).take 32) (by rw [node]; omega)
        have double : 2 ^ (16 - pool.merkles) = 2 * 2 ^ (16 - (pool.merkles + 1)) := by
          rw [← Nat.pow_succ']
          congr 1
          omega
        rw [stored]
        dsimp only
        split
        · next odd =>
          have copied :=
            length_overwrite hashbin ((hashbin.drop (binleft * 32 - 32)).take 32) (binleft * 32)
            (by rw [List.length_take, List.length_drop]; omega)
          have size := hashPairs_length genHash (binleft * 32 + 32) 32 64
            (overwrite hashbin (binleft * 32) ((hashbin.drop (binleft * 32 - 32)).take 32))
            (by omega) (by decide) (by omega)
          rw [ih _ (by omega) _ { pool with merklebin, merkles := pool.merkles + 1 }
            (by rw [size, copied]; omega) (by dsimp only; omega)]
          dsimp only
          omega
        · next even =>
          have size :=
            hashPairs_length genHash (binleft * 32) 32 64 hashbin (by omega) (by decide) (by omega)
          rw [ih _ (by omega) _ { pool with merklebin, merkles := pool.merkles + 1 }
            (by rw [size]; omega) (by dsimp only; omega)]
          dsimp only
          omega

theorem storedTxid_length (txn : Json) (txid : Bytes) (stored : storedTxid txn = some txid) :
    txid.length = 32 := by
  unfold storedTxid at stored
  dsimp only at stored
  split at stored
  · cases stored
  · split at stored
    · next text _ decoded =>
      cases stored
      obtain ⟨_, written, size⟩ := hex2bin_success text 32 decoded
      rw [swab256, List.length_reverse, written, size]
    · cases stored

/-- A loop that stores one node for each transaction ends early exactly when one
is missing. -/
theorem nodes_isSome (loop : List Json → Nat → Bytes → Option Bytes) (node : Json → Option Bytes)
    (done : ∀ i hashbin, loop [] i hashbin = some hashbin)
    (round : ∀ txn rest i hashbin, loop (txn :: rest) i hashbin =
      (node txn).bind fun bytes => loop rest (i + 1) (overwrite hashbin (32 + 32 * i) bytes))
    (txns : List Json) (i : Nat) (hashbin : Bytes) :
    (loop txns i hashbin).isSome = true ↔ ∀ txn ∈ txns, (node txn).isSome = true := by
  induction txns generalizing i hashbin with
  | nil =>
    rw [done]
    exact iff_of_true rfl fun _ member => absurd member List.not_mem_nil
  | cons txn rest ih =>
    rw [round, List.forall_mem_cons]
    cases node txn with
    | none => simp
    | some bytes =>
      rw [Option.bind_some, ih]
      simp

theorem storeTxids_isSome (txns : List Json) (i : Nat) (hashbin : Bytes) :
    (storeTxids txns i hashbin).isSome = true ↔ ∀ txn ∈ txns, (storedTxid txn).isSome = true := by
  apply nodes_isSome storeTxids storedTxid
  · exact fun _ _ => rfl
  · intro txn rest i hashbin
    rw [storeTxids]
    cases storedTxid txn <;> rfl

theorem storeHashes_isSome (txns : List Json) (i : Nat) (hashbin : Bytes) :
    (storeHashes txns i hashbin).isSome = true ↔ ∀ txn ∈ txns, (storedHash txn).isSome = true := by
  apply nodes_isSome storeHashes storedHash
  · exact fun _ _ => rfl
  · intro txn rest i hashbin
    rw [storeHashes]
    cases storedHash txn <;> rfl

theorem storeTxids_length (txns : List Json) (i : Nat) (hashbin out : Bytes)
    (fits : 32 + 32 * i + 32 * txns.length ≤ hashbin.length)
    (stored : storeTxids txns i hashbin = some out) : out.length = hashbin.length := by
  induction txns generalizing i hashbin with
  | nil =>
    cases stored
    rfl
  | cons txn rest ih =>
    rw [List.length_cons] at fits
    rw [storeTxids] at stored
    split at stored
    · cases stored
    · next txid named =>
      have node := storedTxid_length txn txid named
      have size := length_overwrite hashbin txid (32 + 32 * i) (by omega)
      rw [ih (i + 1) _ (by omega) stored, size]

/-- Every transaction has its data and a valid id. -/
def Complete (txns : List Json) : Prop :=
  ∀ txn ∈ txns, (transactionData txn).isSome = true ∧ (storedTxid txn).isSome = true

/-- The branch of a complete template has at most 16 nodes. -/
def MerkleFits (txns : List Json) : Prop := Complete txns → txns.length + 1 ≤ 2 ^ 16

theorem gbtMerkleBins_defined (pool : Source.GbtMerkle.Pool) (arr : Option Json) :
    (gbtMerkleBins genHash pool arr).isSome = true ↔ MerkleFits (arrayItems arr) := by
  rw [gbtMerkleBins_eq]
  unfold MerkleFits Complete
  split
  · next data =>
    have datas := List.all_eq_true.mp data
    have ids := storeTxids_isSome (arrayItems arr) 0 (emptyHashbin (arrayItems arr).length)
    split
    · next early =>
      rw [early] at ids
      exact iff_of_true rfl fun complete =>
        absurd (ids.mpr fun txn member => (complete txn member).2) (by simp)
    · next hashbin stored =>
      rw [stored] at ids
      have size := storeTxids_length _ 0 _ hashbin (by simp [emptyHashbin]; omega) stored
      have room : ((arrayItems arr).length + 1) * 32 + 32 ≤ hashbin.length := by
        rw [size]
        simp [emptyHashbin]
        omega
      rw [reduceLevels_defined genHash hashbin _ _ room (by simp)]
      constructor
      · exact fun few _ => few
      · exact fun few => few fun txn member => ⟨datas txn member, ids.mp rfl txn member⟩
  · next missing =>
    refine iff_of_true rfl fun complete => absurd ?_ missing
    exact List.all_eq_true.mpr fun txn member => (complete txn member).1

theorem buildGbtTxns_defined (pool : TemplatePool) (arr : Option Json) :
    (buildGbtTxns genHash pool arr).isSome = true ↔ MerkleFits (arrayItems arr) := by
  rw [← gbtMerkleBins_defined genHash pool.toPool arr]
  unfold buildGbtTxns
  rw [Option.isSome_map]

/-- gbt_merkle_bins and the data it keeps: nothing else in the pool changes. -/
theorem buildGbtTxns_frame (pool next : TemplatePool) (arr : Option Json)
    (stored : buildGbtTxns genHash pool arr = some next) :
    next = { pool with
      transactions := (arrayItems arr).length
      merklebin := next.merklebin
      merkles := next.merkles
      txnData := storeTxnData (arrayItems arr) } := by
  obtain ⟨base, run, rfl⟩ := Option.map_eq_some_iff.mp stored
  have frame := gbtMerkleBins_frame genHash pool.toPool base arr run
  rw [frame]

/-! ## The witness commitment -/

/-- The 36 bytes that gbt_witness_data calculates for a template. -/
def calculatedCommitment (t : SoloFields) : Bytes :=
  (gbtWitnessData genHash t.transactionArr (List.replicate witnessdataSize 0) witnessdataSize).2

/-- gbt_witness_data over the elements of the array. -/
theorem gbtWitnessData_eq (arr : Option Json) :
    gbtWitnessData genHash arr (List.replicate witnessdataSize 0) witnessdataSize =
      match storeHashes (arrayItems arr) 0 (emptyHashbin (jsonArraySize arr)) with
      | none => (false, List.replicate witnessdataSize 0)
      | some hashbin =>
        (true, overwrite (overwrite (List.replicate witnessdataSize 0) 0 witnessHeader) 4
          (genHash ((overwrite (witnessLevels genHash (jsonArraySize arr + 1) hashbin) 32
            witnessNonce).take 64)).bytes) := rfl

theorem gbtWitnessData_spec (arr : Option Json) :
    ((gbtWitnessData genHash arr (List.replicate witnessdataSize 0) witnessdataSize).1 = true ↔
      ∀ txn ∈ arrayItems arr, (storedHash txn).isSome = true) ∧
    (gbtWitnessData genHash arr (List.replicate witnessdataSize 0) witnessdataSize).2.length =
      36 := by
  have hashes := storeHashes_isSome (arrayItems arr) 0 (emptyHashbin (jsonArraySize arr))
  rw [gbtWitnessData_eq]
  cases stored : storeHashes (arrayItems arr) 0 (emptyHashbin (jsonArraySize arr)) with
  | none =>
    rw [stored] at hashes
    exact ⟨hashes, List.length_replicate⟩
  | some hashbin =>
    rw [stored] at hashes
    refine ⟨hashes, ?_⟩
    have zeros : (List.replicate witnessdataSize (0 : UInt8)).length = 36 := List.length_replicate
    have header := length_overwrite (List.replicate witnessdataSize (0 : UInt8)) witnessHeader 0
      (by rw [zeros]; decide)
    dsimp only
    rw [length_overwrite _ _ _ (by rw [header, zeros, Buffer.length_eq]), header, zeros]

/-- When a commitment is inserted, every transaction has a valid hash and the
template's own commitment, if any, is the calculated one. -/
def WitnessAccepted (t : SoloFields) : Prop :=
  t.insertWitness = true →
    (∀ txn ∈ arrayItems t.transactionArr, (storedHash txn).isSome = true) ∧
    ∀ commitment ∈ t.defaultWitnessCommitment,
      (commitment.drop 4).take (2 * witnessdataSize) = bin2hex (calculatedCommitment genHash t)

theorem checkWitness_spec (t : SoloFields) :
    (∃ witnessdata, checkWitness genHash t = .data witnessdata) ↔ WitnessAccepted genHash t := by
  obtain ⟨hashes, size⟩ := gbtWitnessData_spec genHash t.transactionArr
  unfold checkWitness WitnessAccepted
  dsimp only
  split
  · next plain =>
    refine iff_of_true ⟨_, rfl⟩ fun inserted => ?_
    rw [inserted] at plain
    cases plain
  · next inserted =>
    split
    · next failed =>
      refine iff_of_false (by simp) fun accepted => ?_
      have valid := hashes.mpr (accepted (by simpa using inserted)).1
      rw [valid] at failed
      cases failed
    · next calculated =>
      have valid := hashes.mp (by simpa using calculated)
      split
      · next absent =>
        refine iff_of_true ⟨_, rfl⟩ fun _ => ⟨valid, fun commitment given => ?_⟩
        rw [absent] at given
        cases given
      · next commitment given =>
        have hex := length_bin2hex (calculatedCommitment genHash t)
        rw [calculatedCommitment, size] at hex
        split
        · next short =>
          refine iff_of_false (by simp) fun accepted => ?_
          have same :=
            congrArg List.length ((accepted (by simpa using inserted)).2 commitment given)
          rw [calculatedCommitment, hex, List.length_take, List.length_drop] at same
          omega
        · split
          · next other =>
            refine iff_of_false (by simp) fun accepted => ?_
            exact other ((accepted (by simpa using inserted)).2 commitment given)
          · next same =>
            refine iff_of_true ⟨_, rfl⟩ fun _ => ⟨valid, fun other also => ?_⟩
            rw [given] at also
            cases also
            exact not_not.mp same

theorem checkWitness_length (t : SoloFields) (witnessdata : Bytes)
    (checked : checkWitness genHash t = .data witnessdata) : witnessdata.length = 36 := by
  have size := (gbtWitnessData_spec genHash t.transactionArr).2
  unfold checkWitness at checked
  dsimp only at checked
  split at checked
  · cases checked
    exact List.length_replicate
  · split at checked
    · cases checked
    · split at checked
      · cases checked
        exact size
      · split at checked
        · cases checked
        · split at checked
          · cases checked
          · cases checked
            exact size

/-! ## The script and the coinbase -/

/-- The writes end inside `scriptsig_base`. -/
def ScriptFits (t : SoloFields) (optBtcSig : Option Bytes) : Prop :=
  extranonceOfs t ≤ 100 ∧ ∀ sig ∈ optBtcSig, scriptLength t optBtcSig ≤ 100

theorem length_timestamp (now : Time) : (timestamp now).length = 21 := by
  have name : (ascii "cgminer42").length = 9 := by decide +kernel
  simp only [timestamp, List.cons_append, List.length_cons, List.length_append,
    length_littleEndian, name, List.length_nil]

theorem length_serNumber (val : Int) : (serNumber val).1.length = 5 := by
  simp [serNumber]

theorem serNumber_range (val : Int) : 2 ≤ (serNumber val).2 ∧ (serNumber val).2 ≤ 5 := by
  unfold serNumber
  dsimp only
  split
  · decide
  · split
    · decide
    · split <;> decide

theorem scriptWrites_fit (t : SoloFields) (now : Time) (optBtcSig : Option Bytes) :
    (∀ write ∈ scriptWrites t now optBtcSig, write.1 + write.2.length ≤ 100) ↔
      ScriptFits t optBtcSig := by
  have number := serNumber_range t.height
  have flags := length_hex2bin_le t.flags (t.flags.length / 2)
  unfold scriptWrites ScriptFits
  cases optBtcSig with
  | none =>
    simp only [Option.toList_none, List.map_nil, List.append_nil, List.cons_append, List.nil_append,
      List.forall_mem_cons, List.length_replicate, length_serNumber, length_timestamp,
      List.length_singleton, List.not_mem_nil, Option.mem_def, reduceCtorEq]
    unfold extranonceOfs timestampOfs flagsOfs
    constructor
    · rintro ⟨_, _, _, _, inside, _⟩
      exact ⟨by omega, fun _ never => never.elim⟩
    · rintro ⟨inside, _⟩
      refine ⟨by omega, by omega, by omega, by omega, by omega, by omega, fun _ never => never.elim⟩
  | some sig =>
    simp only [Option.toList_some, List.map_cons, List.map_nil, List.cons_append, List.nil_append,
      List.forall_mem_cons, List.length_replicate, length_serNumber, length_timestamp,
      List.length_singleton, List.not_mem_nil, Option.mem_def, Option.some.injEq, forall_eq',
      scriptLength]
    unfold sigOfs extranonceOfs timestampOfs flagsOfs
    constructor
    · rintro ⟨_, _, _, _, inside, signed, _⟩
      exact ⟨by omega, by omega⟩
    · rintro ⟨inside, signed⟩
      refine ⟨by omega, by omega, by omega, by omega, by omega, by omega, by omega,
        fun _ never => never.elim⟩

theorem length_witnessOutput (inserted : Bool) (witnessdata : Bytes)
    (size : witnessdata.length = 36) :
    (witnessOutput inserted witnessdata).length =
      if inserted then 8 + 1 + 2 + witnessdataSize else 0 := by
  unfold witnessOutput
  split
  · simp [size, witnessdataSize]
  · rfl

/-- The size the coinbase is asked for is the one computed for it a second time. -/
theorem coinbaseSize_eq (inserted : Bool) (witnessdata : Bytes) (ofs : Nat)
    (size : witnessdata.length = 36) :
    coinbaseSize inserted ofs =
      41 + ofs + 4 + 1 + 8 + 1 + 25 + (witnessOutput inserted witnessdata).length + 4 := by
  rw [length_witnessOutput inserted witnessdata size, coinbaseSize]
  omega

theorem coinbaseWrites_fit (t : SoloFields) (witnessdata script : Bytes)
    (size : witnessdata.length = 36) :
    ∀ write ∈ coinbaseWrites t witnessdata script,
      write.1 + write.2.length ≤ coinbaseSize t.insertWitness script.length := by
  rw [coinbaseSize_eq t.insertWitness witnessdata script.length size]
  simp only [coinbaseWrites, List.forall_mem_cons, List.length_cons, List.length_nil,
    length_littleEndian, List.not_mem_nil]
  refine ⟨by omega, by omega, by omega, by omega, by omega, fun _ never => never.elim⟩

theorem scriptFits_readable (t : SoloFields) (optBtcSig : Option Bytes)
    (fits : ScriptFits t optBtcSig) :
    scriptLength t optBtcSig + 1 ≤ 128 := by
  obtain ⟨extranonce, signed⟩ := fits
  cases optBtcSig with
  | none =>
    have plain : scriptLength t none = extranonceOfs t + 8 := rfl
    omega
  | some sig =>
    have short := signed sig rfl
    omega

/-- What storing the coinbase means. -/
theorem storeCoinbase_spec (pool next : TemplatePool) (t : SoloFields) (witnessdata : Bytes)
    (now : Time) (optBtcSig : Option Bytes)
    (stored : storeCoinbase pool t witnessdata now optBtcSig = some next) :
    ∃ scriptsigBase coinbase,
      pool.scriptsigBase.storeAll (scriptWrites t now optBtcSig) = some scriptsigBase ∧
      scriptLength t optBtcSig + 1 ≤ 128 ∧
      (Buffer.zero (coinbaseSize t.insertWitness (scriptLength t optBtcSig + 1) *
        alignLen 1)).storeAll
        (coinbaseWrites t witnessdata
          ((scriptsigBase.bytes ++ pool.scriptPubkey.bytes).take (scriptLength t optBtcSig + 1))) =
            some coinbase ∧
      next = { pool with
        badWork := if pool.transactions < 3 then pool.badWork + 1 else pool.badWork
        height := t.height
        scriptsigBase
        nonce2Offset := 41 + extranonceOfs t
        n1Len := scriptLength t optBtcSig + 1
        coinbase := coinbase.bytes.take (41 + (scriptLength t optBtcSig + 1) + 4 + 1 + 8 + 1 + 25 +
          (witnessOutput t.insertWitness witnessdata).length + 4)
        coinbaseAlloc := coinbaseSize t.insertWitness (scriptLength t optBtcSig + 1) * alignLen 1
        nonce2 := 0
        n2size := 4 } := by
  obtain ⟨scriptsigBase, written, rest⟩ := Option.bind_eq_some_iff.mp stored
  dsimp only at rest
  split at rest
  · next readable =>
    obtain ⟨coinbase, filled, rfl⟩ := Option.map_eq_some_iff.mp rest
    rw [List.length_append, Buffer.length_eq, Buffer.length_eq] at readable
    exact ⟨scriptsigBase, coinbase, written, readable.1, filled, rfl⟩
  · cases rest

theorem storeCoinbase_defined (pool : TemplatePool) (t : SoloFields) (witnessdata : Bytes)
    (now : Time) (optBtcSig : Option Bytes) (size : witnessdata.length = 36) :
    (storeCoinbase pool t witnessdata now optBtcSig).isSome = true ↔ ScriptFits t optBtcSig := by
  have writes := (pool.scriptsigBase.storeAll_isSome (scriptWrites t now optBtcSig)).trans
    (scriptWrites_fit t now optBtcSig)
  unfold storeCoinbase
  cases written : pool.scriptsigBase.storeAll (scriptWrites t now optBtcSig) with
  | none =>
    rw [written] at writes
    exact writes
  | some scriptsigBase =>
    rw [written] at writes
    have fits := writes.mp rfl
    have readable := scriptFits_readable t optBtcSig fits
    have sizes := coinbaseSize_eq t.insertWitness witnessdata (scriptLength t optBtcSig + 1) size
    have room : (scriptsigBase.bytes ++ pool.scriptPubkey.bytes).length = 128 := by
      rw [List.length_append, Buffer.length_eq, Buffer.length_eq]
    have script : ((scriptsigBase.bytes ++ pool.scriptPubkey.bytes).take
        (scriptLength t optBtcSig + 1)).length = scriptLength t optBtcSig + 1 := by
      rw [List.length_take, room, Nat.min_eq_left readable]
    have filled :=
      coinbaseWrites_fit t witnessdata ((scriptsigBase.bytes ++ pool.scriptPubkey.bytes).take
      (scriptLength t optBtcSig + 1)) size
    rw [script] at filled
    refine iff_of_true ?_ fits
    rw [Option.bind_some]
    dsimp only
    rw [alignLen_one, if_pos ⟨by omega, by omega⟩, Option.isSome_map, Buffer.storeAll_isSome]
    exact fun write member => (filled write member).trans (by omega)

/-! ## Accepted templates -/

/-- The stages an accepted template went through. -/
structure Accepted (pool built : TemplatePool) (resVal : Option Json) (hashSwap : Buffer 32)
    (now : Time) (optBtcSig : Option Bytes) (t : SoloFields) (stored : TemplatePool)
    (witnessdata : Bytes) (next : TemplatePool) : Prop where
  read : readSolo resVal = some t
  transactions : buildGbtTxns genHash (storeSolo diffFromTarget pool t hashSwap) t.transactionArr =
    some stored
  witness : checkWitness genHash t = .data witnessdata
  coinbase : storeCoinbase stored t witnessdata now optBtcSig = some next
  header : (hex2bin (soloHeader next) 128).2 = true
  result : built = { next with headerBin := hex2binInto next.headerBin (soloHeader next) }

theorem gbtSoloDecode_accepted (pool built : TemplatePool) (resVal : Option Json)
    (hashSwap : Buffer 32) (now : Time) (optBtcSig : Option Bytes) (locked : Bool)
    (accepted : gbtSoloDecode genHash diffFromTarget pool resVal hashSwap now optBtcSig =
      .returned built locked true) :
    ∃ t stored witnessdata next,
      Accepted genHash diffFromTarget pool built resVal hashSwap now optBtcSig t stored
      witnessdata next := by
  unfold gbtSoloDecode at accepted
  split at accepted
  · cases accepted
  · next t read =>
    split at accepted
    · cases accepted
    · next stored transactions =>
      split at accepted
      · cases accepted
      · cases accepted
      · next witnessdata witness =>
        split at accepted
        · cases accepted
        · next next coinbase =>
          unfold storeHeader at accepted
          split at accepted
          · next header =>
            cases accepted
            exact ⟨t, stored, witnessdata, next, read, transactions, witness, coinbase, header, rfl⟩
          · cases accepted

/-- The strings of the header are those of the template. -/
theorem storeCoinbase_strings {pool stored next : TemplatePool} {t : SoloFields}
    {hashSwap : Buffer 32} {witnessdata : Bytes} {now : Time} {optBtcSig : Option Bytes}
    (transactions : buildGbtTxns genHash (storeSolo diffFromTarget pool t hashSwap)
      t.transactionArr = some stored)
    (coinbase : storeCoinbase stored t witnessdata now optBtcSig = some next) :
    next.bbversion = hex08 t.version ∧ next.ntime = hex08 t.curtime ∧ next.nbit = t.bits.take 8 ∧
      next.prevHash = bin2hex (swap256 (hex2binInto hashSwap t.previousblockhash)).bytes := by
  obtain ⟨_, _, _, _, _, rfl⟩ := storeCoinbase_spec stored next t witnessdata now optBtcSig coinbase
  rw [buildGbtTxns_frame genHash _ stored _ transactions]
  exact ⟨rfl, rfl, rfl, rfl⟩

theorem Accepted.strings {pool built : TemplatePool} {resVal : Option Json} {hashSwap : Buffer 32}
    {now : Time} {optBtcSig : Option Bytes} {t : SoloFields} {stored : TemplatePool}
    {witnessdata : Bytes} {next : TemplatePool}
    (accepted : Accepted genHash diffFromTarget pool built resVal hashSwap now optBtcSig t stored
      witnessdata next) :
    next.bbversion = hex08 t.version ∧ next.ntime = hex08 t.curtime ∧ next.nbit = t.bits.take 8 ∧
      next.prevHash = bin2hex (swap256 (hex2binInto hashSwap t.previousblockhash)).bytes :=
  storeCoinbase_strings genHash diffFromTarget accepted.transactions accepted.coinbase

theorem length_hex08 (n : Int) : (hex08 n).length = 8 := by
  rw [hex08, length_bin2hex, length_htobe32]

/-- The text of the header around the time. -/
def headerFront (t : SoloFields) (hashSwap : Buffer 32) : Bytes :=
  hex08 t.version ++ bin2hex (swap256 (hex2binInto hashSwap t.previousblockhash)).bytes ++
    List.replicate 64 0x30

def headerBack (t : SoloFields) : Bytes :=
  t.bits.take 8 ++ (List.replicate 8 0x30 ++
    ([0x30, 0x30, 0x30, 0x30, 0x30, 0x30, 0x38, 0x30] ++ List.replicate 80 0x30 ++
      [0x38, 0x30, 0x30, 0x32, 0x30, 0x30, 0x30, 0x30]))

theorem soloHeader_eq (next : TemplatePool) (t : SoloFields) (hashSwap : Buffer 32)
    (strings : next.bbversion = hex08 t.version ∧ next.ntime = hex08 t.curtime ∧
      next.nbit = t.bits.take 8 ∧
      next.prevHash = bin2hex (swap256 (hex2binInto hashSwap t.previousblockhash)).bytes) :
    soloHeader next = headerFront t hashSwap ++ (hex08 t.curtime ++ headerBack t) := by
  obtain ⟨bbversion, ntime, nbit, prevHash⟩ := strings
  unfold soloHeader headerFront headerBack
  rw [bbversion, ntime, nbit, prevHash]
  simp only [List.append_assoc]

theorem headerFront_spec (t : SoloFields) (hashSwap : Buffer 32) :
    (headerFront t hashSwap).length = 2 * 68 ∧ validHex (headerFront t hashSwap) = true := by
  have zeros : validHex (List.replicate 64 0x30) = true := by decide
  unfold headerFront
  constructor
  · rw [List.length_append, List.length_append, length_hex08, length_bin2hex, Buffer.length_eq,
      List.length_replicate]
  · rw [validHex_append, validHex_append, hex08, validHex_bin2hex, validHex_bin2hex, zeros]
    rfl

/-- The header decodes exactly when the first eight characters of `bits` are digits. -/
theorem headerBack_spec (t : SoloFields) (long : 8 ≤ t.bits.length)
    (digits : validHex (t.bits.take 8) = true) :
    (headerBack t).length = 2 * 56 ∧ validHex (headerBack t) = true := by
  have tail : validHex (List.replicate 8 0x30 ++
      ([0x30, 0x30, 0x30, 0x30, 0x30, 0x30, 0x38, 0x30] ++ List.replicate 80 0x30 ++
        [0x38, 0x30, 0x30, 0x32, 0x30, 0x30, 0x30, 0x30])) = true := by decide
  unfold headerBack
  constructor
  · rw [List.length_append, List.length_take, Nat.min_eq_left long]
    rfl
  · rw [validHex_append, digits, tail]
    rfl

theorem gbtSoloDecode_returns (pool : TemplatePool) (resVal : Option Json) (hashSwap : Buffer 32)
    (now : Time) (optBtcSig : Option Bytes) (t : SoloFields) (read : readSolo resVal = some t)
    (merkle : MerkleFits (arrayItems t.transactionArr)) (witness : WitnessAccepted genHash t)
    (script : ScriptFits t optBtcSig) (long : 8 ≤ t.bits.length)
    (digits : validHex (t.bits.take 8) = true) :
    ∃ built, gbtSoloDecode genHash diffFromTarget pool resVal hashSwap now optBtcSig =
      .returned built false true := by
  obtain ⟨stored, transactions⟩ := Option.isSome_iff_exists.mp
    ((buildGbtTxns_defined genHash (storeSolo diffFromTarget pool t hashSwap)
      t.transactionArr).mpr merkle)
  obtain ⟨witnessdata, checked⟩ := (checkWitness_spec genHash t).mpr witness
  have size := checkWitness_length genHash t witnessdata checked
  obtain ⟨next, coinbase⟩ := Option.isSome_iff_exists.mp
    ((storeCoinbase_defined stored t witnessdata now optBtcSig size).mpr script)
  have strings := storeCoinbase_strings genHash diffFromTarget transactions coinbase
  have header : (hex2bin (soloHeader next) 128).2 = true := by
    obtain ⟨frontSize, frontValid⟩ := headerFront_spec t hashSwap
    obtain ⟨backSize, backValid⟩ := headerBack_spec t long digits
    have text := soloHeader_eq next t hashSwap strings
    have valid : validHex (soloHeader next) = true := by
      rw [text, validHex_append, validHex_append, frontValid, backValid, hex08, validHex_bin2hex]
      rfl
    rw [hex2bin_valid (soloHeader next) 128 valid]
    rw [text, List.length_append, List.length_append, frontSize, backSize, length_hex08]
  refine ⟨{ next with headerBin := hex2binInto next.headerBin (soloHeader next) }, ?_⟩
  unfold gbtSoloDecode
  rw [read]
  dsimp only
  rw [transactions]
  dsimp only
  rw [checked]
  dsimp only
  rw [coinbase]
  dsimp only
  unfold storeHeader
  rw [if_pos header]

/-- __setup_gbt_solo writes into the coinbase only. -/
theorem setupGbtSolo_frame (pool next : TemplatePool) (ready : setupGbtSolo pool = some next) :
    next = { pool with coinbase := next.coinbase } ∧
      next.coinbase.length = pool.coinbase.length := by
  obtain ⟨headed, first, rest⟩ := Option.bind_eq_some_iff.mp ready
  obtain ⟨sized, second, rest⟩ := Option.bind_eq_some_iff.mp rest
  obtain ⟨coinbase, third, rfl⟩ := Option.map_eq_some_iff.mp rest
  refine ⟨rfl, ?_⟩
  rw [length_blit _ _ _ _ third, length_blit _ _ _ _ second, length_blit _ _ _ _ first]

/-- The members of a template without transactions. -/
def emptyTemplate : Json :=
  .object
    [("previousblockhash", .string (List.replicate 64 0x30)),
      ("target", .string (List.replicate 64 0x30)),
      ("version", .integer 536870912),
      ("curtime", .integer 1700000000),
      ("bits", .string (ascii "1d00ffff")),
      ("height", .integer 800000),
      ("coinbasevalue", .integer 625000000),
      ("coinbaseaux", .object [("flags", .string [])]),
      ("rules", .array [.string (ascii "csv")])]

/-- It is accepted with the signature "sig" by every pool. -/
theorem emptyTemplate_accepted (pool : TemplatePool) (hashSwap : Buffer 32) (now : Time) :
    ∃ built, gbtSoloDecode genHash diffFromTarget pool (some emptyTemplate) hashSwap now
      (some (ascii "sig")) =
      .returned built false true := by
  obtain ⟨t, read, arr, given, script, long, digits⟩ : ∃ t, readSolo (some emptyTemplate) = some t ∧
      arrayItems t.transactionArr = [] ∧ t.defaultWitnessCommitment = none ∧
      scriptLength t (some (ascii "sig")) ≤ 100 ∧ 8 ≤ t.bits.length ∧
        validHex (t.bits.take 8) = true :=
    ⟨_, rfl, rfl, rfl, by decide +kernel, by decide +kernel, by decide +kernel⟩
  have within : extranonceOfs t ≤ scriptLength t (some (ascii "sig")) := by
    unfold scriptLength sigOfs
    dsimp only
    omega
  apply gbtSoloDecode_returns genHash diffFromTarget pool _ hashSwap now _ t read
  · rw [arr]
    exact fun _ => by decide
  · intro _
    rw [arr, given]
    exact ⟨fun _ member => absurd member List.not_mem_nil, fun _ member => absurd member (by simp)⟩
  · exact ⟨by omega, fun _ _ => script⟩
  · exact long
  · exact digits

end CgminerT4.Guarantees.SoloTemplate
