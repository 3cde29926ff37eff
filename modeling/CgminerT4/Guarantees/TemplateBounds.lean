import CgminerT4.Guarantees.CoinbaseSplice
import CgminerT4.Source.TemplateWrites

/-!
# Templates and the buffers they are decoded into

No string of a template is compared with the buffer it is copied to. A coinbase
from the pool has to be as long as its script says, the flags of a solo template
have to leave room for what follows them, and a complete list of transactions
must not have more than 16 levels. The text of the witness data is always a byte
longer than its buffer.
-/
namespace CgminerT4.Guarantees.TemplateBounds
open Library.ByteString Source.Jansson Source.Hex Source.GbtMerkle Source.GbtWitness
  Source.GbtTemplate
open Source.TemplateWrites SoloTemplate CoinbaseSplice SubmissionBuffers

/-- The log is defined and stays inside the buffers. -/
def InBounds (log : Option (List Write)) : Prop :=
  ∃ writes, log = some writes ∧ ∀ write ∈ writes, write.Inside

theorem inBounds_some (writes : List Write) :
    InBounds (some writes) ↔ ∀ write ∈ writes, write.Inside := by
  simp [InBounds]

theorem forall_append (first second : List Write) :
    (∀ write ∈ first ++ second, write.Inside) ↔
      (∀ write ∈ first, write.Inside) ∧ ∀ write ∈ second, write.Inside :=
  List.forall_mem_append

theorem copy_inside (size : Nat) (ofs : Int) (n : Nat) :
    (copy size ofs n).Inside ↔ 0 ≤ ofs ∧ ofs + n ≤ size := by
  unfold Write.Inside copy
  dsimp only
  constructor
  · exact fun inside => inside.2
  · exact fun inside => ⟨Int.natCast_nonneg n, inside⟩

/-- A length that is not negative as a size_t. -/
theorem toNat_ofInt_le (n : Int) (positive : 0 ≤ n) : ((UInt64.ofInt n).toNat : Int) ≤ n := by
  rw [UInt64.ofInt, UInt64.toNat_ofNat']
  omega

theorem toNat_ofInt (n : Int) (positive : 0 ≤ n) (small : n < 2 ^ 64) :
    ((UInt64.ofInt n).toNat : Int) = n := by
  rw [UInt64.ofInt, UInt64.toNat_ofNat']
  omega

theorem decode_counted (size : Nat) (ofs len : Int) (hexstr : Bytes)
    (inside : (decode size ofs hexstr len).Inside) :
    0 ≤ len := inside.1

/-- Decoding stores at most as many bytes as it is asked for. -/
theorem decode_written (size : Nat) (ofs len : Int) (hexstr : Bytes) (positive : 0 ≤ len) :
    ((decode size ofs hexstr len).written : Int) ≤ len := by
  have written := length_hex2bin_le hexstr (UInt64.ofInt len).toNat
  have narrow := toNat_ofInt_le len positive
  unfold decode
  dsimp only
  omega

/-- A copy that would fit whole. -/
theorem decode_inside (size : Nat) (ofs len : Int) (hexstr : Bytes) (positive : 0 ≤ len)
    (starts : 0 ≤ ofs) (fits : ofs + len ≤ size) : (decode size ofs hexstr len).Inside := by
  have written := decode_written size ofs len hexstr positive
  unfold decode at written ⊢
  unfold Write.Inside
  dsimp only at written ⊢
  omega

/-! ## The merkle branch -/

/-- Like the nodes of the branch, their writes fit when there are few enough leaves. -/
theorem branchWrites_inside (binleft merkles : Nat) (few : merkles ≤ 16) :
    (∀ write ∈ branchWrites binleft merkles, write.Inside) ↔ binleft ≤ 2 ^ (16 - merkles) := by
  induction binleft using Nat.strong_induction_on generalizing merkles with
  | _ binleft ih =>
    rw [branchWrites]
    split
    · next last =>
      have positive : 1 ≤ 2 ^ (16 - merkles) := Nat.one_le_two_pow
      exact iff_of_true (fun _ member => absurd member List.not_mem_nil) (by omega)
    · next more =>
      rw [List.forall_mem_cons, copy_inside]
      by_cases full : merkles = 16
      · subst full
        refine iff_of_false (fun inside => ?_) (by simpa using more)
        have outside := inside.1.2
        omega
      · have double : 2 ^ (16 - merkles) = 2 * 2 ^ (16 - (merkles + 1)) := by
          rw [← Nat.pow_succ']
          congr 1
          omega
        rw [ih _ (by omega) (merkles + 1) (by omega)]
        omega

theorem merkleWrites_inside (txns : List Json) :
    (∀ write ∈ merkleWrites txns, write.Inside) ↔ MerkleFits txns := by
  have complete :
      (txns.all fun txn => (transactionData txn).isSome && (storedTxid txn).isSome) = true ↔
      Complete txns := by
    simp only [List.all_eq_true, Bool.and_eq_true, Complete]
  unfold merkleWrites MerkleFits
  split
  · next all =>
    rw [branchWrites_inside _ _ (by decide)]
    constructor
    · exact fun few _ => few
    · exact fun few => few (complete.mp all)
  · next missing =>
    refine iff_of_true (fun _ member => absurd member List.not_mem_nil) fun all => ?_
    exact absurd (complete.mpr all) missing

/-! ## gbt_decode -/

theorem origLen_eq (coinbasetxn : Bytes) : origLen coinbasetxn = scriptLen (unhex coinbasetxn) := by
  rw [origLen, scriptLen, hex2bin_fst, List.getD_eq_getElem?_getD, List.getD_eq_getElem?_getD,
    List.getElem?_take_of_lt (by decide)]

theorem scriptLen_lt (t : Bytes) : scriptLen t < 256 := UInt8.toNat_lt _

/-- The copies meet unless the coinbase ends inside its script. -/
theorem coinbasetxnWrites_inside (coinbasetxn : Bytes) (positive : 0 ≤ halfLen coinbasetxn + 9) :
    (∀ write ∈ coinbasetxnWrites coinbasetxn, write.Inside) ↔
      42 + scriptLen (unhex coinbasetxn) ≤ halfLen coinbasetxn := by
  have byte := scriptLen_lt (unhex coinbasetxn)
  have low : (UInt8.ofNat (scriptLen (unhex coinbasetxn) + 8)).toNat ≤
      scriptLen (unhex coinbasetxn) + 8 := by
    rw [UInt8.toNat_ofNat']
    exact Nat.mod_le _ _
  unfold coinbasetxnWrites
  dsimp only
  rw [origLen_eq, alignLen_one]
  simp only [List.forall_mem_cons, List.not_mem_nil]
  constructor
  · intro inside
    have counted := decode_counted _ _ _ _ inside.2.2.2.1
    omega
  · intro long
    refine ⟨?_, ?_, ?_, ?_, fun _ never => never.elim⟩
    · exact decode_inside _ _ _ _ (by omega) (by omega) (by omega)
    · exact decode_inside _ _ _ _ (by omega) (by omega) (by omega)
    · exact (copy_inside _ _ _).mpr ⟨by omega, by omega⟩
    · exact decode_inside _ _ _ _ (by omega) (by omega) (by omega)

/-- The lengths are ints; the coinbase is as long as its script says, and the
branch has room for a complete list of transactions. A negative length ends the
process before anything is written. -/
def GbtFits (coinbasetxn : Bytes) (txns : List Json) : Prop :=
  halfLen coinbasetxn + 9 < 2 ^ 31 ∧
    (halfLen coinbasetxn + 9 < 0 ∨
      42 + scriptLen (unhex coinbasetxn) ≤ halfLen coinbasetxn ∧ MerkleFits txns)

theorem gbtDecodeWrites_inside (t : GbtFields) (txns : List Json) :
    InBounds (gbtDecodeWrites t txns) ↔ GbtFits t.coinbasetxn txns := by
  unfold gbtDecodeWrites GbtFits
  split
  · next wide =>
    refine iff_of_false ?_ fun fits => ?_
    · rintro ⟨_, never, _⟩
      cases never
    · omega
  · next narrow =>
    split
    · next negative =>
      rw [inBounds_some]
      exact iff_of_true (fun _ member => absurd member List.not_mem_nil) ⟨by omega, Or.inl negative⟩
    · next positive =>
      rw [inBounds_some, forall_append, coinbasetxnWrites_inside _ (by omega), merkleWrites_inside]
      constructor
      · exact fun fits => ⟨by omega, Or.inr fits⟩
      · exact fun fits => fits.2.resolve_left positive

theorem halfLen_eq (s : Bytes) (short : s.length / 2 < 2 ^ 31) : halfLen s = (s.length / 2 : Nat) :=
  toInt_of_lt (s.length / 2) short

/-- What was copied to the front of a zeroed buffer, and zeros behind it. -/
theorem getD_zeroed (n : Nat) (src : Bytes) (i : Nat) :
    (overwrite (List.replicate n 0) 0 src).getD i 0 = src.getD i 0 := by
  rw [overwrite_replicate, List.getD_eq_getElem?_getD, List.getD_eq_getElem?_getD,
    List.getElem?_append]
  split
  · rfl
  · next behind =>
    rw [List.getElem?_eq_none (by omega : src.length ≤ i), List.getElem?_replicate]
    split <;> rfl

/-- The first copy and the length byte it brings. -/
theorem first_blit (coinbasetxn : Bytes) (long : 84 ≤ coinbasetxn.length) :
    ∃ front, blit (cgcalloc (coinbasetxn.length / 2 + 9) 1) 0 (hex2bin coinbasetxn 42).1 =
      some front ∧
      front.length = (coinbasetxn.length / 2 + 9) * 4 ∧
      (front.getD 41 0).toNat = scriptLen (unhex coinbasetxn) := by
  have copied := length_hex2bin_le coinbasetxn 42
  have zeroed : (cgcalloc (coinbasetxn.length / 2 + 9) 1).length =
      (coinbasetxn.length / 2 + 9) * 4 :=
    List.length_replicate
  refine ⟨_, if_pos (by omega), ?_, ?_⟩
  · rw [length_overwrite _ _ _ (by omega), zeroed]
  · rw [cgcalloc_bytes, getD_zeroed]
    exact origLen_eq coinbasetxn

theorem appendNonce2_isSome (coinbasetxn : Bytes) :
    (appendNonce2 coinbasetxn).isSome = true ↔
      coinbasetxn.length / 2 + 9 < 2 ^ 31 ∧
        42 + scriptLen (unhex coinbasetxn) ≤ coinbasetxn.length / 2 := by
  unfold appendNonce2
  dsimp only
  by_cases wide : 2 ^ 31 ≤ coinbasetxn.length / 2 + 9
  · rw [if_pos wide]
    exact iff_of_false Bool.false_ne_true (by omega)
  by_cases short : coinbasetxn.length < 84
  · rw [if_neg wide, if_pos short]
    exact iff_of_false Bool.false_ne_true (by omega)
  obtain ⟨front, copied, size, length⟩ := first_blit coinbasetxn (by omega)
  rw [if_neg wide, if_neg short, copied, Option.bind_some, length]
  by_cases ends : coinbasetxn.length < 84 + 2 * scriptLen (unhex coinbasetxn)
  · rw [if_pos ends]
    exact iff_of_false Bool.false_ne_true (by omega)
  -- both further copies end in front of the last byte
  have script := length_hex2bin_le (coinbasetxn.drop 84) (scriptLen (unhex coinbasetxn))
  have rest := length_hex2bin_le (coinbasetxn.drop (84 + 2 * scriptLen (unhex coinbasetxn)))
    (coinbasetxn.length / 2 - scriptLen (unhex coinbasetxn) - 42)
  have extra := Nat.mod_le (scriptLen (unhex coinbasetxn) + 8) 256
  have patched :=
    length_overwrite front (hex2bin (coinbasetxn.drop 84) (scriptLen (unhex coinbasetxn))).1 42
      (by omega)
  rw [if_neg ends, blit, if_pos (by omega), Option.bind_some, blit,
    if_pos (by rw [List.length_set, UInt8.toNat_ofNat']; omega)]
  exact iff_of_true rfl (by omega)

/-- The decoder has a result exactly when its writes stay inside. -/
theorem gbtDecode_defined_iff (genHash : Bytes → Digest) (pool : TemplatePool)
    (resVal : Option Json) (hashSwap : Buffer 32) (t : GbtFields) (read : readGbt resVal = some t)
    (short : t.coinbasetxn.length / 2 < 2 ^ 31) :
    (gbtDecode genHash pool resVal hashSwap).isSome = true ↔
      InBounds (gbtDecodeWrites t (arrayItems (jsonObjectGet resVal "transactions"))) := by
  have appends := appendNonce2_isSome t.coinbasetxn
  rw [gbtDecodeWrites_inside, GbtFits, halfLen_eq _ short]
  unfold gbtDecode
  rw [read]
  dsimp only
  cases appended : appendNonce2 t.coinbasetxn with
  | none =>
    rw [appended] at appends
    refine iff_of_false Bool.false_ne_true fun fits => ?_
    exact absurd (appends.mpr ⟨by omega, by omega⟩) Bool.false_ne_true
  | some parts =>
    rw [appended] at appends
    have fits := appends.mp rfl
    rw [Option.bind_some, Option.isSome_map, buildGbtTxns_defined]
    constructor
    · exact fun merkle => ⟨by omega, Or.inr ⟨by omega, merkle⟩⟩
    · exact fun bounds => (bounds.2.resolve_left (by omega)).2

/-! ## gbt_solo_decode -/

/-- The flags and the signature leave room for each other and for the timestamp. -/
def ScriptRoom (t : SoloFields) (optBtcSig : Option Bytes) : Prop :=
  0 ≤ halfLen t.flags ∧ (serNumber t.height).2 + halfLen t.flags ≤ 77 ∧
    ∀ sig ∈ optBtcSig, 0 ≤ toInt sig.length ∧
      (serNumber t.height).2 + halfLen t.flags + min (toInt sig.length) 32 ≤ 68

theorem scriptsigWrites_inside (t : SoloFields) (optBtcSig : Option Bytes) :
    (∀ write ∈ scriptsigWrites t optBtcSig, write.Inside) ↔ ScriptRoom t optBtcSig := by
  have number := serNumber_range t.height
  have start : flagsOfs t = (serNumber t.height).2 + 2 := by
    unfold flagsOfs
    omega
  unfold scriptsigWrites ScriptRoom extranonceStart
  rw [start, forall_append, forall_append]
  simp only [List.forall_mem_cons, List.not_mem_nil, copy_inside]
  cases optBtcSig with
  | none =>
    simp only [Option.toList_none, List.flatMap_nil, List.not_mem_nil, Option.mem_def, reduceCtorEq]
    constructor
    · intro inside
      obtain ⟨⟨⟨_, _, _, flags, stamped, _⟩, _⟩, _⟩ := inside
      exact ⟨decode_counted _ _ _ _ flags, by omega, fun _ never => never.elim⟩
    · intro room
      have flags :=
        decode_inside 100 ((serNumber t.height).2 + 2 : Nat) (halfLen t.flags) t.flags room.1
          (by omega)
        (by omega)
      refine ⟨⟨⟨by omega, by omega, by omega, flags, by omega, fun _ never => never.elim⟩,
        fun _ never => never.elim⟩, by omega, fun _ never => never.elim⟩
  | some sig =>
    simp only [Option.toList_some, List.flatMap_cons, List.flatMap_nil, List.append_nil,
      List.forall_mem_cons, List.not_mem_nil, copy_inside, Option.mem_def, Option.some.injEq,
      forall_eq']
    unfold sigLen
    constructor
    · intro inside
      obtain ⟨⟨⟨_, _, _, flags, stamped, _⟩, _, signed, _⟩, _⟩ := inside
      have positive := decode_counted _ _ _ _ flags
      unfold Write.Inside at signed
      dsimp only at signed
      obtain ⟨counted, _, ends⟩ := signed
      rw [toNat_ofInt _ counted (by omega)] at ends
      exact ⟨positive, by omega, by omega, by omega⟩
    · intro room
      have flags :=
        decode_inside 100 ((serNumber t.height).2 + 2 : Nat) (halfLen t.flags) t.flags room.1
          (by omega)
        (by omega)
      obtain ⟨positive, stamped, counted, signed⟩ := room
      have signature :
          Write.Inside ⟨100, ((serNumber t.height).2 + 2 : Nat) + halfLen t.flags + 21 + 8 + 1,
          min (toInt sig.length) 32, (UInt64.ofInt (min (toInt sig.length) 32)).toNat⟩ := by
        have bytes := toNat_ofInt (min (toInt sig.length) 32) (by omega) (by omega)
        unfold Write.Inside
        dsimp only
        omega
      exact ⟨⟨⟨by omega, by omega, by omega, flags, by omega, fun _ never => never.elim⟩, by omega,
        signature,
        fun _ never => never.elim⟩, by omega, fun _ never => never.elim⟩

theorem scriptEnd_nonneg (t : SoloFields) (optBtcSig : Option Bytes)
    (room : ScriptRoom t optBtcSig) :
    0 ≤ scriptEnd t optBtcSig := by
  obtain ⟨positive, _, signed⟩ := room
  unfold scriptEnd extranonceStart
  cases optBtcSig with
  | none =>
    dsimp only
    omega
  | some sig =>
    have counted := (signed sig rfl).1
    unfold sigLen
    dsimp only
    omega

theorem soloCoinbaseWrites_inside (inserted : Bool) (ofs : Int) (positive : 0 ≤ ofs) :
    ∀ write ∈ soloCoinbaseWrites inserted ofs, write.Inside := by
  have narrow := toNat_ofInt_le ofs positive
  unfold soloCoinbaseWrites witnessdataSize
  dsimp only
  rw [forall_append, alignLen_one]
  cases inserted with
  | false =>
    simp only [List.forall_mem_cons, List.not_mem_nil, copy_inside, Bool.false_eq_true, if_false]
    unfold Write.Inside
    dsimp only
    exact ⟨⟨by omega, by omega, by omega, by omega, fun _ never => never.elim⟩,
      fun _ never => never.elim⟩
  | true =>
    simp only [List.forall_mem_cons, List.not_mem_nil, copy_inside, if_true]
    unfold Write.Inside
    dsimp only
    exact ⟨⟨by omega, by omega, by omega, by omega, fun _ never => never.elim⟩, by omega,
      fun _ never => never.elim⟩

theorem headerWrites_inside (header : Bytes) : ∀ write ∈ headerWrites header, write.Inside := by
  intro write member
  rw [List.mem_singleton.mp member]
  unfold Write.Inside
  dsimp only
  omega

variable (genHash : Bytes → Digest) (diffFromTarget : Buffer 32 → Double)

/-- With a rule other than segwit only the calculation that fails, for a
transaction without a valid hash, keeps from writing the text of the witness
data; without one the flags and the signature have to fit. -/
def SoloFits (t : SoloFields) (optBtcSig : Option Bytes) : Prop :=
  MerkleFits (arrayItems t.transactionArr) ∧
    if t.insertWitness then ∃ txn ∈ arrayItems t.transactionArr, storedHash txn =
      none else ScriptRoom t optBtcSig

theorem checkWitness_plain (t : SoloFields) (plain : t.insertWitness = false) :
    checkWitness genHash t = .data (List.replicate witnessdataSize 0) := by
  unfold checkWitness
  rw [plain]
  rfl

theorem soloDecodeWrites_inside (pool : TemplatePool) (t : SoloFields) (hashSwap : Buffer 32)
    (optBtcSig : Option Bytes) :
    (∀ write ∈ soloDecodeWrites genHash diffFromTarget pool t hashSwap optBtcSig, write.Inside) ↔
      SoloFits t optBtcSig := by
  obtain ⟨hashes, _⟩ := gbtWitnessData_spec genHash t.transactionArr
  unfold soloDecodeWrites SoloFits
  dsimp only
  rw [forall_append, merkleWrites_inside]
  apply and_congr_right
  intro _
  cases inserted : t.insertWitness with
  | false =>
    rw [checkWitness_plain genHash t inserted, Bool.false_and, if_neg Bool.false_ne_true,
      if_neg Bool.false_ne_true, forall_append, forall_append, forall_append,
      scriptsigWrites_inside]
    constructor
    · exact fun inside => inside.2.1.1
    · intro room
      refine ⟨fun _ member => absurd member List.not_mem_nil, ⟨room, ?_⟩, headerWrites_inside _⟩
      exact soloCoinbaseWrites_inside false _ (scriptEnd_nonneg t optBtcSig room)
  | true =>
    rw [Bool.true_and, if_pos rfl]
    cases calculated :
      (gbtWitnessData genHash t.transactionArr (List.replicate witnessdataSize 0)
        witnessdataSize).1 with
    | false =>
      rw [calculated] at hashes
      rw [Bool.not_false, if_pos rfl]
      refine iff_of_true (fun _ member => absurd member List.not_mem_nil) ?_
      by_contra valid
      refine absurd (hashes.mpr fun txn member => ?_) Bool.false_ne_true
      rw [Option.isSome_iff_ne_none]
      exact fun missing => valid ⟨txn, member, missing⟩
    | true =>
      have valid := hashes.mp calculated
      rw [Bool.not_true, if_neg Bool.false_ne_true, forall_append]
      refine iff_of_false (fun inside => ?_) ?_
      · -- the terminator is the 73rd byte
        have text := inside.1 _ (List.mem_singleton_self _)
        exact absurd text (by decide)
      · rintro ⟨txn, member, missing⟩
        have hash := valid txn member
        rw [missing] at hash
        cases hash

/-- Strings whose lengths are ints fit as in the decoder. -/
theorem scriptRoom_iff (t : SoloFields) (optBtcSig : Option Bytes)
    (flags : t.flags.length / 2 < 2 ^ 31)
    (signature : ∀ sig ∈ optBtcSig, sig.length < 2 ^ 31) : ScriptRoom t optBtcSig ↔
      ScriptFits t optBtcSig := by
  unfold ScriptRoom ScriptFits
  rw [halfLen_eq _ flags]
  cases optBtcSig with
  | none =>
    simp only [Option.mem_def, reduceCtorEq]
    unfold extranonceOfs timestampOfs flagsOfs
    constructor
    · exact fun room => ⟨by omega, fun _ never => never.elim⟩
    · exact fun fits => ⟨by omega, by omega, fun _ never => never.elim⟩
  | some sig =>
    have short := signature sig rfl
    simp only [Option.mem_def, Option.some.injEq, forall_eq', scriptLength]
    rw [toInt_of_lt sig.length short, sigPush, List.length_cons, List.length_take]
    unfold sigOfs extranonceOfs timestampOfs flagsOfs
    constructor
    · exact fun room => ⟨by omega, by omega⟩
    · exact fun fits => ⟨by omega, by omega, by omega, by omega⟩

/-- So has the solo decoder, without a text of the witness data. -/
theorem gbtSoloDecode_defined_iff (pool : TemplatePool) (resVal : Option Json)
    (hashSwap : Buffer 32) (now : Time) (optBtcSig : Option Bytes) (t : SoloFields)
    (read : readSolo resVal = some t) (plain : t.insertWitness = false)
    (flags : t.flags.length / 2 < 2 ^ 31) (signature : ∀ sig ∈ optBtcSig, sig.length < 2 ^ 31) :
    gbtSoloDecode genHash diffFromTarget pool resVal hashSwap now optBtcSig ≠ .undefined ↔
      InBounds (some (soloDecodeWrites genHash diffFromTarget pool t hashSwap optBtcSig)) := by
  have merkle :=
    buildGbtTxns_defined genHash (storeSolo diffFromTarget pool t hashSwap) t.transactionArr
  rw [inBounds_some, soloDecodeWrites_inside, SoloFits, plain, if_neg Bool.false_ne_true,
    scriptRoom_iff t optBtcSig flags signature]
  unfold gbtSoloDecode
  rw [read]
  dsimp only
  cases built :
    buildGbtTxns genHash (storeSolo diffFromTarget pool t hashSwap) t.transactionArr with
  | none =>
    rw [built] at merkle
    exact iff_of_false (fun defined => defined rfl) fun fits =>
      absurd (merkle.mpr fits.1) Bool.false_ne_true
  | some stored =>
    rw [built] at merkle
    have script :=
      storeCoinbase_defined stored t (List.replicate witnessdataSize 0)
        now optBtcSig List.length_replicate
    rw [checkWitness_plain genHash t plain]
    dsimp only
    cases coinbase : storeCoinbase stored t (List.replicate witnessdataSize 0) now optBtcSig with
    | none =>
      rw [coinbase] at script
      exact iff_of_false (fun defined => defined rfl) fun fits =>
        absurd (script.mpr fits.2) Bool.false_ne_true
    | some next =>
      rw [coinbase] at script
      refine iff_of_true ?_ ⟨merkle.mp rfl, script.mp rfl⟩
      unfold storeHeader
      dsimp only
      split
      · exact Decoded.noConfusion
      · exact Decoded.noConfusion

/-- The writes of a decoder stay inside its buffers exactly when the strings fit. -/
theorem template_bounds_iff :
    (∀ resVal t, readGbt resVal = some t →
      (InBounds (gbtDecodeWrites t (arrayItems (jsonObjectGet resVal "transactions"))) ↔
        GbtFits t.coinbasetxn (arrayItems (jsonObjectGet resVal "transactions")))) ∧
    ∀ resVal t, readSolo resVal = some t → ∀ pool hashSwap optBtcSig,
      (InBounds (some (soloDecodeWrites genHash diffFromTarget pool t hashSwap optBtcSig)) ↔
        SoloFits t optBtcSig) := by
  constructor
  · intro resVal t _
    exact gbtDecodeWrites_inside t _
  · intro resVal t _ pool hashSwap optBtcSig
    rw [inBounds_some]
    exact soloDecodeWrites_inside genHash diffFromTarget pool t hashSwap optBtcSig

/-- A solo template without transactions. -/
def soloTemplate (flags : Bytes) (rules : List Json) : Json :=
  .object
    [("previousblockhash", .string (List.replicate 64 0x30)),
      ("target", .string (List.replicate 64 0x30)),
      ("version", .integer 536870912),
      ("curtime", .integer 1700000000),
      ("bits", .string [0x31, 0x64, 0x30, 0x30, 0x66, 0x66, 0x66, 0x66]),
      ("height", .integer 800000),
      ("coinbasevalue", .integer 625000000),
      ("coinbaseaux", .object [("flags", .string flags)]),
      ("rules", .array rules)]

theorem readGbt_sizes (size : Nat) (small : size < 2 ^ 31) :
    ∃ t, readGbt (some (zeroTemplate size)) = some t ∧ halfLen t.coinbasetxn = size ∧
      scriptLen (unhex t.coinbasetxn) = 0 := by
  obtain ⟨t, read, text⟩ := readGbt_zeroTemplate size
  have half : t.coinbasetxn.length / 2 = size := by
    rw [text, List.length_replicate]
    omega
  refine ⟨t, read, ?_, ?_⟩
  · rw [halfLen_eq _ (by omega), half]
  · rw [text, unhex_zeros, scriptLen, List.getD_eq_getElem?_getD, List.getElem?_replicate]
    split <;> rfl

theorem readSolo_sizes (flags : Bytes) (rules : List Json) (short : flags.length / 2 < 2 ^ 31) :
    ∃ t, readSolo (some (soloTemplate flags rules)) = some t ∧ arrayItems t.transactionArr = [] ∧
      t.insertWitness = insertWitness (some (.array rules)) ∧ (serNumber t.height).2 = 4 ∧
      halfLen t.flags = (flags.length / 2 : Nat) :=
  ⟨_, rfl, rfl, rfl, rfl, halfLen_eq _ short⟩

/-- A coinbase of 60 bytes, and a solo template without flags and rules. -/
theorem template_bounds_short :
    (∃ t, readGbt (some (zeroTemplate 60)) = some t ∧ InBounds (gbtDecodeWrites t [])) ∧
      ∃ t, readSolo (some (soloTemplate [] [])) = some t ∧
        InBounds (some (soloDecodeWrites (fun _ => .zero 32) (fun _ => 0) (newPool 0 true) t
          (.zero 32) none)) := by
  obtain ⟨pooled, solo⟩ := template_bounds_iff (fun _ => .zero 32) fun _ => 0
  constructor
  · obtain ⟨t, read, half, script⟩ := readGbt_sizes 60 (by decide)
    refine ⟨t, read, (pooled _ t read).mpr ?_⟩
    unfold GbtFits
    rw [half, script]
    exact ⟨by decide, Or.inr ⟨by decide, fun _ => by decide⟩⟩
  · obtain ⟨t, read, txns, inserted, number, half⟩ := readSolo_sizes [] [] (by decide)
    refine ⟨t, read, (solo _ t read _ _ none).mpr ?_⟩
    unfold SoloFits ScriptRoom
    rw [txns, inserted, number, half]
    exact ⟨fun _ => by decide, by decide, by decide, fun _ never => by cases never⟩

/-- A coinbase of ten bytes, a rule other than segwit, and flags of 80 bytes. -/
theorem template_overflows :
    (∃ t, readGbt (some (zeroTemplate 10)) = some t ∧ ¬ InBounds (gbtDecodeWrites t [])) ∧
    (∃ t, readSolo (some (soloTemplate [] [.string [0x63, 0x73, 0x76]])) = some t ∧
      ¬ InBounds
        (some (soloDecodeWrites (fun _ => .zero 32) (fun _ => 0) (newPool 0 true) t
          (.zero 32) none))) ∧
    ∃ t, readSolo (some (soloTemplate (List.replicate 160 0x30) [])) = some t ∧
      ¬ InBounds
        (some (soloDecodeWrites (fun _ => .zero 32) (fun _ => 0) (newPool 0 true) t
          (.zero 32) none)) := by
  refine ⟨?_, ?_, ?_⟩
  · obtain ⟨t, read, half, script⟩ := readGbt_sizes 10 (by decide)
    refine ⟨t, read, fun inside => ?_⟩
    have fits := (gbtDecodeWrites_inside t []).mp inside
    rw [GbtFits, half, script] at fits
    omega
  · obtain ⟨t, read, txns, inserted, _⟩ :=
      readSolo_sizes [] [.string [0x63, 0x73, 0x76]] (by decide)
    refine ⟨t, read, fun inside => ?_⟩
    have fits := (soloDecodeWrites_inside _ _ _ t _ none).mp ((inBounds_some _).mp inside)
    rw [SoloFits, txns, inserted, if_pos (by decide +kernel)] at fits
    obtain ⟨_, member, _⟩ := fits.2
    cases member
  · obtain ⟨t, read, _, inserted, number, half⟩ := readSolo_sizes (List.replicate 160 0x30) []
      (by rw [List.length_replicate]; decide)
    refine ⟨t, read, fun inside => ?_⟩
    have fits := (soloDecodeWrites_inside _ _ _ t _ none).mp ((inBounds_some _).mp inside)
    rw [SoloFits, inserted, if_neg (by decide), ScriptRoom, number, half,
      List.length_replicate] at fits
    omega

end CgminerT4.Guarantees.TemplateBounds
