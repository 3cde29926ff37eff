import CgminerT4.Guarantees.SoloTemplate
import CgminerT4.Library.Runs
import CgminerT4.Library.Transaction

/-!
# The coinbase of solo mining

gbt_solo_decode and __setup_gbt_solo fill one buffer section by section; read
together the sections are the serialisation of a transaction. The length byte
that gbt_solo_decode stores counts the bytes of the script it wrote, itself
included, and one more byte is copied behind them: the script of the transaction
is as long as its length byte says.
-/
namespace CgminerT4.Guarantees.SoloCoinbase
open Library.ByteString Library.Runs Library.Transaction Source.Jansson Source.Hex Source.GbtMerkle
  Source.GbtTemplate SoloTemplate

/-- The sections of the coinbase in the order of their bytes; the locktime is
the zeroed end of what is in use. -/
structure Sections where
  head : Bytes
  script : Bytes
  sequence : Bytes
  count : Bytes
  value : Bytes
  size : Bytes
  pubkey : Bytes
  witness : Bytes

def Sections.list (s : Sections) : List Bytes :=
  [s.head, s.script, s.sequence, s.count, s.value, s.size, s.pubkey, s.witness, List.replicate 4 0]

def Sections.bytes (s : Sections) : Bytes := s.list.flatten

/-- A copy over section `i`. -/
theorem Sections.write (s next : Sections) (i ofs : Nat) (old new : Bytes)
    (there : s.list[i]? = some old) (starts : (s.list.take i).flatten.length = ofs)
    (same : new.length = old.length) (replaced : next.list = s.list.set i new) :
    overwrite s.bytes ofs new = next.bytes := by
  unfold Sections.bytes
  rw [overwrite_section s.list i ofs old new there starts same, replaced]

theorem Sections.write_head (s : Sections) (new : Bytes) (same : new.length = s.head.length) :
    overwrite s.bytes 0 new = { s with head := new }.bytes :=
  s.write _ 0 0 s.head new rfl rfl same rfl

theorem Sections.write_script (s : Sections) (ofs : Nat) (new : Bytes)
    (starts : s.head.length = ofs) (same : new.length = s.script.length) :
    overwrite s.bytes ofs new = { s with script := new }.bytes :=
  s.write _ 1 ofs s.script new rfl (by simpa [Sections.list] using starts) same rfl

theorem Sections.write_sequence (s : Sections) (ofs : Nat) (new : Bytes)
    (starts : s.head.length + s.script.length = ofs) (same : new.length = s.sequence.length) :
    overwrite s.bytes ofs new = { s with sequence := new }.bytes :=
  s.write _ 2 ofs s.sequence new rfl (by simpa [Sections.list] using starts) same rfl

theorem Sections.write_count (s : Sections) (ofs : Nat) (new : Bytes)
    (starts : s.head.length + s.script.length + s.sequence.length = ofs)
    (same : new.length = s.count.length) :
    overwrite s.bytes ofs new = { s with count := new }.bytes :=
  s.write _ 3 ofs s.count new rfl (by simpa [Sections.list, Nat.add_assoc] using starts) same rfl

theorem Sections.write_value (s : Sections) (ofs : Nat) (new : Bytes)
    (starts : s.head.length + s.script.length + s.sequence.length + s.count.length = ofs)
    (same : new.length = s.value.length) :
    overwrite s.bytes ofs new = { s with value := new }.bytes :=
  s.write _ 4 ofs s.value new rfl (by simpa [Sections.list, Nat.add_assoc] using starts) same rfl

theorem Sections.write_size (s : Sections) (ofs : Nat) (new : Bytes)
    (starts : s.head.length + s.script.length + s.sequence.length + s.count.length +
      s.value.length = ofs)
    (same : new.length = s.size.length) :
    overwrite s.bytes ofs new = { s with size := new }.bytes :=
  s.write _ 5 ofs s.size new rfl (by simpa [Sections.list, Nat.add_assoc] using starts) same rfl

theorem Sections.write_pubkey (s : Sections) (ofs : Nat) (new : Bytes)
    (starts : s.head.length + s.script.length + s.sequence.length + s.count.length +
      s.value.length +
      s.size.length = ofs)
    (same : new.length = s.pubkey.length) :
    overwrite s.bytes ofs new = { s with pubkey := new }.bytes :=
  s.write _ 6 ofs s.pubkey new rfl (by simpa [Sections.list, Nat.add_assoc] using starts) same rfl

theorem Sections.write_witness (s : Sections) (ofs : Nat) (new : Bytes)
    (starts : s.head.length + s.script.length + s.sequence.length + s.count.length +
      s.value.length +
      s.size.length + s.pubkey.length = ofs)
    (same : new.length = s.witness.length) :
    overwrite s.bytes ofs new = { s with witness := new }.bytes :=
  s.write _ 7 ofs s.witness new rfl (by simpa [Sections.list, Nat.add_assoc] using starts) same rfl

def zeroSections (ofs witness : Nat) : Sections where
  head := List.replicate 41 0
  script := List.replicate ofs 0
  sequence := List.replicate 4 0
  count := List.replicate 1 0
  value := List.replicate 8 0
  size := List.replicate 1 0
  pubkey := List.replicate 25 0
  witness := List.replicate witness 0

theorem zeroSections_bytes (ofs witness : Nat) :
    (zeroSections ofs witness).bytes =
      List.replicate (41 + ofs + 4 + 1 + 8 + 1 + 25 + witness + 4) 0 := by
  simp only [Sections.bytes, Sections.list, zeroSections, List.flatten_cons, List.flatten_nil,
    List.append_nil, List.replicate_append_replicate]
  congr 1
  omega

/-- The sections as gbt_solo_decode leaves them. -/
def decodedSections (t : SoloFields) (witnessdata script : Bytes) : Sections where
  head := List.replicate 41 0
  script
  sequence := [0xff, 0xff, 0xff, 0xff]
  count := [if t.insertWitness then 2 else 1]
  value := littleEndian 8 t.coinbasevalue.toNat
  size := [0]
  pubkey := List.replicate 25 0
  witness := witnessOutput t.insertWitness witnessdata

theorem coinbaseWrites_bytes (t : SoloFields) (witnessdata script : Bytes)
    (size : witnessdata.length = 36)
    (coinbase : Buffer (coinbaseSize t.insertWitness script.length * alignLen 1))
    (filled : (Buffer.zero _).storeAll (coinbaseWrites t witnessdata script) = some coinbase) :
    coinbase.bytes.take (coinbaseSize t.insertWitness script.length) =
      (decodedSections t witnessdata script).bytes := by
  have sizes := coinbaseSize_eq t.insertWitness witnessdata script.length size
  have zeros : (Buffer.zero (coinbaseSize t.insertWitness script.length * alignLen 1)).bytes.take
      (coinbaseSize t.insertWitness script.length) =
      (zeroSections script.length (witnessOutput t.insertWitness witnessdata).length).bytes := by
    rw [zeroSections_bytes, sizes, Buffer.zero, List.take_replicate, alignLen_one,
      Nat.min_eq_left (by omega)]
  rw [Buffer.storeAll_bytes _ _ _ filled,
    take_foldl_overwrite _ _ _ (coinbaseWrites_fit t witnessdata script size)
    (by rw [Buffer.length_eq, alignLen_one]; omega), zeros]
  simp only [coinbaseWrites, List.foldl_cons, List.foldl_nil]
  rw [Sections.write_script _ 41 script, Sections.write_sequence, Sections.write_count,
    Sections.write_value, Sections.write_witness]
  · rfl
  all_goals simp only [zeroSections, List.length_replicate, List.length_cons, List.length_nil,
    length_littleEndian]

theorem Sections.length_bytes (s : Sections) :
    s.bytes.length =
      s.head.length + s.script.length + s.sequence.length + s.count.length + s.value.length +
      s.size.length + s.pubkey.length + s.witness.length + 4 := by
  simp [Sections.bytes, Sections.list, Nat.add_assoc]

/-- The sections once __setup_gbt_solo has filled in the header and the script
of the miner's address. -/
def finalSections (t : SoloFields) (witnessdata script pubkey : Bytes) : Sections :=
  { decodedSections t witnessdata script with head := scriptsigHeaderBin, size := [25], pubkey }

theorem length_scriptsigHeaderBin : scriptsigHeaderBin.length = 41 := by decide +kernel

theorem blit_eq (buf src : Bytes) (ofs : Nat) (fits : ofs + src.length ≤ buf.length) :
    blit buf ofs src = some (overwrite buf ofs src) := if_pos fits

theorem setupGbtSolo_bytes (pool : TemplatePool) (t : SoloFields) (witnessdata script : Bytes)
    (coinbase : pool.coinbase = (decodedSections t witnessdata script).bytes)
    (n1Len : pool.n1Len = script.length) :
    setupGbtSolo pool = some { pool with
      coinbase := (finalSections t witnessdata script
        (pool.scriptPubkey.bytes.take 25)).bytes } := by
  have pubkey : (pool.scriptPubkey.bytes.take 25).length = 25 := by
    rw [List.length_take, pool.scriptPubkey.length_eq]
    rfl
  have headed := (decodedSections t witnessdata script).write_head scriptsigHeaderBin
    (by rw [length_scriptsigHeaderBin]; exact List.length_replicate.symm)
  have sized :=
    Sections.write_size { decodedSections t witnessdata script with head := scriptsigHeaderBin }
    (41 + script.length + 4 + 1 + 8) [25]
    (by simp only [decodedSections, length_scriptsigHeaderBin, length_littleEndian,
      List.length_cons, List.length_nil]) rfl
  have filled := Sections.write_pubkey
    { decodedSections t witnessdata script with head := scriptsigHeaderBin, size := [25] }
    (41 + script.length + 4 + 1 + 8 + 1) (pool.scriptPubkey.bytes.take 25)
    (by simp only [decodedSections, length_scriptsigHeaderBin, length_littleEndian,
      List.length_cons, List.length_nil]) (by rw [pubkey]; exact List.length_replicate.symm)
  unfold setupGbtSolo
  rw [coinbase, n1Len, blit_eq _ scriptsigHeaderBin 0, Option.bind_some, headed, blit_eq _ [25],
    Option.bind_some, sized, blit_eq, filled, Option.map_some]
  · rfl
  all_goals
    simp only [Sections.length_bytes, decodedSections, length_scriptsigHeaderBin,
      length_littleEndian, pubkey, List.length_cons, List.length_nil, List.length_replicate]
    omega

/-- The transaction that the coinbase is meant to be, with the script of its input. -/
def coinbaseTx (t : SoloFields) (witnessdata script pubkey : Bytes) : Tx where
  version := 1
  inputs := [{ prevHash := .zero 32, prevIndex := 0xffffffff, script, sequence := 0xffffffff }]
  outputs :=
    { value := t.coinbasevalue, script := pubkey } ::
      if t.insertWitness then [{ value := 0, script := 0x6a :: 36 :: witnessdata }] else []
  locktime := 0

/-- A string short enough for a one byte size. -/
theorem varBytes_short (bytes : Bytes) (short : bytes.length < 0xfd) :
    varBytes bytes = UInt8.ofNat bytes.length :: bytes := by
  unfold varBytes compactSize
  rw [if_pos short]
  rfl

theorem finalSections_serialize (t : SoloFields) (witnessdata script pubkey : Bytes)
    (size : witnessdata.length = 36) (short : script.length < 0xfd) (key : pubkey.length = 25) :
    (finalSections t witnessdata (UInt8.ofNat script.length :: script) pubkey).bytes =
      (coinbaseTx t witnessdata script pubkey).serialize := by
  have head : scriptsigHeaderBin =
      littleEndian 4 1 ++ ([1] ++ (List.replicate 32 0 ++ littleEndian 4 0xffffffff)) := by
    decide +kernel
  have pushed := varBytes_short script short
  have paid := varBytes_short pubkey (by omega)
  have committed := varBytes_short (0x6a :: 36 :: witnessdata) (by simp [size])
  have one : compactSize 1 = [1] := by decide
  have two : compactSize 2 = [2] := by decide
  have final : littleEndian 4 4294967295 = [0xff, 0xff, 0xff, 0xff] := by decide
  have zeros : littleEndian 4 0 = [0, 0, 0, 0] ∧
    littleEndian 8 0 = [0, 0, 0, 0, 0, 0, 0, 0] := by decide
  simp only [Sections.bytes, Sections.list, finalSections, decodedSections, head, Tx.serialize,
    coinbaseTx, witnessOutput]
  cases t.insertWitness with
  | false =>
    simp [pushed, paid, one, key, final, zeros, TxIn.serialize, TxOut.serialize, Buffer.zero]
  | true =>
    simp [pushed, paid, committed, one, two, key, size, final, zeros, witnessdataSize,
      TxIn.serialize, TxOut.serialize, Buffer.zero]

/-! ## The script -/

theorem timestamp_last (now : Time) : (timestamp now)[20]? = some 8 := by
  have name : ascii "cgminer42" = [0x63, 0x67, 0x6d, 0x69, 0x6e, 0x65, 0x72, 0x34, 0x32] := by
    decide +kernel
  have front : (0xfe :: littleEndian 4 now.sec ++ 0xfe :: littleEndian 4 now.usec ++
      (9 :: ascii "cgminer42")).length = 20 := by
    simp [name]
  rw [timestamp, List.getElem?_append_right (by rw [front]), front]
  rfl

/-- The first byte of `scriptsig_base` is the template length, and the byte
before the extranonce its size. -/
theorem scriptWrites_marks (base out : Buffer 100) (t : SoloFields) (now : Time)
    (optBtcSig : Option Bytes) (written : base.storeAll (scriptWrites t now optBtcSig) = some out) :
    out.bytes[0]? = some (UInt8.ofNat (scriptLength t optBtcSig)) ∧
      out.bytes[extranonceOfs t - 1]? = some 8 := by
  have fits := (scriptWrites_fit t now optBtcSig).mp
    ((base.storeAll_isSome (scriptWrites t now optBtcSig)).mp (by rw [written]; rfl))
  have inside := fits.1
  unfold scriptWrites at written
  rw [Buffer.storeAll_append, Buffer.storeAll_append] at written
  obtain ⟨signed, before, last⟩ := Option.bind_eq_some_iff.mp written
  obtain ⟨stamped, first, sig⟩ := Option.bind_eq_some_iff.mp before
  -- the timestamp is the last of the first five writes
  obtain ⟨b1, _, _, first⟩ := Buffer.storeAll_cons _ _ _ _ _ first
  obtain ⟨b2, _, _, first⟩ := Buffer.storeAll_cons _ _ _ _ _ first
  obtain ⟨b3, _, _, first⟩ := Buffer.storeAll_cons _ _ _ _ _ first
  obtain ⟨b4, _, _, first⟩ := Buffer.storeAll_cons _ _ _ _ _ first
  obtain ⟨b5, bytes5, room5, first⟩ := Buffer.storeAll_cons _ _ _ _ _ first
  cases first
  obtain ⟨b7, bytes7, room7, last⟩ := Buffer.storeAll_cons _ _ _ _ _ last
  cases last
  have start : extranonceOfs t = timestampOfs t + 21 := rfl
  have stamp : stamped.bytes[extranonceOfs t - 1]? = some 8 := by
    rw [bytes5, getElem?_overwrite _ _ _ _ (by rw [Buffer.length_eq]; exact room5),
      length_timestamp, if_neg (by omega), if_pos (by omega), ← timestamp_last now]
    congr 1
    omega
  have kept : signed.bytes[extranonceOfs t - 1]? = some 8 := by
    cases optBtcSig with
    | none =>
      cases sig
      exact stamp
    | some text =>
      obtain ⟨b6, bytes6, room6, sig⟩ := Buffer.storeAll_cons _ _ _ _ _ sig
      cases sig
      rw [bytes6, getElem?_overwrite _ _ _ _ (by rw [Buffer.length_eq]; exact room6),
        if_pos (by unfold sigOfs; omega), stamp]
  have closing : 0 + [UInt8.ofNat (scriptLength t optBtcSig)].length ≤ signed.bytes.length := by
    rw [Buffer.length_eq]
    exact room7
  rw [bytes7, getElem?_overwrite _ _ _ _ closing, getElem?_overwrite _ _ _ _ closing,
    List.length_singleton]
  refine ⟨rfl, ?_⟩
  rw [if_neg (by omega), if_neg (by omega), kept]

/-- A list cut around one of its elements and the eight behind it. -/
theorem cut_around (l : List UInt8) (p : Nat) (b : UInt8) (there : l[p]? = some b)
    (room : p + 9 ≤ l.length) :
    ∃ front extranonce back, l = front ++ b :: extranonce ++ back ∧ front.length = p ∧
      extranonce.length = 8 := by
  obtain ⟨inside, rfl⟩ := List.getElem?_eq_some_iff.mp there
  refine ⟨l.take p, (l.drop (p + 1)).take 8, (l.drop (p + 1)).drop 8, ?_, ?_, ?_⟩
  · rw [List.append_assoc, List.cons_append, List.take_append_drop, List.getElem_cons_drop,
      List.take_append_drop]
  · rw [List.length_take]
    omega
  · rw [List.length_take, List.length_drop]
    omega

theorem scriptLength_ge (t : SoloFields) (optBtcSig : Option Bytes) :
    extranonceOfs t + 8 ≤ scriptLength t optBtcSig := by
  cases optBtcSig with
  | none => exact Nat.le_refl _
  | some sig => exact Nat.le_add_right _ _

/-- The bytes copied from `scriptsig_base`: a length byte and a script of that
length, with the extranonce in a push of eight bytes. -/
theorem script_layout (base out : Buffer 100) (behind : Buffer 28) (t : SoloFields) (now : Time)
    (optBtcSig : Option Bytes) (written : base.storeAll (scriptWrites t now optBtcSig) = some out) :
    ∃ front extranonce back,
      (out.bytes ++ behind.bytes).take (scriptLength t optBtcSig + 1) =
        UInt8.ofNat (scriptLength t optBtcSig) :: (front ++ 8 :: extranonce ++ back) ∧
      (front ++ 8 :: extranonce ++ back).length = scriptLength t optBtcSig ∧
      front.length + 2 = extranonceOfs t ∧ extranonce.length = 8 := by
  obtain ⟨size, push⟩ := scriptWrites_marks base out t now optBtcSig written
  have fits := (scriptWrites_fit t now optBtcSig).mp
    ((base.storeAll_isSome (scriptWrites t now optBtcSig)).mp (by rw [written]; rfl))
  have readable := scriptFits_readable t optBtcSig fits
  have inside := fits.1
  have long := scriptLength_ge t optBtcSig
  have positive : 22 ≤ extranonceOfs t := by
    unfold extranonceOfs timestampOfs flagsOfs
    omega
  have total : (out.bytes ++ behind.bytes).length = 128 := by
    rw [List.length_append, out.length_eq, behind.length_eq]
  have copied : ((out.bytes ++ behind.bytes).take (scriptLength t optBtcSig + 1)).length =
      scriptLength t optBtcSig + 1 := by
    rw [List.length_take, total, Nat.min_eq_left readable]
  have reads (i : Nat) (low : i < 100) (within : i < scriptLength t optBtcSig + 1) :
      ((out.bytes ++ behind.bytes).take (scriptLength t optBtcSig + 1))[i]? = out.bytes[i]? := by
    rw [List.getElem?_take_of_lt within,
      List.getElem?_append_left (by rw [out.length_eq]; exact low)]
  cases shape : (out.bytes ++ behind.bytes).take (scriptLength t optBtcSig + 1) with
  | nil =>
    rw [shape] at copied
    cases copied
  | cons head body =>
    rw [shape] at copied reads
    have first : head = UInt8.ofNat (scriptLength t optBtcSig) := by
      have at0 := reads 0 (by decide) (by omega)
      rw [size] at at0
      exact Option.some.inj at0
    have at8 : body[extranonceOfs t - 2]? = some 8 := by
      have there := reads (extranonceOfs t - 1) (by omega) (by omega)
      rw [push] at there
      have index : extranonceOfs t - 1 = (extranonceOfs t - 2) + 1 := by omega
      rwa [index, List.getElem?_cons_succ] at there
    rw [List.length_cons] at copied
    obtain ⟨front, extranonce, back, cut, starts, pushed⟩ :=
      cut_around body (extranonceOfs t - 2) 8 at8 (by omega)
    refine ⟨front, extranonce, back, ?_, ?_, by omega, pushed⟩
    · rw [first, cut]
    · rw [← cut]
      omega

/-! ## The transaction -/

/-- The coinbase of a pool is the serialised transaction, and the nonce2 goes
into the extranonce of its script. -/
structure Layout (t : SoloFields) (witnessdata pubkey front extranonce back : Bytes)
    (pool : Source.GbtMerkle.Pool) : Prop where
  pushed : extranonce.length = 8
  short : (front ++ 8 :: extranonce ++ back).length < 0xfd
  coinbase : pool.coinbase = (finalSections t witnessdata
    (UInt8.ofNat (front ++ 8 :: extranonce ++ back).length :: (front ++ 8 :: extranonce ++ back))
      pubkey).bytes
  nonce2Offset : pool.nonce2Offset = 41 + (1 + (front.length + 1))
  n2size : pool.n2size = 4

/-- The coinbase of a pool parses, with nothing left over, as the transaction
with a script of `size` bytes, and the n2size bytes at nonce2_offset, the place
of byte `front.length + 1` of the script, belong to a push of eight bytes. -/
def WellFormed (t : SoloFields) (witnessdata pubkey : Bytes) (size : Nat)
    (pool : Source.GbtMerkle.Pool) : Prop :=
  ∃ front extranonce back,
    readTx pool.coinbase =
      some (coinbaseTx t witnessdata (front ++ 8 :: extranonce ++ back) pubkey, []) ∧
    (front ++ 8 :: extranonce ++ back).length = size ∧ size < 0xfd ∧
    extranonce.length = 8 ∧ pool.n2size ≤ 8 ∧ pool.nonce2Offset = 41 + 1 + front.length + 1

theorem coinbaseTx_countable (t : SoloFields) (witnessdata script pubkey : Bytes)
    (size : witnessdata.length = 36) (short : script.length < 0xfd) (key : pubkey.length = 25) :
    (coinbaseTx t witnessdata script pubkey).Countable := by
  unfold Tx.Countable coinbaseTx
  cases t.insertWitness with
  | false => simp [key]; omega
  | true => simp [key, size]; omega

theorem Layout.wellFormed {t : SoloFields} {witnessdata pubkey front extranonce back : Bytes}
    {pool : Source.GbtMerkle.Pool} (layout : Layout t witnessdata pubkey front extranonce back pool)
    (size : witnessdata.length = 36) (key : pubkey.length = 25) :
    WellFormed t witnessdata pubkey (front ++ 8 :: extranonce ++ back).length pool := by
  refine ⟨front, extranonce, back, ?_, rfl, layout.short, layout.pushed, ?_, ?_⟩
  · rw [layout.coinbase, finalSections_serialize t witnessdata _ pubkey size layout.short key]
    exact (reads_tx _ (coinbaseTx_countable t witnessdata _ pubkey size layout.short key)).whole
  · rw [layout.n2size]
    decide
  · rw [layout.nonce2Offset]
    omega

/-- A copy into the section of the script. -/
theorem Sections.write_inside (s : Sections) (j : Nat) (new : Bytes)
    (fits : j + new.length ≤ s.script.length) :
    overwrite s.bytes (s.head.length + j) new =
      { s with script := overwrite s.script j new }.bytes := by
  have cut := overwrite_inside s.head s.script
    (s.sequence ++ (s.count ++
      (s.value ++ (s.size ++ (s.pubkey ++ (s.witness ++ List.replicate 4 0)))))) new j fits
  simpa [Sections.bytes, Sections.list, List.append_assoc] using cut

/-- The nonce2 replaces the front of the extranonce and nothing else of the script. -/
theorem overwrite_extranonce (b : UInt8) (front extranonce back nonce : Bytes)
    (fits : nonce.length ≤ extranonce.length) :
    overwrite (b :: (front ++ 8 :: extranonce ++ back)) (1 + (front.length + 1)) nonce =
      b :: (front ++ 8 :: (nonce ++ extranonce.drop nonce.length) ++ back) := by
  have inside := overwrite_inside (b :: (front ++ [8])) extranonce back nonce 0 (by omega)
  have start : (b :: (front ++ [8])).length + 0 = 1 + (front.length + 1) := by
    simp
    omega
  have replaced : overwrite extranonce 0 nonce = nonce ++ extranonce.drop nonce.length := by
    simp [overwrite]
  rw [start, replaced] at inside
  simpa using inside

variable (genHash : Bytes → Digest) (diffFromTarget : Buffer 32 → Double)

/-- gen_solo_work, from any value of the counter. -/
def generate (pool : Source.GbtMerkle.Pool) (e : UInt64 × Source.WorkItem.Work) :
    Option Source.GbtMerkle.Pool :=
  (genSoloWork genHash { pool with nonce2 := e.1 } e.2).map (·.1)

/-- Generating a work is defined and keeps the layout. -/
theorem generate_layout (t : SoloFields) (witnessdata pubkey front extranonce back : Bytes)
    (pool : Source.GbtMerkle.Pool) (layout : Layout t witnessdata pubkey front extranonce back pool)
    (e : UInt64 × Source.WorkItem.Work) :
    ∃ next nonce, generate genHash pool e = some next ∧ nonce.length = 4 ∧
      Layout t witnessdata pubkey front (nonce ++ extranonce.drop 4) back next := by
  have nonce : ((littleEndian 8 e.1.toNat).take pool.n2size).length = 4 := by
    rw [layout.n2size, List.length_take, length_littleEndian]
    rfl
  have pushed := layout.pushed
  have head : (finalSections t witnessdata
      (UInt8.ofNat (front ++ 8 :: extranonce ++ back).length :: (front ++ 8 :: extranonce ++ back))
        pubkey).head.length =
      41 := length_scriptsigHeaderBin
  have written := Sections.write_inside (finalSections t witnessdata
    (UInt8.ofNat (front ++ 8 :: extranonce ++ back).length ::
      (front ++ 8 :: extranonce ++ back)) pubkey)
    (1 + (front.length + 1)) ((littleEndian 8 e.1.toNat).take pool.n2size)
    (by simp only [finalSections, decodedSections, List.length_cons, List.length_append,
      nonce]; omega)
  have fits : pool.nonce2Offset + ((littleEndian 8 e.1.toNat).take pool.n2size).length ≤
      pool.coinbase.length := by
    rw [layout.coinbase, layout.nonce2Offset, nonce, Sections.length_bytes, head]
    simp only [finalSections, decodedSections, List.length_cons, List.length_append]
    omega
  obtain ⟨header, first, _⟩ := e.2.data.store_of_fits 0 (pool.headerBin.bytes.take 112)
    (by rw [List.length_take, Buffer.length_eq]; decide)
  have copied :=
    blit_eq pool.coinbase ((littleEndian 8 e.1.toNat).take pool.n2size) pool.nonce2Offset fits
  obtain ⟨data, second, _⟩ := header.store_of_fits 36 (flipWords (foldMerklebin genHash { pool with
      coinbase :=
        overwrite pool.coinbase pool.nonce2Offset ((littleEndian 8 e.1.toNat).take pool.n2size)
      nonce2 := e.1 + 1 } (genHash (overwrite pool.coinbase pool.nonce2Offset
        ((littleEndian 8 e.1.toNat).take pool.n2size)))).bytes)
    (by rw [length_flipWords, Buffer.length_eq]; decide)
  refine ⟨{ pool with
      coinbase :=
        overwrite pool.coinbase pool.nonce2Offset ((littleEndian 8 e.1.toNat).take pool.n2size)
      nonce2 := e.1 + 1 }, (littleEndian 8 e.1.toNat).take pool.n2size, ?_, nonce, ?_, ?_, ?_,
    layout.nonce2Offset, layout.n2size⟩
  · unfold generate genSoloWork
    dsimp only
    rw [if_pos (by rw [layout.n2size]; decide), copied, Option.bind_some, first,
      Option.bind_some, second]
    rfl
  · rw [List.length_append, nonce, List.length_drop, pushed]
  · have short := layout.short
    simp only [List.length_append, List.length_cons, List.length_drop, nonce] at short ⊢
    omega
  · have size :
        (front ++ 8 :: ((littleEndian 8 e.1.toNat).take pool.n2size ++ extranonce.drop 4) ++
        back).length =
        (front ++ 8 :: extranonce ++ back).length := by
      simp only [List.length_append, List.length_cons, List.length_drop, nonce]
      omega
    have script :=
      overwrite_extranonce (UInt8.ofNat (front ++ 8 :: extranonce ++ back).length)
        front extranonce back
      ((littleEndian 8 e.1.toNat).take pool.n2size) (by omega)
    rw [nonce] at script
    rw [size, ← script, layout.coinbase, layout.nonce2Offset, ← head, written]
    rfl

theorem generate_always (t : SoloFields) (witnessdata pubkey front back : Bytes)
    (size : witnessdata.length = 36) (key : pubkey.length = 25) (n : Nat)
    (pool : Source.GbtMerkle.Pool)
      (layout : ∃ extranonce, (front ++ 8 :: extranonce ++ back).length = n ∧
      Layout t witnessdata pubkey front extranonce back pool)
        (es : List (UInt64 × Source.WorkItem.Work)) :
    Always (generate genHash) (fun p => WellFormed t witnessdata pubkey n p ∧
      ∀ e, (generate genHash p e).isSome = true) pool es := by
  have holds : Always (generate genHash) (fun p => ∃ extranonce,
      (front ++ 8 :: extranonce ++ back).length = n ∧
      Layout t witnessdata pubkey front extranonce back p) pool es := by
    apply always_of_invariant
    · rintro p e next ⟨extranonce, length, current⟩ taken
      obtain ⟨made, nonce, done, four, kept⟩ :=
        generate_layout genHash t witnessdata pubkey front extranonce back p current e
      rw [taken] at done
      cases done
      refine ⟨nonce ++ extranonce.drop 4, ?_, kept⟩
      have pushed := current.pushed
      simp only [List.length_append, List.length_cons, List.length_drop, four] at length ⊢
      omega
    · exact layout
  apply always_mono _ holds
  rintro p ⟨extranonce, length, current⟩
  constructor
  · rw [← length]
    exact current.wellFormed size key
  · intro e
    obtain ⟨next, _, done, _, _⟩ :=
      generate_layout genHash t witnessdata pubkey front extranonce back p current e
    rw [done]
    rfl

theorem length_pubkey (pool : TemplatePool) : (pool.scriptPubkey.bytes.take 25).length = 25 := by
  rw [List.length_take, pool.scriptPubkey.length_eq]
  rfl

/-- The coinbase of an accepted template, once __setup_gbt_solo has filled it in. -/
theorem accepted_layout (pool built : TemplatePool) (resVal : Option Json) (hashSwap : Buffer 32)
    (now : Time) (optBtcSig : Option Bytes) (locked : Bool)
    (accepted : gbtSoloDecode genHash diffFromTarget pool resVal hashSwap now optBtcSig =
      .returned built locked true) :
    ∃ t witnessdata ready front extranonce back, readSolo resVal = some t ∧
      checkWitness genHash t = .data witnessdata ∧ setupGbtSolo built = some ready ∧
      ready.coinbaseAlloc = 4 * ready.coinbase.length ∧
      (front ++ 8 :: extranonce ++ back).length = scriptLength t optBtcSig ∧
      Layout t witnessdata (built.scriptPubkey.bytes.take 25) front extranonce back
        ready.toPool := by
  obtain ⟨t, stored, witnessdata, next, stages⟩ :=
    gbtSoloDecode_accepted genHash diffFromTarget pool built resVal
    hashSwap now optBtcSig locked accepted
  have size := checkWitness_length genHash t witnessdata stages.witness
  obtain ⟨scriptsigBase, coinbase, written, readable, filled, same⟩ :=
    storeCoinbase_spec stored next t witnessdata now optBtcSig stages.coinbase
  obtain ⟨front, extranonce, back, script, length, starts, pushed⟩ :=
    script_layout stored.scriptsigBase
    scriptsigBase stored.scriptPubkey t now optBtcSig written
  have sizes := coinbaseSize_eq t.insertWitness witnessdata (scriptLength t optBtcSig + 1) size
  have key := length_pubkey built
  have copied :
      ((scriptsigBase.bytes ++ stored.scriptPubkey.bytes).take
      (scriptLength t optBtcSig + 1)).length =
      scriptLength t optBtcSig + 1 := by
    rw [script, List.length_cons, length]
  have layout : coinbase.bytes.take (coinbaseSize t.insertWitness (scriptLength t optBtcSig + 1)) =
      (decodedSections t witnessdata (UInt8.ofNat (scriptLength t optBtcSig) ::
        (front ++ 8 :: extranonce ++ back))).bytes := by
    rw [← script]
    have bytes := coinbaseWrites_bytes t witnessdata
      ((scriptsigBase.bytes ++ stored.scriptPubkey.bytes).take (scriptLength t optBtcSig + 1)) size
    rw [copied] at bytes
    exact bytes coinbase filled
  have whole : built.coinbase =
      coinbase.bytes.take (coinbaseSize t.insertWitness (scriptLength t optBtcSig + 1)) := by
    rw [stages.result, same]
    dsimp only
    rw [← sizes]
  have n1Len : built.n1Len = (UInt8.ofNat (scriptLength t optBtcSig) ::
      (front ++ 8 :: extranonce ++ back)).length := by
    rw [List.length_cons, length, stages.result, same]
  have alloc : built.coinbaseAlloc =
      4 * coinbaseSize t.insertWitness (scriptLength t optBtcSig + 1) := by
    rw [stages.result, same]
    exact Nat.mul_comm _ _
  have ready := setupGbtSolo_bytes built t witnessdata _ (whole.trans layout) n1Len
  refine ⟨t, witnessdata, _, front, extranonce, back, stages.read, stages.witness, ready, ?_,
    length, pushed, ?_, ?_, ?_, ?_⟩
  · dsimp only
    rw [alloc, sizes, Sections.length_bytes]
    simp only [finalSections, decodedSections, length_scriptsigHeaderBin, length_littleEndian, key,
      List.length_cons, List.length_nil, length]
  · rw [length]
    omega
  · rw [length]
  · rw [stages.result, same]
    dsimp only
    omega
  · rw [stages.result, same]

theorem solo_coinbase_well_formed (pool built : TemplatePool) (resVal : Option Json)
    (hashSwap : Buffer 32) (now : Time) (optBtcSig : Option Bytes) (locked : Bool)
    (accepted : gbtSoloDecode genHash diffFromTarget pool resVal hashSwap now optBtcSig =
      .returned built locked true) :
    ∃ t witnessdata ready, readSolo resVal = some t ∧ checkWitness genHash t = .data witnessdata ∧
      setupGbtSolo built = some ready ∧ ready.coinbaseAlloc = 4 * ready.coinbase.length ∧
      ∀ es, Always (generate genHash) (fun p =>
        WellFormed t witnessdata (built.scriptPubkey.bytes.take 25) (scriptLength t optBtcSig) p ∧
          ∀ e, (generate genHash p e).isSome = true) ready.toPool es := by
  obtain ⟨t, witnessdata, ready, front, extranonce, back, read, witness, setup, alloc, length,
      layout⟩ :=
    accepted_layout genHash diffFromTarget pool built resVal hashSwap now optBtcSig locked accepted
  have size := checkWitness_length genHash t witnessdata witness
  refine ⟨t, witnessdata, ready, read, witness, setup, alloc, fun es => ?_⟩
  exact generate_always genHash t witnessdata _ front back size (length_pubkey built) _ _
    ⟨extranonce, length, layout⟩ es

/-- The memory of a coinbase is longer than the coinbase. -/
theorem solo_coinbase_rounded :
    ∃ built ready, gbtSoloDecode (fun _ => .zero 32) (fun _ => 0) (newPool 0 true)
      (some emptyTemplate) (.zero 32)
        ⟨0, 0⟩ (some (ascii "sig")) = .returned built false true ∧
      setupGbtSolo built = some ready ∧ ready.coinbaseAlloc ≠ ready.coinbase.length := by
  obtain ⟨built, accepted⟩ :=
    emptyTemplate_accepted (fun _ => .zero 32) (fun _ => 0) (newPool 0 true) (.zero 32)
    ⟨0, 0⟩
  obtain ⟨t, witnessdata, ready, front, extranonce, back, _, _, setup, alloc, _, layout⟩ :=
    accepted_layout (fun _ => .zero 32) (fun _ => 0) (newPool 0 true) built _ (.zero 32) ⟨0,
      0⟩ _ false accepted
  refine ⟨built, ready, accepted, setup, ?_⟩
  have long : 4 ≤ ready.coinbase.length := by
    rw [layout.coinbase, Sections.length_bytes]
    omega
  omega

/-- A template for which a commitment is inserted, and a signature. -/
theorem solo_coinbase_well_formed_empty :
    ∃ built t witnessdata ready, readSolo (some emptyTemplate) = some t ∧
      checkWitness (fun _ => .zero 32) t = .data witnessdata ∧ setupGbtSolo built = some ready ∧
      ready.coinbaseAlloc = 4 * ready.coinbase.length ∧
      ∀ es, Always (generate fun _ => .zero 32) (fun p =>
        WellFormed t witnessdata (built.scriptPubkey.bytes.take 25)
          (scriptLength t (some (ascii "sig"))) p ∧
          ∀ e, (generate (fun _ => .zero 32) p e).isSome = true) ready.toPool es := by
  obtain ⟨built, accepted⟩ :=
    emptyTemplate_accepted (fun _ => .zero 32) (fun _ => 0) (newPool 0 true) (.zero 32)
    ⟨0, 0⟩
  exact ⟨built, solo_coinbase_well_formed (fun _ => .zero 32) (fun _ => 0) (newPool 0 true) built _
    (.zero 32)
    ⟨0, 0⟩ (some (ascii "sig")) false accepted⟩

end CgminerT4.Guarantees.SoloCoinbase
