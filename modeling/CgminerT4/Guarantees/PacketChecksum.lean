import CgminerT4.Library.Crc
import CgminerT4.Source.CreateJob

/-!
# The checksum of a job packet

CRC16_2 takes a byte in two nibbles through a table of 16 entries. It is the
bit-serial reflected CRC-16 of polynomial 0xA001 that starts from 0xFFFF, on every
message its 16-bit length can count. The register has room for a byte and the
polynomial's highest coefficient is set, so a packet of create_job with one byte
changed no longer fits its checksum.
-/
namespace CgminerT4.Guarantees.PacketChecksum
open Library.ByteString Library.Crc Source.WorkItem Source.CreateJob

def polynomial : BitVec 16 := 0xA001#16

/-- The bit-serial check. -/
def bitwiseCrc (message : Bytes) : UInt16 := UInt16.ofBitVec (crc polynomial 0xFFFF#16 message)

/-! ## The table -/

theorem table_entries : ∀ i < 16,
    (wCRCTalbeAbs.getD i 0).toBitVec = feed polynomial 0#16 (lowBits 4 (BitVec.ofNat 16 i)) := by
  decide +kernel

theorem fifteen_bits : ∀ i < 4, (15#16).getLsbD i = true := by decide

/-- One nibble of the source is four bits of the register. -/
theorem crcNibble_toBitVec (wCRC : UInt16) (nibble : UInt8) :
    (crcNibble wCRC nibble).toBitVec =
      feed polynomial wCRC.toBitVec (lowBits 4 nibble.toBitVec) := by
  have index : ((nibble.toUInt16 ^^^ wCRC) &&& 15).toNat < 16 :=
    Nat.lt_of_le_of_lt Nat.and_le_right (by decide)
  have entry := table_entries _ index
  have word : lowBits 4 nibble.toBitVec = lowBits 4 nibble.toUInt16.toBitVec := by
    refine lowBits_congr 4 _ _ fun i inside => ?_
    rw [UInt8.toBitVec_toUInt16, BitVec.getLsbD_setWidth, decide_eq_true (by omega), Bool.true_and]
  have masked : lowBits 4 (BitVec.ofNat 16 ((nibble.toUInt16 ^^^ wCRC) &&& 15).toNat) =
      lowBits 4 (wCRC.toBitVec ^^^ nibble.toUInt16.toBitVec) := by
    rw [← UInt16.toNat_toBitVec, BitVec.ofNat_toNat, BitVec.setWidth_eq, UInt16.toBitVec_and,
      UInt16.toBitVec_xor, BitVec.xor_comm]
    refine lowBits_congr 4 _ _ fun i inside => ?_
    have mask : (15#16).getLsbD i = true := fifteen_bits i inside
    rw [BitVec.getLsbD_and]
    exact (congrArg _ mask).trans (Bool.and_true _)
  rw [word, feed_table, ← masked, ← entry]
  rfl

/-- The two nibbles of a byte. -/
theorem crcByte_toBitVec (wCRC : UInt16) (chChar : UInt8) :
    (crcNibble (crcNibble wCRC chChar) (chChar >>> 4)).toBitVec =
      feed polynomial wCRC.toBitVec (lowBits 8 chChar.toBitVec) := by
  have high : (chChar >>> 4).toBitVec = chChar.toBitVec >>> 4 := rfl
  rw [crcNibble_toBitVec, crcNibble_toBitVec, high, ← feed_append, ← lowBits_add]

theorem crcFold_toBitVec (pchMsg : Bytes) (wCRC : UInt16) :
    (pchMsg.foldl (fun wCRC chChar => crcNibble (crcNibble wCRC chChar) (chChar >>> 4))
      wCRC).toBitVec =
      crc polynomial wCRC.toBitVec pchMsg := by
  induction pchMsg generalizing wCRC with
  | nil => rfl
  | cons chChar pchMsg ih => rw [List.foldl_cons, ih, crcByte_toBitVec, crc_cons]

/-- The table form and the bit-serial form agree on every message. -/
theorem crc16_2_bitwise (pchMsg : Bytes) : crc16_2 pchMsg = bitwiseCrc pchMsg :=
  UInt16.toBitVec_inj.mp (crcFold_toBitVec pchMsg 0xFFFF)

example : crc16_2 (ascii "123456789") = 0x4B37 := by decide +kernel

/-! ## The packet -/

/-- The two bytes behind the packet, the high one first. -/
def checksumBytes (crc : UInt16) : Bytes := [(crc >>> 8).toUInt8, crc.toUInt8]

theorem checksumBytes_inj (a b : UInt16) (same : checksumBytes a = checksumBytes b) : a = b := by
  simp only [checksumBytes, List.cons.injEq, and_true] at same
  obtain ⟨high, low⟩ := same
  have highs := congrArg UInt8.toNat high
  have lows := congrArg UInt8.toNat low
  have boundA := a.toNat_lt
  have boundB := b.toNat_lt
  simp only [UInt16.toNat_toUInt8, UInt16.toNat_shiftRight, Nat.shiftRight_eq_div_pow] at highs lows
  rw [← UInt16.toNat_inj]
  simp at highs
  omega

/-- The last two bytes are the bit-serial check of the 86 bytes before, in the byte
order of `tmp_buf`. -/
def Checked (job : Bytes) : Prop :=
  job.drop 86 = checksumBytes (bitwiseCrc (swapPairs (job.take 86)))

instance (job : Bytes) : Decidable (Checked job) := by
  unfold Checked
  infer_instance

/-- No change of one byte of the message keeps the check. -/
theorem bitwiseCrc_byte (front back : Bytes) (a b : UInt8)
    (same : bitwiseCrc (front ++ a :: back) = bitwiseCrc (front ++ b :: back)) : a = b :=
  crc_byte_inj polynomial 0xFFFF#16 front back a b (by decide) (by decide)
    (congrArg UInt16.toBitVec same)

/-- A checked packet is not checked any more once one of its bytes has changed. -/
theorem not_checked_of_change (job : Bytes) (checked : Checked job) (i : Nat)
    (inside : i < job.length) (b : UInt8) (changed : b ≠ job[i]) : ¬ Checked (job.set i b) := by
  intro still
  unfold Checked at checked still
  by_cases message : i < 86
  · rw [List.drop_set, if_pos message, checked, List.take_set] at still
    have place : i < (job.take 86).length := by
      rw [List.length_take]
      omega
    obtain ⟨front, back, whole, other⟩ := swapPairs_split (job.take 86) i place
    rw [whole, other b, List.getElem_take] at still
    exact changed (bitwiseCrc_byte front back _ _ (checksumBytes_inj _ _ still)).symm
  · rw [List.drop_set, if_neg message, List.take_set_of_le (by omega), ← checked] at still
    have read := congrArg (fun l => l[i - 86]?) still
    have there : i - 86 < (job.drop 86).length := by
      rw [List.length_drop]
      omega
    rw [List.getElem?_set_self there, List.getElem?_drop, Nat.add_sub_cancel' (by omega),
      List.getElem?_eq_getElem inside] at read
    exact changed (Option.some.inj read)

/-- The message of the checksum and the two bytes create_job puts behind it. -/
theorem createJob_checksum (cmd : UInt8) (nicehash : Bool) (chipId jobId : UInt8) (work : Work) :
    let job := createJob cmd nicehash chipId jobId work
    job.drop 86 = checksumBytes (crc16_2 (swapPairs (job.take 86))) := by
  intro job
  obtain ⟨message, size, layout⟩ : ∃ message : Bytes, message.length = 86 ∧
      job = message ++ checksumBytes (crc16_2 (swapPairs message)) := by
    refine ⟨_, ?_, rfl⟩
    simp
  rw [layout, List.drop_left' size, List.take_left' size]

theorem createJob_checked (cmd : UInt8) (nicehash : Bool) (chipId jobId : UInt8) (work : Work) :
    Checked (createJob cmd nicehash chipId jobId work) := by
  have written := createJob_checksum cmd nicehash chipId jobId work
  dsimp only at written
  rwa [crc16_2_bitwise] at written

/-- The call create_job makes. -/
theorem crc16_2Call_tmpBuf (message : Bytes) (size : message.length = 86) :
    crc16_2Call (tmpBuf message) 86 = some (bitwiseCrc (swapPairs message)) := by
  have layout : tmpBuf message = swapPairs message ++ List.replicate 42 0 := by
    rw [tmpBuf, overwrite_replicate, length_swapPairs, size]
  have swapped : (swapPairs message).length = 86 := (length_swapPairs message).trans size
  have read := crc16_2Call_eq (swapPairs message) (List.replicate 42 0) (by omega)
  rwa [swapped, ← layout, crc16_2_bitwise] at read

/-- CRC16_2 is the bit-serial check of every message it can be given, and the packets
that carry it do not survive the change of a byte. -/
theorem checksum_detects_byte (pchMsg rest : Bytes) (short : pchMsg.length < 2 ^ 16) (cmd : UInt8)
    (nicehash : Bool) (chipId jobId : UInt8) (work : Work) :
    let job := createJob cmd nicehash chipId jobId work
    crc16_2Call (pchMsg ++ rest) (UInt16.ofNat pchMsg.length) = some (bitwiseCrc pchMsg) ∧
      job.length = 88 ∧
      crc16_2Call (tmpBuf (job.take 86)) 86 = some (bitwiseCrc (swapPairs (job.take 86))) ∧
      Checked job ∧
      ∀ i (inside : i < job.length) (b : UInt8), b ≠ job[i] → ¬ Checked (job.set i b) := by
  intro job
  have size : job.length = 88 := length_createJob cmd nicehash chipId jobId work
  have checked : Checked job := createJob_checked cmd nicehash chipId jobId work
  refine ⟨?_, size, ?_, checked, not_checked_of_change job checked⟩
  · rw [crc16_2Call_eq pchMsg rest short, crc16_2_bitwise]
  · apply crc16_2Call_tmpBuf
    rw [List.length_take, size]
    rfl

theorem checksum_detects_byte_makeWork :
    let job := createJob 0x07 false 3 1 makeWork
    [0x31, 0x32, 0x33].length < 2 ^ 16 ∧
      crc16_2Call ([0x31, 0x32, 0x33] ++ [0]) 3 = some (bitwiseCrc [0x31, 0x32, 0x33]) ∧
      job.length = 88 ∧
      crc16_2Call (tmpBuf (job.take 86)) 86 = some (bitwiseCrc (swapPairs (job.take 86))) ∧
      Checked job ∧
      ∀ i (inside : i < job.length) (b : UInt8), b ≠ job[i] → ¬ Checked (job.set i b) :=
  ⟨by decide, checksum_detects_byte [0x31, 0x32, 0x33] [0] (by decide) 0x07 false 3 1 makeWork⟩

end CgminerT4.Guarantees.PacketChecksum
