import CgminerT4.Source.WorkItem
import Mathlib.Data.List.Induction
import Mathlib.Tactic.IntervalCases

/-!
# Job packets for the chips (t4_common.c, t4_cmd.c)

create_job lays out 88 bytes: command and chip, end nonce, target, the first 76
bytes of the blob with the bytes of each word reversed and the start nonce
patched in at its reversed place, and a checksum. Only the low byte of the
command code, which a platform header defines, reaches the packet; it is a
parameter.
-/
namespace CgminerT4.Source.CreateJob
open Library.ByteString WorkItem

def asicChainNum : Nat := 8
def asicChipNum : Nat := 80

def nonceStep : UInt32 := 0x00100000
def nonceStepNicehash : UInt32 := 0x006667
def endNonceA8Gap : UInt32 := 24

/-- difficulty.target_val, the target of DIFF_DEF. -/
def defaultTarget : Bytes := [0x00, 0x01, 0x4F, 0x8B]

def wCRCTalbeAbs : List UInt16 :=
  [0x0000, 0xCC01, 0xD801, 0x1400, 0xF001, 0x3C00, 0x2800, 0xE401,
   0xA001, 0x6C00, 0x7800, 0xB401, 0x5000, 0x9C01, 0x8801, 0x4400]

/-- One nibble of CRC16_2. -/
def crcNibble (wCRC : UInt16) (nibble : UInt8) : UInt16 :=
  wCRCTalbeAbs.getD ((nibble.toUInt16 ^^^ wCRC) &&& 15).toNat 0 ^^^ (wCRC >>> 4)

def crc16_2 (pchMsg : Bytes) : UInt16 :=
  pchMsg.foldl (fun wCRC chChar => crcNibble (crcNibble wCRC chChar) (chChar >>> 4)) 0xFFFF

/-- The loop of CRC16_2, which has no result when it reads behind the memory. -/
def crc16_2Loop (wDataLen : UInt16) : Bytes → UInt16 → UInt16 → Option UInt16
  | [], i, wCRC => if i < wDataLen then none else some wCRC
  | chChar :: pchMsg, i, wCRC =>
    if i < wDataLen then crc16_2Loop wDataLen pchMsg (i + 1)
      (crcNibble (crcNibble wCRC chChar) (chChar >>> 4))
    else some wCRC

/-- `CRC16_2(pchMsg, wDataLen)` -/
def crc16_2Call (pchMsg : Bytes) (wDataLen : UInt16) : Option UInt16 :=
  crc16_2Loop wDataLen pchMsg 0 0xFFFF

/-- The byte order of `tmp_buf`. -/
def swapPairs : Bytes → Bytes
  | a :: b :: rest => b :: a :: swapPairs rest
  | rest => rest

/-- The 128 bytes of `tmp_buf` before the call. -/
def tmpBuf (job : Bytes) : Bytes := overwrite (List.replicate 128 0) 0 (swapPairs job)

/-- `(uint8_t)((nonce >> shift) & 0xff)`. -/
def nonceByte (nonce shift : UInt32) : UInt8 := (nonce >>> shift).toUInt8

def startNonce (currIsNicehashPool : Bool) (data : Buffer 128) (chipId : UInt8) : UInt32 :=
  if currIsNicehashPool = false then
    let workNonce := ((data.get 42).toUInt32 <<< 24) + ((data.get 41).toUInt32 <<< 16) +
      ((data.get 40).toUInt32 <<< 8) + ((data.get 39).toUInt32 <<< 0)
    workNonce + nonceStep * (chipId.toUInt32 - 1)
  else
    let workNonce := ((data.get 41).toUInt32 <<< 16) + ((data.get 40).toUInt32 <<< 8) +
      ((data.get 39).toUInt32 <<< 0)
    workNonce + nonceStepNicehash * (chipId.toUInt32 - 1)

def endNonceBytes (currIsNicehashPool : Bool) (data : Buffer 128) (start : UInt32) : Bytes :=
  if currIsNicehashPool = false then [0xff, 0xff, 0xff, 0xdb]
  else
    let endNonce := start + nonceStepNicehash - endNonceA8Gap
    [data.get 42, nonceByte endNonce 16, nonceByte endNonce 8, nonceByte endNonce 0]

def packetTarget (work : Work) : Bytes :=
  if work.deviceDiff ≠ work.workDifficulty then defaultTarget
  else [work.target.get 31, work.target.get 30, work.target.get 29, work.target.get 28]

/-- `job[10]` to `job[85]`: the loop over the words, then the patched nonce bytes. -/
def dataSection (currIsNicehashPool : Bool) (data : Buffer 128) (start : UInt32) : Bytes :=
  let words := flipWords (data.bytes.take 76)
  let low := words.set 36 (nonceByte start 0)
  let top := low.set 41 (if currIsNicehashPool = false then nonceByte start 24 else data.get 42)
  (top.set 42 (nonceByte start 16)).set 43 (nonceByte start 8)

/-- The 88 bytes create_job writes to `job`. -/
def createJob (cmdWriteJob : UInt8) (currIsNicehashPool : Bool) (chipId jobId : UInt8)
    (work : Work) : Bytes :=
  let start := startNonce currIsNicehashPool work.data chipId
  let job := [((jobId &&& 0x0f) <<< 4) ||| cmdWriteJob, chipId] ++
    endNonceBytes currIsNicehashPool work.data start ++ packetTarget work ++
    dataSection currIsNicehashPool work.data start
  let crc := crc16_2 (swapPairs job)
  job ++ [(crc >>> 8).toUInt8, crc.toUInt8]

/-- The start nonce a chip reads from its packet. -/
def packetStart (job : Bytes) : UInt32 :=
  ((job.getD 51 0).toUInt32 <<< 24) + ((job.getD 52 0).toUInt32 <<< 16) +
    ((job.getD 53 0).toUInt32 <<< 8) + ((job.getD 46 0).toUInt32 <<< 0)

def packetEnd (job : Bytes) : UInt32 :=
  ((job.getD 2 0).toUInt32 <<< 24) + ((job.getD 3 0).toUInt32 <<< 16) +
    ((job.getD 4 0).toUInt32 <<< 8) + ((job.getD 5 0).toUInt32 <<< 0)

@[simp] theorem length_endNonceBytes (nicehash : Bool) (data : Buffer 128) (start : UInt32) :
    (endNonceBytes nicehash data start).length = 4 := by
  unfold endNonceBytes
  split <;> rfl

@[simp] theorem length_packetTarget (work : Work) : (packetTarget work).length = 4 := by
  unfold packetTarget
  split <;> rfl

@[simp] theorem length_dataSection (nicehash : Bool) (data : Buffer 128) (start : UInt32) :
    (dataSection nicehash data start).length = 76 := by
  simp [dataSection, data.length_eq]

theorem length_createJob (cmd : UInt8) (nicehash : Bool) (chipId jobId : UInt8) (work : Work) :
    (createJob cmd nicehash chipId jobId work).length = 88 := by
  simp [createJob]

/-- The packet in its sections. -/
theorem createJob_sections (cmd : UInt8) (nicehash : Bool) (chipId jobId : UInt8) (work : Work) :
    let job := createJob cmd nicehash chipId jobId work
    let start := startNonce nicehash work.data chipId
    (job.drop 2).take 4 = endNonceBytes nicehash work.data start ∧
      (job.drop 6).take 4 = packetTarget work ∧
      (job.drop 10).take 76 = dataSection nicehash work.data start := by
  intro job start
  obtain ⟨command, crc, two, layout⟩ : ∃ command crc : Bytes, command.length = 2 ∧
      job = command ++ endNonceBytes nicehash work.data start ++ packetTarget work ++
        dataSection nicehash work.data start ++ crc := ⟨_, _, rfl, rfl⟩
  rw [layout]
  refine ⟨?_, ?_, ?_⟩
  · rw [List.append_assoc, List.append_assoc]
    exact take_drop_middle _ _ _ 2 4 two (length_endNonceBytes _ _ _)
  · rw [List.append_assoc]
    exact take_drop_middle _ _ _ 6 4 (by simp [two]) (length_packetTarget _)
  · exact take_drop_middle _ _ _ 10 76 (by simp [two]) (length_dataSection _ _ _)

theorem nonceByte_toNat (nonce : UInt32) :
    (nonceByte nonce 0).toNat = nonce.toNat % 256 ∧
      (nonceByte nonce 8).toNat = nonce.toNat / 2 ^ 8 % 256 ∧
      (nonceByte nonce 16).toNat = nonce.toNat / 2 ^ 16 % 256 ∧
      (nonceByte nonce 24).toNat = nonce.toNat / 2 ^ 24 % 256 := by
  simp [nonceByte, Nat.shiftRight_eq_div_pow]

/-- Four bytes put together in 32-bit arithmetic never overflow. -/
theorem joinBytes_toNat (top high mid low : UInt8) :
    ((top.toUInt32 <<< 24) + (high.toUInt32 <<< 16) + (mid.toUInt32 <<< 8) +
      (low.toUInt32 <<< 0)).toNat =
        top.toNat * 2 ^ 24 + high.toNat * 2 ^ 16 + mid.toNat * 2 ^ 8 + low.toNat := by
  have := top.toNat_lt
  have := high.toNat_lt
  have := mid.toNat_lt
  have := low.toNat_lt
  simp [UInt32.toNat_add, UInt32.toNat_shiftLeft, Nat.shiftLeft_eq]
  omega

theorem startNonce_toNat (data : Buffer 128) (chipId : UInt8) (numbered : 1 ≤ chipId.toNat) :
    (startNonce false data chipId).toNat =
      ((data.get 42).toNat * 2 ^ 24 + (data.get 41).toNat * 2 ^ 16 + (data.get 40).toNat * 2 ^ 8 +
        (data.get 39).toNat + 0x100000 * (chipId.toNat - 1)) % 2 ^ 32 := by
  have base := joinBytes_toNat (data.get 42) (data.get 41) (data.get 40) (data.get 39)
  have small := chipId.toNat_lt
  have back : (chipId.toUInt32 - 1).toNat = chipId.toNat - 1 := by
    simp [UInt32.toNat_sub]
    omega
  have step : nonceStep.toNat = 0x100000 := rfl
  rw [startNonce, if_pos rfl, UInt32.toNat_add, base, UInt32.toNat_mul, back, step]
  omega

theorem startNonce_nicehash_toNat (data : Buffer 128) (chipId : UInt8)
    (numbered : 1 ≤ chipId.toNat) (low : data.get 39 = 0) (mid : data.get 40 = 0) :
    (startNonce true data chipId).toNat =
      (data.get 41).toNat * 2 ^ 16 + 0x6667 * (chipId.toNat - 1) := by
  have base := joinBytes_toNat 0 (data.get 41) (data.get 40) (data.get 39)
  have small := chipId.toNat_lt
  have high := (data.get 41).toNat_lt
  have back : (chipId.toUInt32 - 1).toNat = chipId.toNat - 1 := by
    simp [UInt32.toNat_sub]
    omega
  have step : nonceStepNicehash.toNat = 0x6667 := rfl
  have top : (UInt8.toUInt32 0) <<< 24 = 0 := rfl
  rw [top, UInt32.zero_add] at base
  rw [startNonce, if_neg (by decide), UInt32.toNat_add, base, UInt32.toNat_mul, back, step,
    low, mid]
  simp
  omega

/-- The nonce bytes that are patched over the reversed words. -/
theorem dataSection_patched (nicehash : Bool) (data : Buffer 128) (start : UInt32) :
    (dataSection nicehash data start).getD 36 0 = nonceByte start 0 ∧
      (dataSection nicehash data start).getD 41 0 =
        (if nicehash = false then nonceByte start 24 else data.get 42) ∧
      (dataSection nicehash data start).getD 42 0 = nonceByte start 16 ∧
      (dataSection nicehash data start).getD 43 0 = nonceByte start 8 := by
  have size : (data.bytes.take 76).length = 76 := by simp [data.length_eq]
  simp [dataSection, size]

/-- Undoing the word reversal of the data section: the start nonce at bytes 39 to
42, the blob elsewhere. -/
theorem flipWords_dataSection (nicehash : Bool) (data : Buffer 128) (start : UInt32) (i : Nat)
    (inside : i < 76) :
    (flipWords (dataSection nicehash data start))[i]? =
      if i = 39 then some (nonceByte start 0)
      else if i = 40 then some (nonceByte start 8)
      else if i = 41 then some (nonceByte start 16)
      else if i = 42 then some (if nicehash = false then nonceByte start 24 else data.get 42)
      else data.bytes[i]? := by
  have size : (data.bytes.take 76).length = 76 := by simp [data.length_eq]
  rw [getElem?_flipWords _ _ (by rw [length_dataSection]; omega)]
  by_cases patched : i = 39 ∨ i = 40 ∨ i = 41 ∨ i = 42
  · rcases patched with rfl | rfl | rfl | rfl <;> simp [dataSection, size]
  · have place : ∀ k, k = 4 * (i / 4) + (3 - i % 4) → k ≠ 36 ∧ k ≠ 41 ∧ k ≠ 42 ∧ k ≠ 43 ∧
        4 * (k / 4) + 4 ≤ 76 ∧ 4 * (k / 4) + (3 - k % 4) = i := by omega
    obtain ⟨h36, h41, h42, h43, complete, back⟩ := place _ rfl
    simp only [dataSection]
    rw [List.getElem?_set_ne h43.symm, List.getElem?_set_ne h42.symm, List.getElem?_set_ne h41.symm,
      List.getElem?_set_ne h36.symm, getElem?_flipWords _ _ (by rw [size]; exact complete), back,
      List.getElem?_take_of_lt inside, if_neg (by omega), if_neg (by omega), if_neg (by omega),
      if_neg (by omega)]

/-- The four nonce bytes of a packet, outside nicehash mode, are the start nonce. -/
theorem packetStart_createJob (cmd chipId jobId : UInt8) (work : Work) :
    packetStart (createJob cmd false chipId jobId work) = startNonce false work.data chipId := by
  obtain ⟨_, _, data⟩ := createJob_sections cmd false chipId jobId work
  obtain ⟨low, top, high, mid⟩ :=
    dataSection_patched false work.data (startNonce false work.data chipId)
  have read := fun i (inside : i < 76) => getD_section _ _ 10 76 i (0 : UInt8) data inside
  have bound := (startNonce false work.data chipId).toNat_lt
  rw [← UInt32.toNat_inj, packetStart, joinBytes_toNat, read 41 (by decide), read 42 (by decide),
    read 43 (by decide), read 36 (by decide), low, top, high, mid, if_pos rfl]
  obtain ⟨b0, b8, b16, b24⟩ := nonceByte_toNat (startNonce false work.data chipId)
  rw [b0, b8, b16, b24]
  omega

/-- In nicehash mode both nonces carry byte 42 on top of 24 bits of their number. -/
theorem nicehash_packet (cmd chipId jobId : UInt8) (work : Work) :
    let job := createJob cmd true chipId jobId work
    let start := startNonce true work.data chipId
    job.getD 51 0 = work.data.get 42 ∧ job.getD 2 0 = work.data.get 42 ∧
      (packetStart job).toNat % 2 ^ 24 = start.toNat % 2 ^ 24 ∧
      (packetEnd job).toNat % 2 ^ 24 =
        (start + nonceStepNicehash - endNonceA8Gap).toNat % 2 ^ 24 := by
  intro job start
  obtain ⟨ends, _, data⟩ := createJob_sections cmd true chipId jobId work
  obtain ⟨low, top, high, mid⟩ := dataSection_patched true work.data start
  have read := fun i (inside : i < 76) => getD_section _ _ 10 76 i (0 : UInt8) data inside
  have readEnd := fun i (inside : i < 4) => getD_section _ _ 2 4 i (0 : UInt8) ends inside
  obtain ⟨b0, b8, b16, _⟩ := nonceByte_toNat start
  obtain ⟨e0, e8, e16, _⟩ := nonceByte_toNat (start + nonceStepNicehash - endNonceA8Gap)
  refine ⟨(read 41 (by decide)).trans top, readEnd 0 (by decide), ?_, ?_⟩
  · rw [packetStart, joinBytes_toNat, read 41 (by decide), read 42 (by decide),
      read 43 (by decide), read 36 (by decide), low, high, mid, b0, b8, b16]
    omega
  · have end1 : job.getD 3 0 = nonceByte (start + nonceStepNicehash - endNonceA8Gap) 16 :=
      readEnd 1 (by decide)
    have end2 : job.getD 4 0 = nonceByte (start + nonceStepNicehash - endNonceA8Gap) 8 :=
      readEnd 2 (by decide)
    have end3 : job.getD 5 0 = nonceByte (start + nonceStepNicehash - endNonceA8Gap) 0 :=
      readEnd 3 (by decide)
    rw [packetEnd, joinBytes_toNat, end1, end2, end3, e0, e8, e16]
    omega

/-! ## The checksum -/

@[simp] theorem length_swapPairs (job : Bytes) : (swapPairs job).length = job.length := by
  induction job using List.twoStepInduction with
  | nil => rfl
  | singleton x => rfl
  | cons_cons x y rest ih _ => simp only [swapPairs, List.length_cons, ih]

/-- A byte of the packet has one place in `tmp_buf`. -/
theorem swapPairs_split (job : Bytes) (i : Nat) (inside : i < job.length) :
    ∃ front back, swapPairs job = front ++ job[i] :: back ∧
      ∀ b, swapPairs (job.set i b) = front ++ b :: back := by
  induction job using List.twoStepInduction generalizing i with
  | nil => exact absurd inside (Nat.not_lt_zero i)
  | singleton x =>
    obtain rfl : i = 0 := by
      rw [List.length_singleton] at inside
      omega
    exact ⟨[], [], rfl, fun _ => rfl⟩
  | cons_cons x y rest ih _ =>
    rcases i with _ | _ | i
    · exact ⟨[y], swapPairs rest, rfl, fun _ => rfl⟩
    · exact ⟨[], x :: swapPairs rest, rfl, fun _ => rfl⟩
    · simp only [List.length_cons, Nat.add_lt_add_iff_right] at inside
      obtain ⟨front, back, whole, changed⟩ := ih i inside
      refine ⟨y :: x :: front, back, ?_, fun b => ?_⟩
      · rw [swapPairs, whole]
        rfl
      · exact congrArg (fun l => y :: x :: l) (changed b)

/-- The loop reads as many bytes as its length says. -/
theorem crc16_2Loop_eq (wDataLen : UInt16) (pchMsg rest : Bytes) (i wCRC : UInt16)
    (counted : i.toNat + pchMsg.length = wDataLen.toNat) :
    crc16_2Loop wDataLen (pchMsg ++ rest) i wCRC =
      some (pchMsg.foldl (fun wCRC chChar => crcNibble (crcNibble wCRC chChar) (chChar >>> 4))
        wCRC) := by
  induction pchMsg generalizing i wCRC with
  | nil =>
    have done : ¬ i < wDataLen := by
      rw [UInt16.lt_iff_toNat_lt]
      simp only [List.length_nil] at counted
      omega
    cases rest with
    | nil => exact if_neg done
    | cons b rest => exact if_neg done
  | cons chChar pchMsg ih =>
    rw [List.length_cons] at counted
    have more : i < wDataLen := by
      rw [UInt16.lt_iff_toNat_lt]
      omega
    have bound := wDataLen.toNat_lt
    have next : (i + 1).toNat = i.toNat + 1 := by
      rw [UInt16.toNat_add, UInt16.toNat_one]
      omega
    rw [List.cons_append, crc16_2Loop, if_pos more, ih (i + 1) _ (by omega), List.foldl_cons]

theorem crc16_2Call_eq (pchMsg rest : Bytes) (short : pchMsg.length < 2 ^ 16) :
    crc16_2Call (pchMsg ++ rest) (UInt16.ofNat pchMsg.length) = some (crc16_2 pchMsg) := by
  refine crc16_2Loop_eq _ pchMsg rest 0 0xFFFF ?_
  rw [UInt16.toNat_ofNat', Nat.mod_eq_of_lt short, UInt16.toNat_zero, Nat.zero_add]

end CgminerT4.Source.CreateJob
