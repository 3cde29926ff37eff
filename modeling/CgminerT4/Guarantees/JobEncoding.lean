import CgminerT4.Source.CreateJob
import CgminerT4.Source.GetworkJob

/-!
# What of a job reaches the chips

rpc2_job_decode accepts blobs of 40 to 128 bytes, create_job always sends 76.
The packet of a blob of up to 76 bytes gives it back with the start nonce in
place of bytes 39 to 42; the rest of a longer blob is not sent. The target bytes
follow the work in every case.
-/
namespace CgminerT4.Guarantees.JobEncoding
open Library.ByteString Source.Jansson Source.Hex Source.WorkItem Source.GetworkJob Source.CreateJob

/-- The packet of a device's copy of the work, once the driver has chosen the
difficulty to run at. -/
def devicePacket (cmd chipId jobId : UInt8) (totalDevices device : Nat) (deviceDiff : Double)
    (work : Work) : Bytes :=
  createJob cmd false chipId jobId { deviceWork false totalDevices work device with deviceDiff }

/-- The packet holds the blob with the start nonce at bytes 39 to 42, and the top
four bytes of the target when the device runs at the difficulty of the pool. -/
structure Faithful (blob : Bytes) (start : UInt32) (work : Work) (deviceDiff : Double)
    (job : Bytes) : Prop where
  data : ∀ i < blob.length, (flipWords ((job.drop 10).take 76))[i]? =
    if 39 ≤ i ∧ i ≤ 42 then (littleEndian 4 start.toNat)[i - 39]? else blob[i]?
  target : deviceDiff = work.workDifficulty →
    (job.drop 6).take 4 = (work.target.bytes.drop 28).reverse

/-- An accepted job with a blob of its own leaves the blob at the front of the
work's data. -/
theorem rpc2JobDecode_data (g next : Globals) (job : Option Json) (before work : Work)
    (hexblob : Bytes) (accepted : rpc2JobDecode g job before = some (next, work, true))
    (text : jobBlobText job = some hexblob) (nonempty : hexblob ≠ []) :
    (unhex hexblob).length ≤ 128 ∧
      work.data.bytes = overwrite before.data.bytes 0 (unhex hexblob) := by
  unfold rpc2JobDecode at accepted
  split at accepted
  · cases accepted
  · cases accepted
  · next g' target published =>
    split at accepted
    · cases accepted
    · next copied copy =>
      simp only [Option.map_eq_some_iff, Prod.mk.injEq] at accepted
      obtain ⟨named, naming, _, finished, _⟩ := accepted
      simp only [copyJobId, Option.map_eq_some_iff] at naming
      obtain ⟨id, _, rfl⟩ := naming
      simp only [copyBlob, Option.map_eq_some_iff] at copy
      obtain ⟨stored, found, rfl⟩ := copy
      subst finished
      rcases publishJob_cases _ _ _ _ published with ⟨_, none⟩ | ⟨_, _, empty⟩ | fresh
      · cases none
      · rw [text, Option.some.injEq] at empty
        exact absurd empty nonempty
      · obtain ⟨hexblob', blob, id', text', _, _, decoded, _, _, published, _⟩ := fresh
        rw [text, Option.some.injEq] at text'
        subst text'
        obtain ⟨bytes, _⟩ := decodeBlob_some _ _ decoded
        rw [found, Option.some.injEq] at published
        subst published
        exact ⟨bytes ▸ stored.fits, by rw [← bytes]; rfl⟩

theorem nonceByte_eq (start : UInt32) :
    nonceByte start 0 = UInt8.ofNat (start.toNat / 256 ^ 0) ∧
      nonceByte start 8 = UInt8.ofNat (start.toNat / 256 ^ 1) ∧
      nonceByte start 16 = UInt8.ofNat (start.toNat / 256 ^ 2) ∧
      nonceByte start 24 = UInt8.ofNat (start.toNat / 256 ^ 3) := by
  obtain ⟨b0, b8, b16, b24⟩ := nonceByte_toNat start
  simp only [← UInt8.toNat_inj, b0, b8, b16, b24, UInt8.toNat_ofNat']
  simp

/-- Bytes 39 to 42 of the data section are the start nonce, the others the
work's data. -/
theorem section_data (data : Buffer 128) (start : UInt32) (i : Nat) (inside : i < 76) :
    (flipWords (dataSection false data start))[i]? =
      if 39 ≤ i ∧ i ≤ 42 then (littleEndian 4 start.toNat)[i - 39]? else data.bytes[i]? := by
  rw [flipWords_dataSection false data start i inside]
  by_cases nonce : 39 ≤ i ∧ i ≤ 42
  · rw [if_pos nonce, littleEndian_getElem? _ _ _ (by omega)]
    obtain ⟨b0, b8, b16, b24⟩ := nonceByte_eq start
    obtain rfl | rfl | rfl | rfl : i = 39 ∨ i = 40 ∨ i = 41 ∨ i = 42 := by omega
    · simp [b0]
    · simp [b8]
    · simp [b16]
    · simp [b24]
  · rw [if_neg nonce, if_neg (by omega), if_neg (by omega), if_neg (by omega), if_neg (by omega)]

theorem top_of_target (target : Buffer 32) :
    (target.bytes.drop 28).reverse =
    [target.get 31, target.get 30, target.get 29, target.get 28] := by
  have size := target.length_eq
  have top : target.bytes.drop 28 =
      [target.get 28, target.get 29, target.get 30, target.get 31] := by
    apply List.ext_getElem
    · simp [size]
    · intro i _ inside
      have cases : i = 0 ∨ i = 1 ∨ i = 2 ∨ i = 3 := by
        simp only [List.length_cons, List.length_nil] at inside
        omega
      rcases cases with rfl | rfl | rfl | rfl <;> simp [Buffer.get, size]
  rw [top]
  rfl

theorem packetTarget_of_same (work : Work) (same : work.deviceDiff = work.workDifficulty) :
    packetTarget work = (work.target.bytes.drop 28).reverse := by
  rw [packetTarget, if_neg (not_not_intro same), top_of_target]

/-- A packet is faithful exactly when the blob fits the 76 bytes that are sent. -/
theorem job_encoding_iff (cmd chipId jobId : UInt8) (g next : Globals) (job : Option Json)
    (pool : PoolNo) (work : Work) (hexblob : Bytes)
    (accepted : rpc2JobDecode g job (jobWork pool) = some (next, work, true))
    (text : jobBlobText job = some hexblob) (nonempty : hexblob ≠ []) (totalDevices device : Nat)
    (deviceDiff : Double) :
    Faithful (unhex hexblob) (startNonce false
      (deviceWork false totalDevices work device).data chipId)
        work deviceDiff (devicePacket cmd chipId jobId totalDevices device deviceDiff work) ↔
      (unhex hexblob).length ≤ 76 := by
  obtain ⟨fits, data⟩ := rpc2JobDecode_data _ _ _ _ _ _ accepted text nonempty
  obtain ⟨_, target, sections⟩ := createJob_sections cmd false chipId jobId
    { deviceWork false totalDevices work device with deviceDiff }
  -- the device's byte lies under the start nonce
  have blob : ∀ i < (unhex hexblob).length, i ≠ 42 →
      (deviceWork false totalDevices work device).data.bytes[i]? = (unhex hexblob)[i]? := by
    intro i inside other
    have patched : (deviceWork false totalDevices work device).data.bytes[i]? =
        work.data.bytes[i]? :=
      List.getElem?_set_ne (Ne.symm other)
    rw [patched, data, getElem?_overwrite _ _ _ _ (by rw [(jobWork pool).data.length_eq]; omega)]
    rw [if_neg (by omega), if_pos (by omega), Nat.sub_zero]
  constructor
  · intro faithful
    by_contra long
    have lost := faithful.data 76 (by omega)
    rw [if_neg (by decide), List.getElem?_eq_none (by simp)] at lost
    rw [eq_comm, List.getElem?_eq_none_iff] at lost
    omega
  · intro short
    refine ⟨?_, ?_⟩
    · intro i inside
      rw [devicePacket, sections, section_data _ _ _ (by omega)]
      by_cases nonce : 39 ≤ i ∧ i ≤ 42
      · rw [if_pos nonce, if_pos nonce]
      · rw [if_neg nonce, if_neg nonce]
        exact blob i inside (by omega)
    · intro same
      rw [devicePacket, target]
      exact packetTarget_of_same _ same

/-- A job message with a blob of the given number of zero bytes. -/
def zeroJob (bytes : Nat) : Option Json :=
  some (.object [("job_id", .string [0x61]), ("blob", .string (List.replicate (2 * bytes) 0x30)),
    ("target", .string [0x66, 0x66, 0x30, 0x30, 0x30, 0x30, 0x30, 0x30])])

/-- The work of the job when it is decoded first of all. -/
def zeroWork (bytes : Nat) : Option (Globals × Work × Bool) :=
  rpc2JobDecode initialGlobals (zeroJob bytes) (jobWork 0)

/-- The usual 76 bytes. -/
theorem job_encoding_76 : ∃ next work, zeroWork 76 = some (next, work, true) ∧
    (Faithful (unhex (List.replicate 152 0x30))
      (startNonce false (deviceWork false 1 work 0).data 1)
        work 0 (devicePacket 7 1 1 1 0 0 work) ↔
          (unhex (List.replicate 152 0x30)).length ≤ 76) := by
  have result : (zeroWork 76).map (·.2.2) = some true := by decide +kernel
  obtain ⟨⟨next, work, _⟩, ran, rfl⟩ := Option.map_eq_some_iff.mp result
  exact ⟨next, work, ran, job_encoding_iff 7 1 1 initialGlobals next (zeroJob 76) 0 work
    (List.replicate 152 0x30) ran rfl (by decide) 1 0 0⟩

/-- Of an accepted blob of 80 bytes the last four are not sent. -/
theorem long_blob_cut : ∃ next work, zeroWork 80 = some (next, work, true) ∧
    ¬ Faithful (unhex (List.replicate 160 0x30))
      (startNonce false (deviceWork false 1 work 0).data 1)
        work 0 (devicePacket 7 1 1 1 0 0 work) := by
  have result : (zeroWork 80).map (·.2.2) = some true := by decide +kernel
  obtain ⟨⟨next, work, _⟩, ran, rfl⟩ := Option.map_eq_some_iff.mp result
  refine ⟨next, work, ran, ?_⟩
  have last : (unhex (List.replicate 160 0x30))[79]? = some 0 := by decide +kernel
  intro faithful
  have lost := faithful.data 79 (List.getElem?_eq_some_iff.mp last).1
  rw [if_neg (by decide), List.getElem?_eq_none (by simp), last] at lost
  cases lost

end CgminerT4.Guarantees.JobEncoding
