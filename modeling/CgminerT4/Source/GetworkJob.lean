import CgminerT4.Source.Hex
import CgminerT4.Source.WorkItem

/-!
# Jobs of the getwork protocol (getwork.c)

rpc2_job_decode publishes a job in four globals under rpc2_job_lock and copies
them into the work item after unlocking; the copies are separate functions here,
so that other threads can run between them. gen_getwork_work pushes one copy of
the work for each device with a device byte patched in, also when decoding
failed. `target` is a little-endian `uint32_t`. Allocation never fails; reading
a string that is not there has no defined result. Statistics and the delay
between pushes are left out.
-/
namespace CgminerT4.Source.GetworkJob
open Library.ByteString Jansson Hex WorkItem

/-- What `rpc2_blob` and `rpc2_bloblen` can hold: a blob that fits `work->data`. -/
structure Blob where
  bytes : Bytes
  fits : bytes.length ≤ 128
  deriving DecidableEq

/-- The globals of getwork.c, and the `stratum_diff` of cgminer.c. -/
structure Globals where
  rpc2Blob : Option Blob
  rpc2Target : Nat
  rpc2JobId : Option Bytes
  stratumDiff : Double

def initialGlobals : Globals := ⟨none, 0, none, 0⟩

/-- jobj_binary with a four byte buffer: the bytes hex2bin wrote before it
failed stay in the buffer. -/
def jobjBinary (obj : Option Json) (key : String) : Bytes :=
  match jsonStringValue (jsonObjectGet obj key) with
  | none => List.replicate 4 0
  | some hexstr => overwrite (List.replicate 4 0) 0 (hex2bin hexstr 4).1

/-- The local `target` after the locked section. -/
def jobTarget (job : Option Json) : Nat := ofLittleEndian (jobjBinary job "target")

/-- `trunc((double)0xffffffff / target)`. Both operands are below `2 ^ 32`, so the
rounded quotient truncates to the exact one. -/
def difficultyOf (target : Nat) : Double :=
  if target = 0 then ⊤ else (((0xffffffff / target : Nat) : ℚ) : Double)

/-- The length test on the hexadecimal blob. -/
def invalidBlobLength (blobLen : Nat) : Bool :=
  blobLen % 2 ≠ 0 || (blobLen / 2 < 40 && blobLen ≠ 0) || blobLen / 2 > 128

/-- hex2bin of a blob of accepted length. -/
def decodeBlob (hexblob : Bytes) : Option Blob :=
  if decoded : invalidBlobLength hexblob.length = false ∧
      (hex2bin hexblob (hexblob.length / 2)).2 = true then
    some
      { bytes := (hex2bin hexblob (hexblob.length / 2)).1
        fits := by
          obtain ⟨_, written, size⟩ := hex2bin_success _ _ decoded.2
          rw [written, size]
          by_contra large
          simp [invalidBlobLength, Nat.lt_of_not_le large] at decoded }
  else none

/-- rpc2_job_decode up to the unlock: the local `target`, none on err_out. An
empty blob takes no lock and publishes nothing. -/
def publishJob (g : Globals) (job : Option Json) : Option (Globals × Option Nat) :=
  match jsonObjectGet job "job_id" with
  | none => some (g, none)
  | some jobId =>
    match jsonObjectGet job "blob" with
    | none => some (g, none)
    | some blobVal =>
      match jsonStringValue (some blobVal) with
      | none => none
      | some hexblob =>
        if invalidBlobLength hexblob.length then some (g, none)
        else if hexblob = [] then some (g, some 0)
        else
          match decodeBlob hexblob with
          | none => some (g, none)
          | some blob =>
            match jsonStringValue (some jobId) with
            | none => none
            | some id =>
              let target := jobTarget job
              some
                ({ rpc2Blob := some blob
                   rpc2Target := target
                   rpc2JobId := some id
                   stratumDiff :=
                     if g.rpc2Target ≠ target then difficultyOf target else g.stratumDiff },
                  some target)

/-- memset and the four target bytes. -/
def targetBytes (target : Nat) : Buffer 32 :=
  ⟨List.replicate 28 0xff ++ littleEndian 4 target, by simp⟩

/-- The copy of the blob and the local target; none on err_out. -/
def copyBlob (g : Globals) (target : Nat) (work : Work) : Option Work :=
  g.rpc2Blob.map fun blob =>
    { work with
      data :=
        ⟨overwrite work.data.bytes 0 blob.bytes, by
          rw [length_overwrite, work.data.length_eq]
          rw [work.data.length_eq]
          have := blob.fits
          omega⟩
      target := targetBytes target }

/-- `strdup(rpc2_job_id)`. -/
def copyJobId (g : Globals) (work : Work) : Option Work :=
  g.rpc2JobId.map fun id => { work with jobId := some id }

def copyDifficulty (g : Globals) (work : Work) : Work :=
  { work with workDifficulty := g.stratumDiff }

/-- rpc2_job_decode without interruption: the globals, the work and the result. -/
def rpc2JobDecode (g : Globals) (job : Option Json) (work : Work) :
    Option (Globals × Work × Bool) :=
  match publishJob g job with
  | none => none
  | some (g', none) => some (g', work, false)
  | some (g', some target) =>
    match copyBlob g' target work with
    | none => some (g', work, false)
    | some copied => (copyJobId g' copied).map fun named => (g', copyDifficulty g' named, true)

/-- The work gen_getwork_work hands to rpc2_job_decode. -/
def jobWork (pool : PoolNo) : Work :=
  { makeWork with
    pool
    stratum := true
    nonce := 0
    longpoll := false
    getworkMode := some 'S'
    drvRolllimit := 60 }

/-- `(256 + total_devices - 1) / total_devices`. -/
def startNonceGap (totalDevices : Nat) : Nat := (256 + totalDevices - 1) / totalDevices

/-- The byte of `data` that separates the devices. -/
def deviceByte (isNicehashPool : Bool) : Nat := if isNicehashPool = false then 42 else 41

/-- The copy of the work that is pushed for device `i`. -/
def deviceWork (isNicehashPool : Bool) (totalDevices : Nat) (work : Work) (i : Nat) : Work :=
  { work with
    data := work.data.set (deviceByte isNicehashPool)
      (UInt8.ofNat (startNonceGap totalDevices * i)) }

def deviceWorks (isNicehashPool : Bool) (totalDevices : Nat) (work : Work) : List Work :=
  (List.range totalDevices).map (deviceWork isNicehashPool totalDevices work)

/-- gen_getwork_work: the globals, the result of rpc2_job_decode, which is not
looked at, and the works handed to hash_push. -/
def genGetworkWork (isNicehashPool : Bool) (totalDevices : Nat) (pool : PoolNo) (g : Globals)
    (job : Option Json) : Option (Globals × Bool × List Work) :=
  (rpc2JobDecode g job (jobWork pool)).map fun (next, work, decoded) =>
    (next, decoded, deviceWorks isNicehashPool totalDevices work)

/-- The strings of a job message. -/
def jobIdText (job : Option Json) : Option Bytes := jsonStringValue (jsonObjectGet job "job_id")

def jobBlobText (job : Option Json) : Option Bytes := jsonStringValue (jsonObjectGet job "blob")

theorem decodeBlob_some (hexblob : Bytes) (blob : Blob) (success : decodeBlob hexblob = some blob) :
    blob.bytes = unhex hexblob ∧ hexblob.length = 2 * blob.bytes.length := by
  unfold decodeBlob at success
  split at success
  · next decoded =>
    obtain ⟨length, written, size⟩ := hex2bin_success _ _ decoded.2
    have half : hexblob.length = 2 * (hex2bin hexblob (hexblob.length / 2)).1.length := by
      rw [written, size]
      exact length
    cases success
    exact ⟨written, half⟩
  · cases success

/-- What the part under the lock can do: nothing and fail, nothing for an empty
blob, or publish the strings of the message. -/
theorem publishJob_cases (g next : Globals) (job : Option Json) (result : Option Nat)
    (done : publishJob g job = some (next, result)) :
    (next = g ∧ result = none) ∨
    (next = g ∧ result = some 0 ∧ jobBlobText job = some []) ∨
    ∃ hexblob blob id, jobBlobText job = some hexblob ∧ hexblob ≠ [] ∧
      invalidBlobLength hexblob.length = false ∧ decodeBlob hexblob = some blob ∧
      jobIdText job = some id ∧ result = some (jobTarget job) ∧
      next.rpc2Blob = some blob ∧ next.rpc2JobId = some id := by
  unfold publishJob at done
  split at done
  · cases done
    exact Or.inl ⟨rfl, rfl⟩
  · next jobId jobIdFound =>
    split at done
    · cases done
      exact Or.inl ⟨rfl, rfl⟩
    · next blobVal blobFound =>
      split at done
      · cases done
      · next hexblob text =>
        have blobText : jobBlobText job = some hexblob := by rw [jobBlobText, blobFound, text]
        split at done
        · cases done
          exact Or.inl ⟨rfl, rfl⟩
        · next acceptable =>
          split at done
          · next empty =>
            cases done
            subst empty
            exact Or.inr (Or.inl ⟨rfl, rfl, blobText⟩)
          · next nonempty =>
            split at done
            · cases done
              exact Or.inl ⟨rfl, rfl⟩
            · next blob decoded =>
              split at done
              · cases done
              · next id idText =>
                cases done
                refine Or.inr (Or.inr ⟨hexblob, blob, id, blobText,
                  nonempty, by simpa using acceptable, decoded, ?_,
                  rfl, rfl, rfl⟩)
                rw [jobIdText, jobIdFound, idText]

end CgminerT4.Source.GetworkJob
