import CgminerT4.Library.Runs
import CgminerT4.Source.GetworkJob
import Mathlib.Logic.Function.Basic

/-!
# Jobs of several pools through one set of globals

The receive threads of all pools at the granularity of the locked section of
rpc2_job_decode and the three copies after it. A pushed work carries its own
message as long as no job is published while another thread still has the blob
or the job id to copy, and no accepted message has an empty blob: such a message
publishes nothing and its work takes whatever was published last.
-/
namespace CgminerT4.Guarantees.JobIsolation
open Library.ByteString Library.Runs Source.Jansson Source.Hex Source.WorkItem Source.GetworkJob

/-- Where the receive thread of a pool is in gen_getwork_work. -/
inductive Thread where
  | idle
  | published (job : Option Json) (target : Nat)
  | blobCopied (job : Option Json) (work : Work)
  | jobIdCopied (job : Option Json) (work : Work)

/-- One hash_push, with the message it comes from and whether that was accepted. -/
structure Pushed where
  pool : PoolNo
  job : Option Json
  accepted : Bool
  work : Work

structure World where
  globals : Globals
  thread : PoolNo → Thread
  pushed : List Pushed

inductive Event where
  /-- The thread receives a job message and runs the locked section. -/
  | message (pool : PoolNo) (job : Option Json)
  | copyBlob (pool : PoolNo)
  | copyJobId (pool : PoolNo)
  /-- Copy the difficulty and push the works of all devices. -/
  | finish (pool : PoolNo)

variable (totalDevices : Nat) (isNicehashPool : PoolNo → Bool)

def pushWorks (s : World) (pool : PoolNo) (job : Option Json) (accepted : Bool) (work : Work) :
    World :=
  { s with
    thread := Function.update s.thread pool .idle
    pushed := s.pushed ++
      (deviceWorks (isNicehashPool pool) totalDevices work).map (⟨pool, job, accepted, ·⟩) }

def step (s : World) : Event → Option World
  | .message pool job =>
    match s.thread pool, publishJob s.globals job with
    | .idle, some (globals, none) =>
      some (pushWorks totalDevices isNicehashPool { s with globals } pool job false (jobWork pool))
    | .idle, some (globals, some target) =>
      some { s with globals, thread := Function.update s.thread pool (.published job target) }
    | _, _ => none
  | .copyBlob pool =>
    match s.thread pool with
    | .published job target =>
      match copyBlob s.globals target (jobWork pool) with
      | none => some (pushWorks totalDevices isNicehashPool s pool job false (jobWork pool))
      | some work =>
        some { s with thread := Function.update s.thread pool (.blobCopied job work) }
    | _ => none
  | .copyJobId pool =>
    match s.thread pool with
    | .blobCopied job work =>
      (copyJobId s.globals work).map fun named =>
        { s with thread := Function.update s.thread pool (.jobIdCopied job named) }
    | _ => none
  | .finish pool =>
    match s.thread pool with
    | .jobIdCopied job work =>
      some (pushWorks totalDevices isNicehashPool s pool job true (copyDifficulty s.globals work))
    | _ => none

def start : World := ⟨initialGlobals, fun _ => .idle, []⟩

/-- The target and the blob of the message, in the work before it is copied for
the devices. -/
structure HasBlob (job : Option Json) (work : Work) : Prop where
  target : work.target = targetBytes (jobTarget job)
  blob : ∃ hexblob, jobBlobText job = some hexblob ∧
    work.data.bytes = overwrite (List.replicate 128 0) 0 (unhex hexblob)

/-- A pushed work carries the target, the job id and, up to the byte that
separates the devices, the blob of its message. -/
structure Isolated (entry : Pushed) : Prop where
  target : entry.work.target = targetBytes (jobTarget entry.job)
  jobId : entry.work.jobId = jobIdText entry.job
  blob : ∃ hexblob, jobBlobText entry.job = some hexblob ∧ ∃ device < totalDevices,
    entry.work.data.bytes = (overwrite (List.replicate 128 0) 0 (unhex hexblob)).set
      (deviceByte (isNicehashPool entry.pool)) (UInt8.ofNat (startNonceGap totalDevices * device))

/-- The thread still has the blob or the job id to copy. -/
def copying : Thread → Bool
  | .published _ _ => true
  | .blobCopied _ _ => true
  | _ => false

/-- A message that decodes has a blob of its own and arrives when no other
thread is between its unlock and its copy of the job id. -/
def Exclusive (s : World) : Event → Prop
  | .message pool job => ∀ globals target, publishJob s.globals job = some (globals, some target) →
      jobBlobText job ≠ some [] ∧ ∀ other, other ≠ pool → copying (s.thread other) = false
  | _ => True

/-- What a thread has copied is its own, and what it has still to copy is published. -/
def ThreadInv (globals : Globals) : Thread → Prop
  | .idle => True
  | .published job target => target = jobTarget job ∧ globals.rpc2JobId = jobIdText job ∧
      ∃ hexblob blob, jobBlobText job = some hexblob ∧ globals.rpc2Blob = some blob ∧
        blob.bytes = unhex hexblob
  | .blobCopied job work => HasBlob job work ∧ globals.rpc2JobId = jobIdText job
  | .jobIdCopied job work => HasBlob job work ∧ work.jobId = jobIdText job

structure Inv (s : World) : Prop where
  threads : ∀ pool, ThreadInv s.globals (s.thread pool)
  pushed : ∀ entry ∈ s.pushed, entry.accepted = true → Isolated totalDevices isNicehashPool entry

/-- A thread that is not copying does not depend on the globals. -/
theorem threadInv_of_not_copying (globals next : Globals) (thread : Thread)
    (inv : ThreadInv globals thread) (settled : copying thread = false) :
    ThreadInv next thread := by
  cases thread with
  | idle => trivial
  | published job target => cases settled
  | blobCopied job work => cases settled
  | jobIdCopied job work => exact inv

/-- Moving one thread, with the globals unchanged. -/
theorem move_threads (s : World) (pool : PoolNo) (thread : Thread)
    (inv : ∀ other, ThreadInv s.globals (s.thread other)) (moved : ThreadInv s.globals thread) :
    ∀ other, ThreadInv s.globals (Function.update s.thread pool thread other) := by
  intro other
  by_cases same : other = pool
  · subst same
    simpa using moved
  · simpa [same] using inv other

/-- Works of a rejected message are not claimed to carry it. -/
theorem pushRejected_inv (s : World) (pool : PoolNo) (job : Option Json) (work : Work)
    (inv : Inv totalDevices isNicehashPool s) :
    Inv totalDevices isNicehashPool
      (pushWorks totalDevices isNicehashPool s pool job false work) := by
  refine ⟨move_threads s pool .idle inv.threads trivial, ?_⟩
  intro entry member accepted
  rcases List.mem_append.mp member with old | new
  · exact inv.pushed entry old accepted
  · obtain ⟨copy, _, rfl⟩ := List.mem_map.mp new
    cases accepted

theorem deviceWorks_isolated (pool : PoolNo) (job : Option Json) (work copy : Work)
    (blob : HasBlob job work) (jobId : work.jobId = jobIdText job)
    (member : copy ∈ deviceWorks (isNicehashPool pool) totalDevices work) :
    Isolated totalDevices isNicehashPool ⟨pool, job, true, copy⟩ := by
  obtain ⟨device, inRange, rfl⟩ := List.mem_map.mp member
  obtain ⟨hexblob, text, data⟩ := blob.blob
  refine ⟨blob.target, jobId, hexblob, text, device, List.mem_range.mp inRange, ?_⟩
  rw [← data]
  rfl

theorem message_inv (s next : World) (pool : PoolNo) (job : Option Json)
    (inv : Inv totalDevices isNicehashPool s) (exclusive : Exclusive s (.message pool job))
    (taken : step totalDevices isNicehashPool s (.message pool job) = some next) :
    Inv totalDevices isNicehashPool next := by
  simp only [step] at taken
  split at taken
  · next globals idle published =>
    cases taken
    rcases publishJob_cases _ _ _ _ published with ⟨rfl, _⟩ | ⟨_, impossible, _⟩ | ⟨_, _, _, rest⟩
    · exact pushRejected_inv totalDevices isNicehashPool s pool job (jobWork pool) inv
    · cases impossible
    · obtain ⟨_, _, _, _, _, impossible, _⟩ := rest
      cases impossible
  · next globals target idle published =>
    cases taken
    obtain ⟨nonempty, others⟩ := exclusive globals target published
    rcases publishJob_cases _ _ _ _ published with ⟨_, impossible⟩ | ⟨_, _, empty⟩ | fresh
    · cases impossible
    · exact absurd empty nonempty
    · obtain ⟨hexblob, blob, id, text, _, _, decoded, named, result, stored, storedId⟩ := fresh
      refine ⟨?_, inv.pushed⟩
      intro other
      by_cases same : other = pool
      · subst same
        have bytes := (decodeBlob_some hexblob blob decoded).1
        have own : ThreadInv globals (.published job target) :=
          ⟨Option.some.inj result, by rw [storedId, named], hexblob, blob, text, stored, bytes⟩
        simpa using own
      · have keeps :=
          threadInv_of_not_copying s.globals globals _ (inv.threads other) (others other same)
        simpa [same] using keeps
  · cases taken

theorem copyBlob_inv (s next : World) (pool : PoolNo) (inv : Inv totalDevices isNicehashPool s)
    (taken : step totalDevices isNicehashPool s (.copyBlob pool) = some next) :
    Inv totalDevices isNicehashPool next := by
  simp only [step] at taken
  split at taken
  · next job target phase =>
    have published := inv.threads pool
    rw [phase] at published
    obtain ⟨ownTarget, ownId, hexblob, blob, text, stored, bytes⟩ := published
    simp only [copyBlob, stored, Option.map_some] at taken
    cases taken
    refine ⟨move_threads s pool _ inv.threads ⟨⟨?_, hexblob, text, ?_⟩, ownId⟩, inv.pushed⟩
    · rw [ownTarget]
    · rw [← bytes]
      rfl
  · cases taken

theorem copyJobId_inv (s next : World) (pool : PoolNo) (inv : Inv totalDevices isNicehashPool s)
    (taken : step totalDevices isNicehashPool s (.copyJobId pool) = some next) :
    Inv totalDevices isNicehashPool next := by
  simp only [step] at taken
  split at taken
  · next job work phase =>
    have copied := inv.threads pool
    rw [phase] at copied
    obtain ⟨blob, ownId⟩ := copied
    simp only [Option.map_eq_some_iff] at taken
    obtain ⟨named, done, rfl⟩ := taken
    simp only [copyJobId, Option.map_eq_some_iff] at done
    obtain ⟨id, stored, rfl⟩ := done
    refine ⟨move_threads s pool _ inv.threads ⟨⟨blob.target, blob.blob⟩, ?_⟩, inv.pushed⟩
    rw [← ownId, stored]
  · cases taken

theorem finish_inv (s next : World) (pool : PoolNo) (inv : Inv totalDevices isNicehashPool s)
    (taken : step totalDevices isNicehashPool s (.finish pool) = some next) :
    Inv totalDevices isNicehashPool next := by
  simp only [step] at taken
  split at taken
  · next job work phase =>
    have copied := inv.threads pool
    rw [phase] at copied
    obtain ⟨blob, ownId⟩ := copied
    cases taken
    refine ⟨move_threads s pool .idle inv.threads trivial, ?_⟩
    intro entry member accepted
    rcases List.mem_append.mp member with old | new
    · exact inv.pushed entry old accepted
    · obtain ⟨copy, device, rfl⟩ := List.mem_map.mp new
      exact deviceWorks_isolated totalDevices isNicehashPool pool job
        (copyDifficulty s.globals work) copy ⟨blob.target, blob.blob⟩ ownId device
  · cases taken

theorem step_inv (s : World) (event : Event) (next : World)
    (inv : Inv totalDevices isNicehashPool s) (exclusive : Exclusive s event)
    (taken : step totalDevices isNicehashPool s event = some next) :
    Inv totalDevices isNicehashPool next := by
  cases event with
  | message pool job =>
    exact message_inv totalDevices isNicehashPool s next pool job inv exclusive taken
  | copyBlob pool => exact copyBlob_inv totalDevices isNicehashPool s next pool inv taken
  | copyJobId pool => exact copyJobId_inv totalDevices isNicehashPool s next pool inv taken
  | finish pool => exact finish_inv totalDevices isNicehashPool s next pool inv taken

/-- Every work pushed for an accepted message carries that message. -/
def AllIsolated (s : World) : Prop :=
  ∀ entry ∈ s.pushed, entry.accepted = true → Isolated totalDevices isNicehashPool entry

/-- In a run where jobs are published exclusively, every pushed work carries the
blob, the job id and the target of its own message. -/
theorem jobs_isolated (events : List Event)
    (exclusive : Guarded (step totalDevices isNicehashPool) Exclusive start events) :
    Always (step totalDevices isNicehashPool) (AllIsolated totalDevices isNicehashPool)
      start events := by
  have initial : Inv totalDevices isNicehashPool start := ⟨fun _ => trivial, by simp [start]⟩
  have inv := always_of_guarded (step_inv totalDevices isNicehashPool) initial exclusive
  exact always_mono (fun s inv => inv.pushed) inv

/-- A job message with a one letter job id and a blob of 40 equal bytes. -/
def jobMessage (id digit : UInt8) : Option Json :=
  some (.object [("job_id", .string [id]), ("blob", .string (List.replicate 80 digit)),
    ("target", .string [0x66, 0x66, 0x30, 0x30])])

/-- Two pools, the second of which publishes its job when the first has copied its own. -/
theorem jobs_isolated_alone :
    Always (step 1 fun _ => false) (AllIsolated 1 fun _ => false) start
      [.message 0 (jobMessage 0x61 0x30), .copyBlob 0, .copyJobId 0,
        .message 1 (jobMessage 0x62 0x31), .finish 0,
        .copyBlob 1, .copyJobId 1, .finish 1] := by
  refine jobs_isolated 1 (fun _ => false) _ ?_
  refine (guarded_cons rfl).mpr ⟨fun globals target _ => ⟨by decide, fun other _ => rfl⟩, ?_⟩
  refine (guarded_cons rfl).mpr ⟨trivial, ?_⟩
  refine (guarded_cons rfl).mpr ⟨trivial, ?_⟩
  refine (guarded_cons rfl).mpr ⟨fun globals target _ => ⟨by decide, fun other _ => ?_⟩, ?_⟩
  · match other with
    | 0 => rfl
    | _ + 1 => rfl
  · exact fun _ _ => ⟨trivial,
      fun _ _ => ⟨trivial, fun _ _ => ⟨trivial, fun _ _ => ⟨trivial, trivial⟩⟩⟩⟩

/-- A message of pool 1 between the unlock and the copies of pool 0 replaces the
job of pool 0. -/
theorem job_of_other_pool :
    ¬ Always (step 1 fun _ => false) (AllIsolated 1 fun _ => false) start
      [.message 0 (jobMessage 0x61 0x30), .message 1 (jobMessage 0x62 0x31), .copyBlob 0,
        .copyJobId 0, .finish 0] := by
  intro isolated
  have final := always_final isolated rfl
  have entry := final _ (List.mem_singleton_self _) rfl
  exact absurd entry.jobId (by decide)

end CgminerT4.Guarantees.JobIsolation
