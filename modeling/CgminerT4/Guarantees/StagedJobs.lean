import CgminerT4.Guarantees.JobIsolation

/-!
# What gen_getwork_work stages over a sequence of messages

One pool, messages of any shape. gen_getwork_work does not look at the result
of rpc2_job_decode, rpc2_job_decode not at that of jobj_binary, and the target
of an empty-blob message is zero. A message is staged right when all its fields
are valid, or when it has an empty blob and follows a valid message of target
zero. A missing string is read through NULL.
-/
namespace CgminerT4.Guarantees.StagedJobs
open Library.ByteString Library.Runs Source.Jansson Source.Hex Source.WorkItem Source.GetworkJob
open JobIsolation

variable (totalDevices : Nat) (isNicehashPool : PoolNo → Bool) (pool : PoolNo)

/-- One call of gen_getwork_work. -/
structure Handled where
  job : Option Json
  accepted : Bool
  before : Globals
  after : Globals
  works : List Work

structure World where
  globals : Globals
  /-- The latest message first. -/
  handled : List Handled
  /-- strlen or strdup has been called with NULL. -/
  undefined : Bool

def step (s : World) (job : Option Json) : Option World :=
  match genGetworkWork (isNicehashPool pool) totalDevices pool s.globals job with
  | none => some { s with undefined := true }
  | some (globals, accepted, works) =>
    some { s with globals, handled := ⟨job, accepted, s.globals, globals, works⟩ :: s.handled }

def start : World := ⟨initialGlobals, [], false⟩

/-- A message with a blob of its own, all of whose fields are valid. -/
def validJob (job : Option Json) : Bool :=
  match jobIdText job, jobBlobText job, jsonStringValue (jsonObjectGet job "target") with
  | some _, some hexblob, some target =>
    hexblob ≠ [] && (decodeBlob hexblob).isSome && (hex2bin target 4).2
  | _, _, _ => false

def lastValid (handled : List Handled) : Option (Option Json) :=
  (handled.find? fun h => validJob h.job).map Handled.job

/-- The message whose fields the works of a message may carry: for an empty
blob the last valid one, otherwise a valid one, itself included. -/
def IsSource (older : List Handled) (job source : Option Json) : Prop :=
  if jobBlobText job = some [] then lastValid older = some source
  else source ∈ job :: older.map Handled.job ∧ validJob source = true

structure Justified (older : List Handled) (h : Handled) : Prop where
  rejected : h.accepted = false → h.works = [] ∧ h.after.rpc2Blob = h.before.rpc2Blob ∧
    h.after.rpc2Target = h.before.rpc2Target ∧ h.after.rpc2JobId = h.before.rpc2JobId
  staged : ∀ work ∈ h.works, work.jobId ≠ none ∧ ∃ source, IsSource older h.job source ∧
    Isolated totalDevices isNicehashPool ⟨pool, source, true, work⟩

def AllJustified : List Handled → Prop
  | [] => True
  | h :: older => Justified totalDevices isNicehashPool pool older h ∧ AllJustified older

/-- Every work staged so far carries one valid message, and no rejected message
has staged or changed anything. -/
structure Staged (s : World) : Prop where
  defined : s.undefined = false
  handled : AllJustified totalDevices isNicehashPool pool s.handled

/-- A valid message, or an empty blob behind a valid message of target zero. -/
def Decodable (s : World) (job : Option Json) : Prop :=
  validJob job = true ∨
    (jobBlobText job = some [] ∧ (jsonObjectGet job "job_id").isSome = true ∧
      ∃ last ∈ lastValid s.handled, jobTarget last = 0)

instance (s : World) (job : Option Json) : Decidable (Decodable s job) :=
  inferInstanceAs (Decidable (validJob job = true ∨
    (jobBlobText job = some [] ∧ (jsonObjectGet job "job_id").isSome = true ∧
      ∃ last ∈ lastValid s.handled, jobTarget last = 0)))

/-- The globals hold the strings of a message. -/
def Published (globals : Globals) (job : Option Json) : Prop :=
  ∃ hexblob blob id, jobBlobText job = some hexblob ∧ globals.rpc2Blob = some blob ∧
    blob.bytes = unhex hexblob ∧ jobIdText job = some id ∧ globals.rpc2JobId = some id

structure Inv (s : World) : Prop where
  staged : Staged totalDevices isNicehashPool pool s
  published : ∀ last, lastValid s.handled = some last → Published s.globals last

/-- The fields of a valid message. -/
theorem validJob_fields (job : Option Json) (valid : validJob job = true) :
    ∃ id hexblob blob, jobIdText job = some id ∧ jobBlobText job = some hexblob ∧ hexblob ≠ [] ∧
      decodeBlob hexblob = some blob := by
  unfold validJob at valid
  split at valid
  · next id hexblob target idText blobText _ =>
    simp only [Bool.and_eq_true, decide_eq_true_eq, Option.isSome_iff_exists] at valid
    obtain ⟨⟨nonempty, blob, decoded⟩, _⟩ := valid
    exact ⟨id, hexblob, blob, idText, blobText, nonempty, decoded⟩
  · cases valid

/-- A blob that decodes passes the length test. -/
theorem validLength_of_decodeBlob (hexblob : Bytes) (blob : Blob)
    (decoded : decodeBlob hexblob = some blob) :
    invalidBlobLength hexblob.length = false := by
  unfold decodeBlob at decoded
  split at decoded
  · next conditions => exact conditions.1
  · cases decoded

/-- The copies behind the locked section take what is published. -/
theorem rpc2JobDecode_of_published (g next : Globals) (job : Option Json) (work : Work)
    (target : Nat) (blob : Blob) (id : Bytes)
    (published : publishJob g job = some (next, some target))
    (storedBlob : next.rpc2Blob = some blob) (storedId : next.rpc2JobId = some id)
    (zeroed : work.data = .zero 128) :
    ∃ out, rpc2JobDecode g job work = some (next, out, true) ∧ out.target = targetBytes target ∧
      out.data.bytes = overwrite (List.replicate 128 0) 0 blob.bytes ∧ out.jobId = some id := by
  simp only [rpc2JobDecode, published, copyBlob, storedBlob, Option.map_some, copyJobId,
    storedId, zeroed]
  exact ⟨_, rfl, rfl, rfl, rfl⟩

/-- A valid message is published and its work carries it. -/
theorem rpc2JobDecode_valid (g : Globals) (job : Option Json) (work : Work)
    (valid : validJob job = true) (zeroed : work.data = .zero 128) :
    ∃ next out, rpc2JobDecode g job work = some (next, out, true) ∧ Published next job ∧
      HasBlob job out ∧ out.jobId = jobIdText job := by
  obtain ⟨id, hexblob, blob, idText, blobText, nonempty, decoded⟩ := validJob_fields job valid
  have bytes := (decodeBlob_some hexblob blob decoded).1
  have fits := validLength_of_decodeBlob hexblob blob decoded
  have published : ∃ next, publishJob g job = some (next, some (jobTarget job)) ∧
      next.rpc2Blob = some blob ∧ next.rpc2JobId = some id := by
    have ids := idText
    have blobs := blobText
    unfold jobIdText at ids
    unfold jobBlobText at blobs
    unfold publishJob
    cases idVal : jsonObjectGet job "job_id" with
    | none => simp [idVal, jsonStringValue] at ids
    | some jobId =>
      cases blobVal : jsonObjectGet job "blob" with
      | none => simp [blobVal, jsonStringValue] at blobs
      | some blobJson =>
        rw [idVal] at ids
        rw [blobVal] at blobs
        simp only [blobs, fits, nonempty, decoded, ids, Bool.false_eq_true, if_false]
        exact ⟨_, rfl, rfl, rfl⟩
  obtain ⟨next, done, storedBlob, storedId⟩ := published
  obtain ⟨out, result, target, data, named⟩ :=
    rpc2JobDecode_of_published g next job work _ blob id done storedBlob storedId zeroed
  rw [bytes] at data
  exact ⟨next, out, result, ⟨hexblob, blob, id, blobText, storedBlob, bytes, idText, storedId⟩,
    ⟨target, hexblob, blobText, data⟩, named.trans idText.symm⟩

/-- An empty blob changes nothing; its work carries what was published last,
under target zero. -/
theorem rpc2JobDecode_empty (g : Globals) (job last : Option Json) (work : Work)
    (empty : jobBlobText job = some []) (named : (jsonObjectGet job "job_id").isSome = true)
    (held : Published g last) (zeroTarget : jobTarget last = 0) (zeroed : work.data = .zero 128) :
    ∃ out, rpc2JobDecode g job work = some (g, out, true) ∧ HasBlob last out ∧
      out.jobId = jobIdText last := by
  obtain ⟨hexblob, blob, id, blobText, storedBlob, bytes, idText, storedId⟩ := held
  have published : publishJob g job = some (g, some 0) := by
    obtain ⟨jobId, idVal⟩ := Option.isSome_iff_exists.mp named
    unfold jobBlobText at empty
    unfold publishJob
    cases blobVal : jsonObjectGet job "blob" with
    | none => simp [blobVal, jsonStringValue] at empty
    | some blobJson =>
      rw [blobVal] at empty
      simp only [idVal, empty, List.length_nil]
      rfl
  obtain ⟨out, result, target, data, kept⟩ :=
    rpc2JobDecode_of_published g g job work 0 blob id published storedBlob storedId zeroed
  rw [bytes] at data
  rw [← zeroTarget] at target
  exact ⟨out, result, ⟨target, hexblob, blobText, data⟩, kept.trans idText.symm⟩

/-- Rejection leaves the globals and the work as they were. -/
theorem rpc2JobDecode_rejected (g next : Globals) (job : Option Json) (work out : Work)
    (rejected : rpc2JobDecode g job work = some (next, out, false)) : next = g ∧ out = work := by
  unfold rpc2JobDecode at rejected
  split at rejected
  · cases rejected
  · next published =>
    cases rejected
    rcases publishJob_cases _ _ _ _ published with ⟨same, _⟩ | ⟨_, impossible, _⟩ | ⟨_, _, _, rest⟩
    · exact ⟨same, rfl⟩
    · cases impossible
    · obtain ⟨_, _, _, _, _, impossible, _⟩ := rest
      cases impossible
  · next target published =>
    split at rejected
    · next missing =>
      cases rejected
      rcases publishJob_cases _ _ _ _ published with ⟨same, _⟩ | ⟨same, _⟩ | ⟨_, blob, _, rest⟩
      · exact ⟨same, rfl⟩
      · exact ⟨same, rfl⟩
      · obtain ⟨_, _, _, _, _, _, stored, _⟩ := rest
        simp [copyBlob, stored] at missing
    · simp only [Option.map_eq_some_iff, Prod.mk.injEq] at rejected
      obtain ⟨_, _, _, _, impossible⟩ := rejected
      cases impossible

/-- The works of an accepted message that carry one source. -/
theorem justified_of_source (older : List Handled) (job source : Option Json)
    (before after : Globals) (work : Work) (id : Bytes) (blob : HasBlob source work)
    (jobId : work.jobId = jobIdText source) (named : jobIdText source = some id)
    (isSource : IsSource older job source) :
    Justified totalDevices isNicehashPool pool older
      ⟨job, true, before, after, deviceWorks (isNicehashPool pool) totalDevices work⟩ := by
  refine ⟨nofun, fun copy member => ⟨?_, source, isSource, ?_⟩⟩
  · obtain ⟨device, _, rfl⟩ := List.mem_map.mp member
    have kept : (deviceWork (isNicehashPool pool) totalDevices work device).jobId = some id :=
      jobId.trans named
    rw [kept]
    exact Option.some_ne_none id
  · exact deviceWorks_isolated totalDevices isNicehashPool pool source work copy blob jobId member

theorem step_inv (s : World) (job : Option Json) (next : World)
    (inv : Inv totalDevices isNicehashPool pool s) (decodable : Decodable s job)
    (taken : step totalDevices isNicehashPool pool s job = some next) :
    Inv totalDevices isNicehashPool pool next := by
  have zeroed : (jobWork pool).data = .zero 128 := rfl
  rcases decodable with valid | ⟨empty, named, last, found, target⟩
  · obtain ⟨after, work, decoded, held, blob, jobId⟩ :=
      rpc2JobDecode_valid s.globals job (jobWork pool) valid zeroed
    obtain ⟨id, hexblob, _, idText, blobText, nonempty, _⟩ := validJob_fields job valid
    simp only [step, genGetworkWork, decoded, Option.map_some] at taken
    cases taken
    have isSource : IsSource s.handled job job := by
      rw [IsSource, if_neg (by simp [blobText, nonempty])]
      exact ⟨List.mem_cons_self, valid⟩
    refine ⟨⟨inv.staged.defined, ?_, inv.staged.handled⟩, ?_⟩
    · exact justified_of_source totalDevices isNicehashPool pool s.handled job job s.globals
        after work id
        blob jobId idText isSource
    · intro last found
      simp only [lastValid, List.find?_cons, valid, Option.map_some, Option.some.injEq] at found
      rw [← found]
      exact held
  · have held := inv.published last found
    obtain ⟨_, _, id, _, _, _, idText, _⟩ := held
    obtain ⟨work, decoded, blob, jobId⟩ :=
      rpc2JobDecode_empty s.globals job last (jobWork pool) empty named
      (inv.published last found) target zeroed
    simp only [step, genGetworkWork, decoded, Option.map_some] at taken
    cases taken
    have isSource : IsSource s.handled job last := by
      rw [IsSource, if_pos empty]
      exact found
    have notValid : validJob job = false := by
      by_contra valid
      rw [Bool.not_eq_false] at valid
      obtain ⟨_, hexblob, _, _, blobText, nonempty, _⟩ := validJob_fields job valid
      rw [empty, Option.some.injEq] at blobText
      exact nonempty blobText.symm
    refine ⟨⟨inv.staged.defined, ?_, inv.staged.handled⟩, ?_⟩
    · exact justified_of_source totalDevices isNicehashPool pool s.handled job last s.globals
        s.globals work
        id blob jobId idText isSource
    · intro other same
      simp only [lastValid, List.find?_cons, notValid] at same
      exact inv.published other same

theorem inv_start : Inv totalDevices isNicehashPool pool start :=
  ⟨⟨rfl, trivial⟩, fun _ found => by simp [start, lastValid] at found⟩

/-- In a run of decodable messages every staged work carries one valid message. -/
theorem only_valid_jobs_staged (jobs : List (Option Json))
    (decodable : Guarded (step totalDevices isNicehashPool pool) Decodable start jobs) :
    Always (step totalDevices isNicehashPool pool) (Staged totalDevices isNicehashPool pool)
      start jobs :=
  always_mono (fun _ inv => inv.staged)
    (always_of_guarded (step_inv totalDevices isNicehashPool pool)
      (inv_start totalDevices isNicehashPool pool)
      decodable)

/-- A valid message of target zero, its update with an empty blob, and a valid
message of another target. -/
def job (blob target : Bytes) : Option Json :=
  some (.object [("job_id", .string [0x61]), ("blob", .string blob), ("target", .string target)])

theorem valid_jobs_staged :
    Always (step 1 (fun _ => false) 0) (Staged 1 (fun _ => false) 0) start
      [job (List.replicate 80 0x30) (List.replicate 8 0x30), job [] (List.replicate 8 0x30),
        job (List.replicate 80 0x31) (List.replicate 8 0x66)] :=
  only_valid_jobs_staged 1 (fun _ => false) 0 _ (by decide +kernel)

/-- A message without a job id is rejected, and a work without one is staged. -/
theorem rejected_job_staged :
    ∃ s h work, run (step 1 (fun _ => false) 0) start [some (.object [])] = some s ∧
      s.handled = [h] ∧ h.accepted = false ∧ h.works = [work] ∧ work.jobId = none ∧
      ¬ Always (step 1 (fun _ => false) 0) (Staged 1 (fun _ => false) 0)
        start [some (.object [])] := by
  refine ⟨_, _, _, rfl, rfl, rfl, rfl, rfl, fun staged => ?_⟩
  have final := (always_final staged rfl).handled
  have nothing := (final.1.rejected rfl).1
  cases nothing

end CgminerT4.Guarantees.StagedJobs
