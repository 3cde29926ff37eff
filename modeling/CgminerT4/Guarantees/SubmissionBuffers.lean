import CgminerT4.Guarantees.BlockSubmission
import CgminerT4.Source.GetworkJob
import CgminerT4.Source.GetworkSubmit

/-!
# The buffers of a submission

The block of a pool's own coinbase is written with its whole hex, and a getwork
request with the whole session and job ids. Nothing limits these strings where
they are accepted. A solo coinbase is short enough by its construction.
-/
namespace CgminerT4.Guarantees.SubmissionBuffers
open Library.ByteString Library.Runs Source.Jansson Source.Hex Source.WorkItem Source.GbtMerkle
  Source.GbtTemplate
open Source.BlockSubmit Source.SessionTable Source.GetworkJob Source.GetworkSubmit BlockSubmission

/-- The work's block fits `gbt_block`, and the request up to it fits `s`. -/
def BlockFits (work : GbtWork) : Prop :=
  ∃ block, gbtBlock work = some block ∧ (submitPrefix ++ block).length < 1024

theorem blockFits_iff (work : GbtWork) (bytes : Bytes)
    (kept : work.coinbase = some (bin2hex bytes)) :
    BlockFits work ↔ 207 + (varint work.gbtTxns).length + 2 * bytes.length < 1024 := by
  have front : submitPrefix.length = 47 := by decide +kernel
  have size : (bin2hex (flip80 work.data) ++ varint work.gbtTxns ++ bin2hex bytes).length =
      160 + (varint work.gbtTxns).length + 2 * bytes.length := by
    rw [List.length_append, List.length_append, length_bin2hex, length_flip80, length_bin2hex]
  unfold BlockFits gbtBlock
  rw [kept]
  dsimp only [Option.bind_some]
  rw [size]
  constructor
  · rintro ⟨block, written, fits⟩
    split at written
    · cases written
      rw [List.length_append, front, size] at fits
      omega
    · cases written
  · intro fits
    rw [if_pos (by omega)]
    refine ⟨_, rfl, ?_⟩
    rw [List.length_append, front, size]
    omega

/-- The count of a pool with submit/coinbase support is one, and a solo coinbase
has at most 259 bytes. -/
theorem works_fit_iff (s : World) (work : GbtWork) (inv : Inv s) (member : work ∈ s.works) :
    BlockFits work ↔ (hasGbt s.pool = true → s.pool.coinbase.length ≤ 407) := by
  obtain ⟨txns, template, made⟩ := inv.made work member
  obtain ⟨bytes, string, size⟩ := made.coinbase
  have counted := made.counted
  rw [blockFits_iff work bytes string, size]
  cases mode : hasGbt s.pool with
  | true =>
    rw [mode, if_pos rfl] at counted
    have width : (varint work.gbtTxns).length = 2 := by
      rw [varint_eq work.gbtTxns 1 counted, length_bin2hex]
      rfl
    rw [width]
    constructor
    · intro fits _
      omega
    · intro short
      have bound := short rfl
      omega
  | false =>
    have short := (inv.kept txns template mode).coinbase
    have width := length_varint_le work.gbtTxns
    exact iff_of_true (by omega) fun never => by cases never

/-! ## The getwork request -/

/-- What the formats take without the strings. -/
def formatLength (isNicehashPool : Bool) : Nat := if isNicehashPool then 181 else 162

theorem length_submitText (isNicehashPool : Bool) (rpc2Id jobId : Bytes) (work : Work)
    (sshareId : Nat) :
    (submitText isNicehashPool rpc2Id jobId work sshareId).length =
      formatLength isNicehashPool + rpc2Id.length + jobId.length + (decimal sshareId).length := by
  have nonce : (noncehex work).length = 8 := by
    rw [noncehex, length_bin2hex, length_littleEndian]
  have hash : (hashhex work).length = 64 := by
    rw [hashhex, length_bin2hex, work.hash.length_eq]
  have method : (submitMethod false).length = 31 ∧ (submitMethod true).length = 50 := by
    decide +kernel
  have parts : (ascii "\x7b\"id\": \"").length = 8 ∧ (ascii "\", \"job_id\": \"").length = 14 ∧
      (ascii "\", \"nonce\": \"").length = 13 ∧ (ascii "\", \"result\": \"").length = 14 ∧
      (ascii "\"\x7d,\"id\":").length = 8 ∧ (ascii "\x7d\n").length = 2 := by decide +kernel
  obtain ⟨id, job, nonceName, result, share, close⟩ := parts
  unfold submitText formatLength
  simp only [List.length_append, id, job, nonceName, result, share, close, nonce, hash]
  cases isNicehashPool with
  | false =>
    rw [method.1]
    simp only [Bool.false_eq_true, if_false]
    omega
  | true =>
    rw [method.2]
    simp only [if_true]
    omega

/-- The session id ends inside the table, and the three strings leave room. -/
def Short (isNicehashPool : Bool) (rpc2Id : SessionIds) (poolNo : PoolNo) (work : Work)
    (sshareId : Nat) : Prop :=
  0 ∈ rpc2Id.bytes.drop (64 * poolNo) ∧ ∀ jobId ∈ work.jobId,
    formatLength isNicehashPool + (cString (rpc2Id.bytes.drop (64 * poolNo))).length +
      jobId.length +
      (decimal sshareId).length < 1024

theorem getworkSubmit_iff (isNicehashPool : Bool) (rpc2Id : SessionIds) (poolNo : PoolNo)
    (work : Work) (sshareId : Nat) (named : work.jobId.isSome = true) :
    (getworkSubmit isNicehashPool rpc2Id poolNo work sshareId).isSome = true ↔
      Short isNicehashPool rpc2Id poolNo work sshareId := by
  obtain ⟨jobId, there⟩ := Option.isSome_iff_exists.mp named
  unfold getworkSubmit Short printSessionId
  rw [there]
  by_cases ends : 0 ∈ rpc2Id.bytes.drop (64 * poolNo)
  · rw [if_pos ends]
    dsimp only [Option.bind_some]
    rw [length_submitText]
    simp only [ends, Option.mem_def, Option.some.injEq, forall_eq', true_and]
    split
    · next fits => exact iff_of_true rfl fits
    · next outside => exact iff_of_false Bool.false_ne_true outside
  · rw [if_neg ends]
    exact iff_of_false Bool.false_ne_true fun short => ends short.1

/-- An accepted job names its work. -/
theorem rpc2JobDecode_named (g next : Globals) (job : Option Json) (work made : Work)
    (decoded : rpc2JobDecode g job work = some (next, made, true)) : made.jobId.isSome = true := by
  unfold rpc2JobDecode at decoded
  split at decoded
  · cases decoded
  · cases decoded
  · split at decoded
    · cases decoded
    · next published target result copied blob =>
      obtain ⟨named, found, same⟩ := Option.map_eq_some_iff.mp decoded
      cases same
      obtain ⟨id, _, rfl⟩ := Option.map_eq_some_iff.mp found
      rfl

variable (genHash : Bytes → Digest) (diffFromTarget : Buffer 32 → Double)

theorem submissions_fit_iff :
    (∀ poolNo gbtSolo scriptPubkey es s,
      run (step genHash diffFromTarget) (start poolNo gbtSolo scriptPubkey) es = some s →
        ∀ work ∈ s.works,
        (BlockFits work ↔ (hasGbt s.pool = true → s.pool.coinbase.length ≤ 407))) ∧
    ∀ g next job work made, rpc2JobDecode g job work = some (next, made, true) →
      ∀ isNicehashPool rpc2Id poolNo sshareId,
        ((getworkSubmit isNicehashPool rpc2Id poolNo made sshareId).isSome = true ↔
          Short isNicehashPool rpc2Id poolNo made sshareId) := by
  constructor
  · intro poolNo gbtSolo scriptPubkey es s reached work member
    have inv := always_final (always_of_invariant (step_inv genHash diffFromTarget)
      (start_inv poolNo gbtSolo scriptPubkey) es) reached
    exact works_fit_iff s work inv member
  · intro g next job work made decoded isNicehashPool rpc2Id poolNo sshareId
    exact getworkSubmit_iff isNicehashPool rpc2Id poolNo made sshareId
      (rpc2JobDecode_named g next job work made decoded)

/-- A template whose coinbase has `size` bytes and an empty script. -/
def zeroTemplate (size : Nat) : Json :=
  .object
    [("previousblockhash", .string (List.replicate 64 0x30)),
      ("target", .string (List.replicate 64 0x30)),
      ("coinbasetxn", .object [("data", .string (List.replicate (2 * size) 0x30))]),
      ("longpollid", .string [0x61]),
      ("expires", .integer 120),
      ("version", .integer 536870912),
      ("curtime", .integer 1700000000),
      ("bits", .string [0x31, 0x64, 0x30, 0x30, 0x66, 0x66, 0x66, 0x66]),
      ("transactions", .array [])]

def zeroEvents (size : Nat) : List Event :=
  [.decode (some (zeroTemplate size)) (.zero 32) ⟨0, 0⟩ none, .generate blankWork]

def zeroRun (size : Nat) : Option World :=
  run (step (fun _ => .zero 32) fun _ => 0) (start 0 false (.zero 28)) (zeroEvents size)

/-- A job, and a table with the session id of one character. -/
def zeroJob : Option Json :=
  some (.object [("job_id", .string [0x61]), ("blob", .string (List.replicate 80 0x30)),
    ("target", .string [])])

def zeroIds : SessionIds := ⟨0x62 :: List.replicate 191 0, rfl⟩

/-- A short coinbase and a short job. -/
theorem submissions_fit_short :
    (∃ s work, zeroRun 100 = some s ∧ work ∈ s.works ∧ BlockFits work) ∧
      ∃ next made, rpc2JobDecode initialGlobals zeroJob (jobWork 0) = some (next, made, true) ∧
        (getworkSubmit false zeroIds 0 made 7).isSome = true := by
  obtain ⟨blocks, jobs⟩ := submissions_fit_iff (fun _ => .zero 32) fun _ => 0
  constructor
  · have ran : (zeroRun 100).map (fun s => (s.works.length, s.pool.coinbase.length)) =
      some (1, 108) := by decide +kernel
    obtain ⟨s, reached, shape⟩ := Option.map_eq_some_iff.mp ran
    obtain ⟨one, size⟩ := Prod.mk.inj shape
    obtain ⟨work, works⟩ := List.length_eq_one_iff.mp one
    have member : work ∈ s.works := works ▸ List.mem_singleton_self work
    exact ⟨s, work, reached, member,
      (blocks 0 false (.zero 28) (zeroEvents 100) s reached work member).mpr
      fun _ => by rw [size]; decide⟩
  · have ran :
        (rpc2JobDecode initialGlobals zeroJob (jobWork 0)).map
        (fun out => (out.2.1.jobId, out.2.2)) =
        some (some [0x61], true) := by decide +kernel
    obtain ⟨⟨next, made, result⟩, decoded, shape⟩ := Option.map_eq_some_iff.mp ran
    obtain ⟨named, accepted⟩ := Prod.mk.inj shape
    dsimp only at named accepted
    subst accepted
    refine ⟨next, made, decoded, (jobs _ _ _ _ _ decoded false zeroIds 0 7).mpr ⟨?_, ?_⟩⟩
    · decide
    · rw [named]
      decide +kernel

/-- A coinbase of 500 bytes, which becomes one of 508. -/
theorem long_coinbase_unfit :
    ∃ s work, zeroRun 500 = some s ∧ work ∈ s.works ∧ ¬ BlockFits work := by
  have ran : (zeroRun 500).map (fun s => (s.works.length, s.pool.coinbase.length, hasGbt s.pool)) =
      some (1, 508, true) := by decide +kernel
  obtain ⟨s, reached, shape⟩ := Option.map_eq_some_iff.mp ran
  obtain ⟨one, rest⟩ := Prod.mk.inj shape
  obtain ⟨size, mode⟩ := Prod.mk.inj rest
  obtain ⟨work, works⟩ := List.length_eq_one_iff.mp one
  have member : work ∈ s.works := works ▸ List.mem_singleton_self work
  have inv := always_final (always_of_invariant (step_inv (fun _ => .zero 32) fun _ => 0)
    (start_inv 0 false (.zero 28)) (zeroEvents 500)) reached
  refine ⟨s, work, reached, member, fun fits => ?_⟩
  have short := (works_fit_iff s work inv member).mp fits mode
  omega

end CgminerT4.Guarantees.SubmissionBuffers
