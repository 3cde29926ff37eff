import CgminerT4.Source.ShareSubmission
import Mathlib.Tactic.Ring

/-!
# Shares and the target

fulltest is the comparison of the two numbers. submit_noffset_nonce and
submit_nonce_hash make it before they submit; submit_nonce leaves it out, so its
shares meet the target, and it agrees with submit_noffset_nonce, exactly when
the hash of the nonce does. A build for neither A5 nor A6, as the one for A8,
has no test at all.
-/
namespace CgminerT4.Guarantees.TargetGate
open Library.ByteString Source.Hex Source.WorkItem Source.WorkRoll Source.ShareSubmission
open Source.ShareSender (newNonce)
open Source.StratumSend (Chip)

/-! ## The comparison -/

theorem compare_parts (base low high low' high' : Nat) (lowBound : low < base)
    (lowBound' : low' < base) :
    low + base * high ≤ low' + base * high' ↔ high < high' ∨ (high = high' ∧ low ≤ low') := by
  rcases Nat.lt_trichotomy high high' with less | rfl | greater
  · have scaled : base * (high + 1) ≤ base * high' := Nat.mul_le_mul_left base less
    rw [Nat.mul_succ] at scaled
    exact iff_of_true (by omega) (Or.inl less)
  · constructor
    · intro below
      exact Or.inr ⟨rfl, by omega⟩
    · rintro (never | ⟨_, below⟩)
      · exact absurd never (Nat.lt_irrefl high)
      · omega
  · have scaled : base * (high' + 1) ≤ base * high := Nat.mul_le_mul_left base greater
    rw [Nat.mul_succ] at scaled
    exact iff_of_false (by omega) (by omega)

theorem take_words (buf : Buffer 32) (i : Nat) (inside : 4 * i ≤ 32) :
    ofLittleEndian (buf.bytes.take (4 * (i + 1))) =
      ofLittleEndian (buf.bytes.take (4 * i)) + 256 ^ (4 * i) * word32 buf i := by
  have length : (buf.bytes.take (4 * i)).length = 4 * i := by
    rw [List.length_take, buf.length_eq]
    omega
  have split : buf.bytes.take (4 * (i + 1)) =
      buf.bytes.take (4 * i) ++ (buf.bytes.drop (4 * i)).take 4 :=
    List.take_add
  rw [split, ofLittleEndian_append, length]
  rfl

/-- The words below `i` decide as the number they make up. -/
theorem compareWords_eq (hash target : Buffer 32) (i : Nat) (inside : 4 * i ≤ 32) :
    compareWords hash target i =
      decide (ofLittleEndian (hash.bytes.take (4 * i)) ≤
        ofLittleEndian (target.bytes.take (4 * i))) := by
  induction i with
  | zero => simp [compareWords]
  | succ i ih =>
    have room : 4 * i ≤ 32 := by omega
    have bound : ∀ buf : Buffer 32, ofLittleEndian (buf.bytes.take (4 * i)) < 256 ^ (4 * i) := by
      intro buf
      have bounded := ofLittleEndian_lt (buf.bytes.take (4 * i))
      rw [List.length_take, buf.length_eq, Nat.min_eq_left room] at bounded
      exact bounded
    rw [take_words hash i room, take_words target i room]
    rw [decide_eq_decide.mpr (compare_parts _ _ _ _ _ (bound hash) (bound target))]
    unfold compareWords
    split
    · next greater => exact (decide_eq_false (by omega)).symm
    · split
      · next less => exact (decide_eq_true (Or.inl less)).symm
      · have same : word32 hash i = word32 target i := by omega
        rw [ih room, same]
        simp

theorem fulltest_eq (hash target : Buffer 32) :
    fulltest hash target = decide (ofLittleEndian hash.bytes ≤ ofLittleEndian target.bytes) := by
  have whole : ∀ buf : Buffer 32, buf.bytes.take (4 * 8) = buf.bytes := by
    intro buf
    exact List.take_of_length_le (Nat.le_of_eq buf.length_eq)
  unfold fulltest
  rw [compareWords_eq hash target 8 (by decide), whole hash, whole target]

/-- A hash passes exactly if its number is at most that of the target. -/
theorem fulltest_iff (hash target : Buffer 32) :
    fulltest hash target = true ↔ ofLittleEndian hash.bytes ≤ ofLittleEndian target.bytes := by
  rw [fulltest_eq, decide_eq_true_iff]

/-! ## The three paths -/

variable (chip : Chip) (sha256 scrypt : Bytes → Buffer 32) (foundBlock : RollWork → Bool)

def meetsTarget (work : RollWork) : Bool := fulltest work.hash work.target

/-- The work with the nonce and its hash filled in, when it passes test_nonce. -/
def passing (work : RollWork) (nonce : UInt32) : Option RollWork :=
  (testNonce chip sha256 scrypt work nonce).bind fun (tested, valid) =>
    if valid then some tested else none

/-- The work a call gives to submit_work_async. -/
def nonceShare (lastNonce : UInt32) (work : RollWork) (nonce : UInt32) : Option RollWork :=
  (submitNonce chip sha256 scrypt foundBlock lastNonce work nonce).bind fun call => call.submitted

def noffsetShare (work : RollWork) (nonce : UInt32) (noffset : Int) : Option RollWork :=
  (submitNoffsetNonce chip sha256 scrypt foundBlock work nonce noffset).bind fun call =>
    call.submitted

def hashShare (work : RollWork) (nonce : Buffer 4) (hash : Buffer 32) : Option RollWork :=
  (submitNonceHash foundBlock work nonce hash).bind fun (_, call) => call.submitted

theorem meetsTarget_updateWorkStats (work : RollWork) :
    meetsTarget (updateWorkStats foundBlock work) = meetsTarget work := by
  unfold meetsTarget updateWorkStats
  split <;> rfl

theorem submitTestedWork_eq (work : RollWork) :
    submitTestedWork foundBlock work =
      some (updateWorkStats foundBlock work,
        ⟨some (updateWorkStats foundBlock work), false, true⟩) := by
  unfold submitTestedWork
  dsimp only
  rw [copyWork_eq]
  rfl

/-- submit_nonce submits every new nonce that passes the difficulty 1 test. -/
theorem nonceShare_eq (lastNonce nonce : UInt32) (work : RollWork) :
    nonceShare chip sha256 scrypt foundBlock lastNonce work nonce =
      if lastNonce = nonce then none
      else (passing chip sha256 scrypt work nonce).map (updateWorkStats foundBlock) := by
  unfold nonceShare submitNonce newNonce passing
  by_cases repeated : lastNonce = nonce
  · rw [if_pos repeated, if_pos repeated]
    rfl
  · rw [if_neg repeated, if_neg repeated]
    dsimp only
    cases testNonce chip sha256 scrypt work nonce with
    | none => rfl
    | some result =>
      obtain ⟨tested, valid⟩ := result
      cases valid with
      | false => rfl
      | true =>
        rw [Option.bind_some, if_pos rfl, submitTestedWork_eq]
        rfl

/-- submit_noffset_nonce submits what passes and meets the target. -/
theorem noffsetShare_eq (work : RollWork) (nonce : UInt32) (noffset : Int) :
    noffsetShare chip sha256 scrypt foundBlock work nonce noffset =
      (copyWorkNoffset work noffset).bind fun copied =>
        ((passing chip sha256 scrypt copied nonce).filter meetsTarget).map
        (updateWorkStats foundBlock) := by
  unfold noffsetShare submitNoffsetNonce passing
  cases copyWorkNoffset work noffset with
  | none => rfl
  | some copied =>
    rw [Option.bind_some, Option.bind_some]
    cases testNonce chip sha256 scrypt copied nonce with
    | none => rfl
    | some result =>
      obtain ⟨tested, valid⟩ := result
      cases valid with
      | false => rfl
      | true =>
        have same := meetsTarget_updateWorkStats foundBlock tested
        unfold meetsTarget at same
        simp only [Option.map_some, Option.bind_some, Option.filter_some, Bool.not_true,
          Bool.false_eq_true, if_false, if_true, same]
        unfold meetsTarget
        cases fulltest tested.hash tested.target <;> rfl

theorem hashShare_eq (work : RollWork) (nonce : Buffer 4) (hash : Buffer 32) :
    hashShare foundBlock work nonce hash =
      if fulltest hash work.target then
        some (updateWorkStats foundBlock { work with nonce := be32toh nonce.bytes, hash })
      else none := by
  unfold hashShare submitNonceHash
  split
  · rw [submitTestedWork_eq]
    rfl
  · rfl

/-! ## The gate -/

/-- The calls have a result, whatever reaches submit_work_async meets its target,
and the two ways of submitting a new nonce agree. -/
structure Gated (lastNonce : UInt32) (work : RollWork) (nonce : UInt32) : Prop where
  submits : (submitNonce chip sha256 scrypt foundBlock lastNonce work nonce).isSome = true
  offsets : ∀ noffset,
    (submitNoffsetNonce chip sha256 scrypt foundBlock work nonce noffset).isSome = true
  tested : ∀ share ∈ nonceShare chip sha256 scrypt foundBlock lastNonce work nonce,
    meetsTarget share
  noffset : ∀ noffset, ∀ share ∈ noffsetShare chip sha256 scrypt foundBlock work nonce noffset,
    meetsTarget share
  hashed : ∀ bytes hash, ∀ share ∈ hashShare foundBlock work bytes hash, meetsTarget share
  agree : nonce ≠ lastNonce →
    ((nonceShare chip sha256 scrypt foundBlock lastNonce work nonce).isSome ↔
      (noffsetShare chip sha256 scrypt foundBlock work nonce 0).isSome)

/-- The build is for a chip whose hash the host computes, and the ntime string, if
there is one, starts with eight digits. -/
structure HostTested (work : RollWork) : Prop where
  chip : chip ≠ .other
  ntime : ∀ ntime ∈ work.ntime, (hex2bin ntime 4).1.length = 4

/-- A new nonce that passes test_nonce has a hash that meets the target of the work. -/
def HashMeetsTarget (lastNonce : UInt32) (work : RollWork) (nonce : UInt32) : Prop :=
  nonce ≠ lastNonce → ∀ tested ∈ passing chip sha256 scrypt work nonce, meetsTarget tested

theorem testNonce_isSome (work : RollWork) (nonce : UInt32) :
    (testNonce chip sha256 scrypt work nonce).isSome = true ↔ chip ≠ .other := by
  cases chip with
  | A5 => exact iff_of_true rfl nofun
  | A6 => exact iff_of_true rfl nofun
  | other => exact iff_of_false Bool.false_ne_true fun never => never rfl

theorem submitNonce_isSome (lastNonce nonce : UInt32) (work : RollWork) (tested : chip ≠ .other) :
    (submitNonce chip sha256 scrypt foundBlock lastNonce work nonce).isSome = true := by
  unfold submitNonce
  split
  · rfl
  · obtain ⟨⟨rebuilt, valid⟩, result⟩ :=
      Option.isSome_iff_exists.mp ((testNonce_isSome chip sha256 scrypt work nonce).mpr tested)
    rw [result, Option.bind_some]
    dsimp only
    split
    · rw [submitTestedWork_eq]
      rfl
    · rfl

theorem copyWorkNoffset_isSome (work : RollWork) :
    (∀ noffset, (copyWorkNoffset work noffset).isSome = true) ↔
      ∀ ntime ∈ work.ntime, (hex2bin ntime 4).1.length = 4 := by
  constructor
  · intro copies ntime present
    have offset := copies 1
    rw [copyWorkNoffset, if_neg (by decide), Option.isSome_map, Option.mem_def.mp present,
      offsetString, Option.isSome_map, offsetNtime] at offset
    by_contra short
    rw [if_neg short] at offset
    exact Bool.false_ne_true offset
  · intro digits noffset
    unfold copyWorkNoffset
    split
    · rfl
    · rw [Option.isSome_map]
      cases present : work.ntime with
      | none => rfl
      | some ntime =>
        rw [offsetString, Option.isSome_map, offsetNtime, if_pos (digits ntime present),
          Option.isSome_some]

theorem submitNoffsetNonce_isSome (work : RollWork) (nonce : UInt32) :
    (∀ noffset,
      (submitNoffsetNonce chip sha256 scrypt foundBlock work nonce noffset).isSome = true) ↔
      HostTested chip work := by
  have parts :
      ∀ noffset,
      (submitNoffsetNonce chip sha256 scrypt foundBlock work nonce noffset).isSome = true ↔
      (copyWorkNoffset work noffset).isSome = true ∧ chip ≠ .other := by
    intro noffset
    unfold submitNoffsetNonce
    cases copyWorkNoffset work noffset with
    | none => exact iff_of_false Bool.false_ne_true fun both => Bool.false_ne_true both.1
    | some copied =>
      rw [Option.bind_some, Option.isSome_map, testNonce_isSome]
      exact ⟨fun tested => ⟨rfl, tested⟩, And.right⟩
  simp only [parts]
  constructor
  · intro all
    exact ⟨(all 0).2, (copyWorkNoffset_isSome work).mp fun noffset => (all noffset).1⟩
  · intro host noffset
    exact ⟨(copyWorkNoffset_isSome work).mpr host.ntime noffset, host.chip⟩

theorem noffsetShare_meets (work : RollWork) (nonce : UInt32) (noffset : Int) (share : RollWork)
    (submitted : share ∈ noffsetShare chip sha256 scrypt foundBlock work nonce noffset) :
    meetsTarget share := by
  rw [noffsetShare_eq] at submitted
  obtain ⟨copied, _, rest⟩ := Option.bind_eq_some_iff.mp submitted
  obtain ⟨tested, kept, rfl⟩ := Option.map_eq_some_iff.mp rest
  rw [meetsTarget_updateWorkStats]
  exact (Option.filter_eq_some_iff.mp kept).2

theorem hashShare_meets (work : RollWork) (nonce : Buffer 4) (hash : Buffer 32) (share : RollWork)
    (submitted : share ∈ hashShare foundBlock work nonce hash) : meetsTarget share := by
  rw [hashShare_eq] at submitted
  split at submitted
  · next meets =>
    cases submitted
    rw [meetsTarget_updateWorkStats]
    exact meets
  · cases submitted

/-- Without an offset the copy is tested as the work itself. -/
theorem noffsetShare_zero (work : RollWork) (nonce : UInt32) :
    noffsetShare chip sha256 scrypt foundBlock work nonce 0 =
      ((passing chip sha256 scrypt work nonce).filter meetsTarget).map
      (updateWorkStats foundBlock) := by
  rw [noffsetShare_eq]
  have copied : copyWorkNoffset work 0 = some work := copyWork_eq work
  rw [copied]
  rfl

theorem target_gate_iff (lastNonce : UInt32) (work : RollWork) (nonce : UInt32) :
    Gated chip sha256 scrypt foundBlock lastNonce work nonce ↔
      HostTested chip work ∧ HashMeetsTarget chip sha256 scrypt lastNonce work nonce := by
  have offsets := submitNoffsetNonce_isSome chip sha256 scrypt foundBlock work nonce
  constructor
  · intro gated
    refine ⟨offsets.mp gated.offsets, fun fresh tested passed => ?_⟩
    have share := nonceShare_eq chip sha256 scrypt foundBlock lastNonce nonce work
    rw [if_neg fresh.symm, passed] at share
    have meets := gated.tested _ share
    rwa [meetsTarget_updateWorkStats] at meets
  · rintro ⟨host, meets⟩
    refine ⟨submitNonce_isSome chip sha256 scrypt foundBlock lastNonce nonce work host.chip,
      offsets.mpr host,
      fun share submitted => ?_, noffsetShare_meets chip sha256 scrypt foundBlock work nonce,
      hashShare_meets foundBlock work, fun fresh => ?_⟩
    · rw [nonceShare_eq] at submitted
      split at submitted
      · cases submitted
      · next fresh =>
        obtain ⟨tested, passed, rfl⟩ := Option.map_eq_some_iff.mp submitted
        rw [meetsTarget_updateWorkStats]
        exact meets (fun same => fresh same.symm) tested passed
    · rw [nonceShare_eq, noffsetShare_zero, if_neg fresh.symm, Option.isSome_map, Option.isSome_map]
      cases passed : passing chip sha256 scrypt work nonce with
      | none => exact Iff.rfl
      | some tested => rw [Option.filter_some, if_pos (meets fresh tested passed)]

/-! ## A share above its target -/

/-- The header of the first block in the order of the words of `data`, without its nonce. -/
def firstBlockData : Buffer 128 :=
  ⟨[0, 0, 0, 1] ++ List.replicate 32 0 ++
    [0xFD, 0xED, 0xA3, 0x3B, 0xB2, 0x12, 0x7B, 0x7A, 0x3E, 0x2C, 0xC7, 0x7A, 0x61, 0x8F, 0x76, 0x67,
     0xC3, 0x1B, 0xC8, 0x7F, 0x32, 0x51, 0x8A, 0x88, 0xAA, 0xB8, 0x9F, 0x3A, 0x4A, 0x5E, 0x1E, 0x4B,
     0x49, 0x5F, 0xAB, 0x29, 0x1D, 0x00, 0xFF, 0xFF] ++
    List.replicate 52 0, by decide +kernel⟩

/-- SHA-256 of the header, and of that digest. -/
def firstDigest : Buffer 32 :=
  ⟨[0xAF, 0x42, 0x03, 0x1E, 0x80, 0x5F, 0xF4, 0x93, 0xA0, 0x73, 0x41, 0xE2, 0xF7, 0x4F, 0xF5, 0x81,
     0x49, 0xD2, 0x2A, 0xB9, 0xBA, 0x19, 0xF6, 0x13, 0x43, 0xE2, 0xC8, 0x6C, 0x71, 0xC5, 0xD6,
     0x6D], by decide⟩

def firstBlockHash : Buffer 32 :=
  ⟨[0x6F, 0xE2, 0x8C, 0x0A, 0xB6, 0xF1, 0xB3, 0x72, 0xC1, 0xA6, 0xA2, 0x46, 0xAE, 0x63, 0xF7, 0x4F,
     0x93, 0x1E, 0x83, 0x65, 0xE1, 0x5A, 0x08, 0x9C, 0x68, 0xD6, 0x19, 0x00, 0x00, 0x00, 0x00,
     0x00], by decide⟩

def firstSha256 (bytes : Bytes) : Buffer 32 :=
  if bytes = firstDigest.bytes then firstBlockHash else firstDigest

/-- The target of difficulty 4096. -/
def harderTarget : Buffer 32 :=
  ⟨List.replicate 24 0 ++ [0xF0, 0xFF, 0x0F, 0] ++ List.replicate 4 0, by decide⟩

def firstWork : RollWork :=
  { makeWork with
    data := firstBlockData
    target := harderTarget
    rolls := .zero
    rolltime := 0
    clone := false
    mandatory := false
    tvStaged := 0 }

/-- Its nonce solves difficulty 1 and about 2536, not 4096. -/
theorem above_target_submitted :
    ¬ Gated .A5 firstSha256 (fun _ => .zero 32) (fun _ => false) 0 firstWork 0x1DAC2B7C := by
  intro gated
  have same := gated.agree (by decide)
  exact absurd same (by decide +kernel)

end CgminerT4.Guarantees.TargetGate
