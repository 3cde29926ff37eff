import CgminerT4.Source.ShareSender
import CgminerT4.Source.StratumSend
import CgminerT4.Source.WorkRoll

/-!
# From a nonce to a submitted share (cgminer.c, getwork.c, util.c)

The three functions that hand a work to submit_work_async. A build for neither
chip compiles test_nonce to a function without a return statement, so its value
is undefined and the callers have no result there.

SHA-256 and scrypt are the parameters `sha256` and `scrypt`, and `foundBlock` is
the comparison of share_diff, a floating-point number, with the network
difficulty. The statistics, the bench file and log messages are left out.
-/
namespace CgminerT4.Source.ShareSubmission
open Library.ByteString WorkItem WorkRoll ShareSender
open StratumSend (Chip)

/-- The word `hash32[i]` of a hash or target, by le32toh. -/
def word32 (buf : Buffer 32) (i : Nat) : Nat := ofLittleEndian ((buf.bytes.drop (4 * i)).take 4)

/-- The loop of fulltest with the words below `i` left. -/
def compareWords (hash target : Buffer 32) : Nat → Bool
  | 0 => true
  | i + 1 =>
    if word32 hash i > word32 target i then false
    else if word32 hash i < word32 target i then true
    else compareWords hash target i

def fulltest (hash target : Buffer 32) : Bool := compareWords hash target 8

/-- `*work_nonce = htole32(nonce)` at `data + 76`. -/
def setNonce (data : Buffer 128) (nonce : UInt32) : Buffer 128 :=
  ⟨overwrite data.bytes 76 (littleEndian 4 nonce.toNat), by
    rw [length_overwrite _ _ _ (by rw [length_littleEndian, data.length_eq]; decide),
      data.length_eq]⟩

variable (chip : Chip) (sha256 scrypt : Bytes → Buffer 32) (foundBlock : RollWork → Bool)

/-- The words of the header in big-endian order. -/
def flip80 (data : Buffer 128) : Bytes := flipWords (data.bytes.take 80)

def flip32 (hash : Buffer 32) : Buffer 32 :=
  ⟨flipWords hash.bytes, by rw [length_flipWords, hash.length_eq]⟩

def regenHash (data : Buffer 128) : Buffer 32 := sha256 (sha256 (flip80 data)).bytes

def scryptRegenhash (data : Buffer 128) : Buffer 32 := flip32 (scrypt (flip80 data))

def rebuildNonce (work : RollWork) (nonce : UInt32) : RollWork :=
  let data := setNonce work.data nonce
  match chip with
  | .A5 => { work with data, hash := regenHash sha256 data }
  | .A6 => { work with data, hash := scryptRegenhash scrypt data }
  | .other => { work with data }

/-- The work as it is left, and whether the nonce meets difficulty 1. -/
def testNonce (work : RollWork) (nonce : UInt32) : Option (RollWork × Bool) :=
  let rebuilt := rebuildNonce chip sha256 scrypt work nonce
  match chip with
  | .A5 => some (rebuilt, ofLittleEndian (rebuilt.hash.bytes.drop 28) = 0)
  | .A6 => some (rebuilt, ofLittleEndian (rebuilt.hash.bytes.drop 30) = 0)
  | .other => none

def updateWorkStats (work : RollWork) : RollWork :=
  if foundBlock work then { work with mandatory := true } else work

/-- What a call leaves: the work given to submit_work_async, a hardware error
counted for the device, and the return value. -/
structure Submission where
  submitted : Option RollWork
  hwError : Bool
  ret : Bool

/-- The target is not tested here: the test stands in a comment. -/
def submitTestedWork (work : RollWork) : Option (RollWork × Submission) :=
  let work := updateWorkStats foundBlock work
  (copyWork work).map fun workOut => (work, ⟨some workOut, false, true⟩)

/-- The device's `last_nonce` and the driver's work afterwards. -/
structure NonceCall extends Submission where
  lastNonce : UInt32
  work : RollWork

def submitNonce (lastNonce : UInt32) (work : RollWork) (nonce : UInt32) : Option NonceCall :=
  match newNonce lastNonce nonce with
  | none => some { submitted := none, hwError := true, ret := false, lastNonce, work }
  | some lastNonce =>
    (testNonce chip sha256 scrypt work nonce).bind fun (work, valid) =>
      if valid then
        (submitTestedWork foundBlock work).map fun (work, submission) =>
          { submission with lastNonce, work }
      else some { submitted := none, hwError := true, ret := false, lastNonce, work }

def submitNoffsetNonce (workIn : RollWork) (nonce : UInt32) (noffset : Int) : Option Submission :=
  (copyWorkNoffset workIn noffset).bind fun work =>
    (testNonce chip sha256 scrypt work nonce).map fun (work, valid) =>
      if !valid then ⟨none, true, false⟩
      else
        let work := updateWorkStats foundBlock work
        if !fulltest work.hash work.target then ⟨none, false, true⟩ else ⟨some work, false, true⟩

/-- The chip supplies the nonce in big-endian order and the hash. -/
def submitNonceHash (work : RollWork) (nonce : Buffer 4) (hash : Buffer 32) :
    Option (RollWork × Submission) :=
  if fulltest hash work.target then
    submitTestedWork foundBlock { work with nonce := be32toh nonce.bytes, hash }
  else some (work, ⟨none, false, true⟩)

end CgminerT4.Source.ShareSubmission
