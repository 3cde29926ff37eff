import CgminerT4.Source.ShareTable
import CgminerT4.Source.Hex

/-!
# Share filters: from a device to the queue and on to the submit message

What stratum_sthread (cgminer.c) does with a share before it gives it an id:
shares with a nonce2 wider than eight bytes and repetitions of the share before
are dropped. getwork_sthread (getwork.c) admits every share. submit_nonce
(cgminer.c) holds every nonce a device returns against the one before it.
-/
namespace CgminerT4.Source.ShareSender
open Library.ByteString Hex WorkItem ShareTable

/-- The thread's `last_nonce` and `last_nonce2`, zero at its start. -/
structure LastShare where
  nonce : Nat
  nonce2 : UInt64

def LastShare.start : LastShare := ⟨0, 0⟩

/-- The 32-bit number at `work->data + 76`. -/
def workNonce (work : Work) : Nat := ofLittleEndian ((work.data.bytes.drop 76).take 4)

/-- The thread's new filter state, none when the share is dropped. -/
def admitShare (protocol : Protocol) (last : LastShare) (work : Work) : Option LastShare :=
  match protocol with
  | .getwork => some last
  | .stratum =>
    if work.nonce2Len > 8 then none
    else if workNonce work = last.nonce ∧ work.nonce2 = last.nonce2 then none
    else some ⟨workNonce work, work.nonce2⟩

/-- What becomes of the shares taken from stratum_q, in order: those whose nonce2
is not too wide reach the duplicate filter, and the flag says it dropped them. -/
def filterShares : LastShare → List Work → List (Work × Bool)
  | _, [] => []
  | last, work :: queue =>
    if work.nonce2Len > 8 then filterShares last queue
    else match admitShare .stratum last work with
      | none => (work, true) :: filterShares last queue
      | some next => (work, false) :: filterShares next queue

/-- The nonce2 field of mining.submit: `nonce2_len` bytes of the little-endian
64-bit counter in hexadecimal. -/
def nonce2hex (work : Work) : Bytes :=
  bin2hex ((littleEndian 8 work.nonce2.toNat).take work.nonce2Len)

/-- What stratum_sthread sends as nonce2, none when it drops the share. -/
def submittedNonce2 (last : LastShare) (work : Work) : Option Bytes :=
  (admitShare .stratum last work).map fun _ => nonce2hex work

/-- The device's new `last_nonce`, none for the nonce it returned just before. -/
def newNonce (lastNonce nonce : UInt32) : Option UInt32 :=
  if lastNonce = nonce then none else some nonce

inductive NonceResult where
  | submitted
  /-- new_nonce took the nonce for a duplicate; counted as a hardware error. -/
  | duplicate
  /-- test_nonce failed; counted as a hardware error. -/
  | invalid
  deriving DecidableEq

variable (testNonce : Work → UInt32 → Bool)

def submitNonce (lastNonce : UInt32) (work : Work) (nonce : UInt32) : UInt32 × NonceResult :=
  match newNonce lastNonce nonce with
  | none => (lastNonce, .duplicate)
  | some next => (next, if testNonce work nonce then .submitted else .invalid)

/-- submit_nonce for all that one device returns, in order. -/
def submitNonces : UInt32 → List (Work × UInt32) → List ((Work × UInt32) × NonceResult)
  | _, [] => []
  | lastNonce, (work, nonce) :: found =>
    ((work, nonce), (submitNonce testNonce lastNonce work nonce).2) ::
      submitNonces (submitNonce testNonce lastNonce work nonce).1 found

end CgminerT4.Source.ShareSender
