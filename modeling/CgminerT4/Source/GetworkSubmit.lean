import CgminerT4.Source.Hex
import CgminerT4.Source.SessionTable
import CgminerT4.Source.WorkItem

/-!
# The submit request of a getwork pool (getwork.c)

The sprintf of getwork_sthread into `s[1024]`: the session id of the pool from
`rpc2_id`, the job id of the work, its nonce and hash, and the id of the share.
There is no result when the text and its terminator leave the buffer, when the
session id is not terminated or when the work has no job id.
-/
namespace CgminerT4.Source.GetworkSubmit
open Library.ByteString Hex SessionTable WorkItem

/-- The two formats up to the parameters. -/
def submitMethod (isNicehashPool : Bool) : Bytes :=
  if isNicehashPool = false then ascii "\x7b\"method\": \"submit\", \"params\": "
  else ascii "\x7b\"method\": \"submit\",  \"jsonrpc\": \"2.0\", \"params\": "

def noncehex (work : Work) : Bytes := bin2hex (littleEndian 4 work.nonce.toNat)

def hashhex (work : Work) : Bytes := bin2hex work.hash.bytes

def submitText (isNicehashPool : Bool) (rpc2Id jobId : Bytes) (work : Work) (sshareId : Nat) :
    Bytes :=
  submitMethod isNicehashPool ++ ascii "\x7b\"id\": \"" ++ rpc2Id ++ ascii "\", \"job_id\": \"" ++
    jobId ++
    ascii "\", \"nonce\": \"" ++ noncehex work ++ ascii "\", \"result\": \"" ++ hashhex work ++
    ascii "\"\x7d,\"id\":" ++ decimal sshareId ++ ascii "\x7d\n"

def getworkSubmit (isNicehashPool : Bool) (rpc2Id : SessionIds) (poolNo : PoolNo) (work : Work)
    (sshareId : Nat) :
    Option Bytes :=
  (printSessionId rpc2Id poolNo).bind fun id =>
    work.jobId.bind fun jobId =>
      let s := submitText isNicehashPool id jobId work sshareId
      if s.length < 1024 then some s else none

end CgminerT4.Source.GetworkSubmit
