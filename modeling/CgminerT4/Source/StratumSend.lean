import CgminerT4.Library.ByteString

/-!
# Messages to a pool and their way to the socket (util.c, getwork.c, cgminer.c)

The texts the callers of stratum_send and of __stratum_send print, and the loop
that writes a text under the stratum lock. PACKAGE, VERSION and
STRATUM_USER_AGENT come from the build; `userAgent` stands for the three. The
buffers the texts are printed to are taken to be large enough, the 1024 bytes of
the snprintf of mining.submit among them: a longer text would be cut there.
-/
namespace CgminerT4.Source.StratumSend
open Library.ByteString

def newline : UInt8 := 10

/-- The chip the build is for; the T4 build defines neither. -/
inductive Chip where
  | A5
  | A6
  | other

inductive Message where
  /-- initiate_stratum; a session id when there is one to resume. -/
  | subscribe (id : Int) (recvd : Bool) (sessionid : Option Bytes)
  | authorize (id : Int) (rpcUser rpcPass : Bytes)
  | suggestDifficulty (id optSuggestDiff : Int)
  | pong (id : Int)
  | version (id : Int)
  | login (isNicehashPool : Bool) (rpcUser rpcPass : Bytes)
  /-- getwork_sthread. -/
  | submit (isNicehashPool : Bool) (rpc2Id jobId noncehex hashhex : Bytes) (id : Int)
  /-- stratum_sthread. -/
  | miningSubmit (chip : Chip) (rpcUser jobId nonce2hex ntime noncehex maskstr : Bytes) (id : Int)

variable (userAgent : Bytes)

/-- What is printed, up to the newline of the formats that have one. -/
def Message.json : Message → Bytes
  | .subscribe id recvd sessionid =>
    ascii "\x7b\"id\": " ++ decimal id ++
      ascii ", \"method\": \"mining.subscribe\", \"params\": [" ++
      (if recvd then [] else
        ascii "\"" ++ userAgent ++ ascii "\"" ++
          match sessionid with
          | some sessionid => ascii ", \"" ++ sessionid ++ ascii "\""
          | none => []) ++
      ascii "]\x7d"
  | .authorize id rpcUser rpcPass =>
    ascii "\x7b\"id\": " ++ decimal id ++
      ascii ", \"method\": \"mining.authorize\", \"params\": [\"" ++
      rpcUser ++ ascii "\", \"" ++ rpcPass ++ ascii "\"]\x7d"
  | .suggestDifficulty id optSuggestDiff =>
    ascii "\x7b\"id\": " ++ decimal id ++
      ascii ", \"method\": \"mining.suggest_difficulty\", \"params\": [" ++
      decimal optSuggestDiff ++ ascii "]\x7d"
  | .pong id =>
    ascii "\x7b\"id\": " ++ decimal id ++ ascii ", \"result\": \"pong\", \"error\": null\x7d"
  | .version id =>
    ascii "\x7b\"id\": " ++ decimal id ++ ascii ", \"result\": \"" ++ userAgent ++
      ascii "\", \"error\": null\x7d"
  | .login isNicehashPool rpcUser rpcPass =>
    ascii "\x7b\"method\": \"login\", " ++
      (if isNicehashPool then ascii "\"jsonrpc\": \"2.0\", " else []) ++
      ascii "\"params\": \x7b\"login\": \"" ++ rpcUser ++ ascii "\", \"pass\": \"" ++ rpcPass ++
      ascii "\", \"agent\": \"" ++
      (if isNicehashPool then ascii "XMRig/2.5.2" else ascii "cpuminer-opt/3.6.5") ++
      ascii "\"\x7d, \"id\": 1\x7d"
  | .submit isNicehashPool rpc2Id jobId noncehex hashhex id =>
    ascii "\x7b\"method\": \"submit\", " ++
      (if isNicehashPool then ascii " \"jsonrpc\": \"2.0\", " else []) ++
      ascii "\"params\": \x7b\"id\": \"" ++ rpc2Id ++ ascii "\", \"job_id\": \"" ++ jobId ++
      ascii "\", \"nonce\": \"" ++ noncehex ++ ascii "\", \"result\": \"" ++ hashhex ++
      ascii "\"\x7d,\"id\":" ++ decimal id ++ ascii "\x7d"
  | .miningSubmit .A6 rpcUser jobId nonce2hex ntime noncehex _ id =>
    ascii "\x7b\"params\": [\"" ++ rpcUser ++ ascii "\", \"" ++ jobId ++ ascii "\", \"" ++
      nonce2hex ++ ascii "\", \"" ++ ntime ++ ascii "\", \"" ++ noncehex ++ ascii "\"], \"id\": " ++
      decimal id ++ ascii ", \"method\": \"mining.submit\"\x7d"
  | .miningSubmit .A5 rpcUser jobId nonce2hex ntime noncehex maskstr id =>
    ascii "\x7b\"params\": [\"" ++ rpcUser ++ ascii "\", \"" ++ jobId ++ ascii "\", \"" ++
      nonce2hex ++ ascii "\", \"" ++ ntime ++ ascii "\", \"" ++ noncehex ++ ascii "\", \"" ++
      maskstr ++ ascii "\"], \"id\": " ++ decimal id ++ ascii ", \"method\": \"mining.submit\"\x7d"
  | .miningSubmit .other .. => []

/-- The formats that end with a newline. -/
def Message.terminated : Message → Bool
  | .login .. => true
  | .submit .. => true
  | _ => false

/-- The string handed to the sender. -/
def Message.text (message : Message) : Bytes :=
  message.json userAgent ++ if message.terminated then [newline] else []

inductive SendRet where
  | ok
  | selectFail
  | sendFail
  deriving DecidableEq

/-- What select and send do in one round of the loop. -/
inductive Write where
  | selectFailed
  | sendFailed
  /-- send would block. -/
  | blocked
  | sent (n : Nat)

/-- __stratum_send: the bytes that reach the socket and the result. When nothing
more is scheduled, select times out. The strcat of a newline is commented out. -/
def stratumSend (s : Bytes) : List Write → Bytes × SendRet
  | [] => ([], if s = [] then .ok else .selectFail)
  | write :: rest =>
    if s = [] then ([], .ok)
    else
      match write with
      | .selectFailed => ([], .selectFail)
      | .sendFailed => ([], .sendFail)
      | .blocked => stratumSend s rest
      | .sent n =>
        let (more, ret) := stratumSend (s.drop n) rest
        (s.take n ++ more, ret)

/-- How much of a long text the socket takes. -/
def accepted : List Write → Nat
  | .blocked :: rest => accepted rest
  | .sent n :: rest => n + accepted rest
  | _ => 0

theorem stratumSend_written (s : Bytes) (writes : List Write) :
    (stratumSend s writes).1 = s.take (accepted writes) := by
  induction writes generalizing s with
  | nil => simp [stratumSend, accepted]
  | cons write rest ih =>
    unfold stratumSend
    split
    · next empty => simp [empty]
    · cases write with
      | selectFailed => simp [accepted]
      | sendFailed => simp [accepted]
      | blocked => exact ih s
      | sent n =>
        rw [accepted, List.take_add, ← ih (s.drop n)]

theorem stratumSend_ok (s : Bytes) (writes : List Write) :
    (stratumSend s writes).2 = .ok ↔ s.length ≤ accepted writes := by
  induction writes generalizing s with
  | nil =>
    unfold stratumSend accepted
    split
    · next empty => simp [empty]
    · next content => simpa using content
  | cons write rest ih =>
    unfold stratumSend
    split
    · next empty => simp [empty]
    · next content =>
      have positive := List.length_pos_iff.mpr content
      cases write with
      | selectFailed => simp [accepted]; omega
      | sendFailed => simp [accepted]; omega
      | blocked => exact ih s
      | sent n =>
        have later := ih (s.drop n)
        rw [List.length_drop] at later
        rw [accepted]
        exact later.trans (by omega)

end CgminerT4.Source.StratumSend
