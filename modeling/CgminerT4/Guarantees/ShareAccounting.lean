import CgminerT4.Guarantees.ShareCounter
import CgminerT4.Source.ShareSender

/-!
# Every share is counted once by its record

One sender thread a pool, the reply parser, clear_stratum_shares and
prune_stratum_shares as separate processes, with submit messages and replies in
flight. A sender holds at most one share; sending and inserting it are separate
steps, so its reply can arrive in between. The pool answers a submit message at
most once because answering consumes the message.

The `ledger` logs who was counted and why; the counters of the code move with its
length. A share is held by its sender, then by the table, and is counted once
when it leaves them. A reply that does not find its share in the table is counted
besides, for the pool alone. The comment on prune_stratum_shares announces this
for late replies; a reply that overtakes the insert is another matter.
-/
namespace CgminerT4.Guarantees.ShareAccounting
open Library.Removal Library.Runs Source.Jansson Source.WorkItem Source.ShareTable
open Source.ShareTable.State Source.ShareSender

/-- The share a sender thread works on, and whether its message went out. -/
structure Sender where
  pool : PoolNo
  sshare : StratumShare
  sent : Bool

inductive Cause where
  | reply | untracked | cleared | pruned | givenUp
  deriving DecidableEq

/-- One counted share: its id and what it was counted for. -/
structure Entry where
  share : Nat
  cause : Cause
  deriving DecidableEq

structure World where
  code : State
  last : PoolNo → LastShare
  senders : List Sender
  submits : List (PoolNo × Nat)
  replies : List (PoolNo × Nat × Option Json)
  /-- History: ids given, counted shares, replies processed, replies that found no share. -/
  taken : List Nat
  ledger : List Entry
  answered : List Nat
  unmatched : List Nat

inductive Event where
  /-- The sender of the work's pool pops it from the queue. -/
  | take (work : Work) (now : Int)
  | send (pool : PoolNo)
  | giveUp (pool : PoolNo)
  | insert (pool : PoolNo)
  /-- A subscribe, authorize or suggest_difficulty request takes an id too. -/
  | request
  /-- A pool answers the submit message at this position. -/
  | answer (index : Nat) (val : Option Json)
  /-- The receive thread processes the reply at this position. -/
  | receive (index : Nat)
  | clear (pool : PoolNo)
  | prune (pool : PoolNo) (now : Int)

def waiting (pool : PoolNo) (sender : Sender) : Bool := sender.pool == pool && !sender.sent

def delivered (pool : PoolNo) (sender : Sender) : Bool := sender.pool == pool && sender.sent

/-- The reply names the share it answers. -/
def answers (id : Nat) (val : Option Json) : Bool :=
  match jsonObjectGet val "id" with
  | some (.integer n) => n == id
  | _ => false

variable (protocol : PoolNo → Protocol)

def takeShare (s : World) (work : Work) (now : Int) : Option World :=
  if s.senders.any (fun sender => sender.pool == work.pool) then none
  else match admitShare (protocol work.pool) (s.last work.pool) work with
    | none => some s
    | some last =>
      (s.code.newShare work now).map fun (sshare, code) =>
        { s with
          code
          last := Function.update s.last work.pool last
          senders := s.senders ++ [⟨work.pool, sshare, false⟩]
          taken := s.taken ++ [sshare.id] }

def sendShare (s : World) (pool : PoolNo) : Option World :=
  (s.senders.find? (waiting pool)).map fun sender =>
    { s with
      senders := s.senders.eraseP (waiting pool) ++ [{ sender with sent := true }]
      submits := s.submits ++ [(pool, sender.sshare.id)] }

def giveUpShare (s : World) (pool : PoolNo) : Option World :=
  (s.senders.find? (waiting pool)).map fun sender =>
    { s with
      code := s.code.discardShare pool
      senders := s.senders.eraseP (waiting pool)
      ledger := s.ledger ++ [⟨sender.sshare.id, .givenUp⟩] }

def insertSent (s : World) (pool : PoolNo) : Option World :=
  (s.senders.find? (delivered pool)).map fun sender =>
    { s with
      code := s.code.insertShare pool sender.sshare
      senders := s.senders.eraseP (delivered pool) }

def answerSubmit (s : World) (index : Nat) (val : Option Json) : Option World :=
  match s.submits[index]? with
  | some (pool, id) =>
    if answers id val then
      some { s with
        submits := s.submits.eraseIdx index
        replies := s.replies ++ [(pool, id, val)] }
    else none
  | none => none

/-- What processing a reply adds to the ledger: the share it took out of the
table, else the share it answers if the code counted it as untracked. -/
def replyEntries (code next : State) (tracked : Option StratumShare) (id : Nat) : List Entry :=
  match tracked with
  | some sshare => [⟨sshare.id, .reply⟩]
  | none => if next.counted = code.counted then [] else [⟨id, .untracked⟩]

def receiveReply (s : World) (index : Nat) : Option World :=
  (s.replies[index]?).map fun (pool, id, val) =>
    let tracked := trackedShare (protocol pool) s.code val
    let code := parseResponse (protocol pool) s.code pool val
    { s with
      code
      replies := s.replies.eraseIdx index
      ledger := s.ledger ++ replyEntries s.code code tracked id
      answered := s.answered ++ [id]
      unmatched := if tracked.isSome then s.unmatched else s.unmatched ++ [id] }

/-- Ledger entries for the shares of the table that pass the test. -/
def removed (code : State) (test : StratumShare → Bool) (cause : Cause) : List Entry :=
  (code.stratumShares.filter test).map fun sshare => ⟨sshare.id, cause⟩

def step (s : World) : Event → Option World
  | .take work now => takeShare protocol s work now
  | .send pool => sendShare s pool
  | .giveUp pool => giveUpShare s pool
  | .insert pool => insertSent s pool
  | .request =>
    if s.code.sworkId < 2 ^ 31 - 1 then
      some { s with code := { s.code with sworkId := s.code.sworkId + 1 } }
    else none
  | .answer index val => answerSubmit s index val
  | .receive index => receiveReply protocol s index
  | .clear pool => some { s with
      code := s.code.clearStratumShares pool
      ledger := s.ledger ++ removed s.code (belongsTo pool) .cleared }
  | .prune pool now => some { s with
      code := s.code.pruneStratumShares pool now
      ledger := s.ledger ++ removed s.code (expired pool now) .pruned }

def start : World where
  code := ShareCounter.start
  last := fun _ => ⟨0, 0⟩
  senders := []
  submits := []
  replies := []
  taken := []
  ledger := []
  answered := []
  unmatched := []

/-- Ids counted when their record left the sender or the table. -/
def settled (ledger : List Entry) : List Nat :=
  (ledger.filter fun e => !(e.cause == .untracked)).map Entry.share

/-- Ids counted for a reply that found no share. -/
def untracked (ledger : List Entry) : List Nat :=
  (ledger.filter fun e => e.cause == .untracked).map Entry.share

@[simp] theorem settled_append (l m : List Entry) : settled (l ++ m) = settled l ++ settled m := by
  simp [settled]

@[simp] theorem untracked_append (l m : List Entry) :
    untracked (l ++ m) = untracked l ++ untracked m := by simp [untracked]

/-- Removing shares from the table settles exactly their ids. -/
theorem settled_removed (code : State) (test : StratumShare → Bool) (cause : Cause)
    (tracked : cause ≠ .untracked) :
    settled (removed code test cause) = (code.stratumShares.filter test).map (·.id) ∧
      untracked (removed code test cause) = [] := by
  have all : ∀ e ∈ removed code test cause, e.cause = cause := by
    intro e member
    obtain ⟨sshare, _, rfl⟩ := List.mem_map.mp member
    rfl
  constructor
  · rw [settled, List.filter_eq_self.mpr (fun e member => by simp [all e member, tracked])]
    simp [removed, Function.comp_def]
  · rw [untracked, List.filter_eq_nil_iff.mpr (fun e member => by simp [all e member, tracked])]
    rfl

namespace World

def senderIds (s : World) : List Nat := s.senders.map (·.sshare.id)

def unsentIds (s : World) : List Nat := (s.senders.filter (!·.sent)).map (·.sshare.id)

def submitIds (s : World) : List Nat := s.submits.map (·.2)

def replyIds (s : World) : List Nat := s.replies.map (·.2.1)

def tableIds (s : World) : List Nat := s.code.stratumShares.map (·.id)

/-- The share is still with its sender or in the table. -/
def held (s : World) (k : Nat) : Bool := s.senderIds.contains k || s.tableIds.contains k

def settledIds (s : World) : List Nat := settled s.ledger

def untrackedIds (s : World) : List Nat := untracked s.ledger

/-- How often the share has been counted over the whole run. -/
def timesCounted (s : World) (k : Nat) : Nat := (s.ledger.map (·.share)).count k

theorem timesCounted_split (s : World) (k : Nat) :
    s.timesCounted k = s.untrackedIds.count k + s.settledIds.count k :=
  count_map_partition Entry.share (fun e => e.cause == .untracked) s.ledger k

end World

open World

/-- Where the shares with an id are: with a sender, in the table or settled in
the ledger (`owned`); and how far their one submission has come: not sent, sent,
answered or its answer processed (`flight`). -/
structure Inv (s : World) : Prop where
  owned : ∀ k, s.senderIds.count k + s.tableIds.count k + s.settledIds.count k = s.taken.count k
  flight : ∀ k, s.unsentIds.count k + s.submitIds.count k + s.replyIds.count k +
    s.answered.count k ≤ s.taken.count k
  once : ∀ k, s.taken.count k ≤ 1
  numbered : ∀ k ∈ s.taken, k < s.code.sworkId
  bound : s.code.sworkId ≤ 2 ^ 31 - 1
  named : ∀ reply ∈ s.replies, answers reply.2.1 reply.2.2 = true
  late : ∀ k, s.untrackedIds.count k ≤ s.unmatched.count k
  seen : ∀ k, s.unmatched.count k ≤ s.answered.count k
  resolved : ∀ k ∈ s.answered, k ∈ s.unmatched ∨ k ∈ s.settledIds
  counted : s.code.counted = s.ledger.length

theorem start_inv : Inv start := by
  constructor <;> simp [start, senderIds, tableIds, settledIds, unsentIds, submitIds, replyIds,
    untrackedIds, settled, untracked, ShareCounter.start, State.counted]

/-- A settled share stays settled when the ledger grows. -/
theorem resolved_grows (s : World) (inv : Inv s) (more : List Entry) :
    ∀ k ∈ s.answered, k ∈ s.unmatched ∨ k ∈ settled (s.ledger ++ more) := by
  intro k member
  rcases inv.resolved k member with late | done
  · exact Or.inl late
  · rw [settled_append]
    exact Or.inr (List.mem_append_left _ done)

theorem take_inv (s next : World) (work : Work) (now : Int) (inv : Inv s)
    (taken : takeShare protocol s work now = some next) : Inv next := by
  unfold takeShare at taken
  split at taken
  · cases taken
  · split at taken
    · cases taken
      exact inv
    · simp only [Option.map_eq_some_iff] at taken
      obtain ⟨⟨sshare, code⟩, fresh, rfl⟩ := taken
      obtain ⟨room, rfl, rfl⟩ := newShare_some _ _ _ _ _ fresh
      have unused : s.taken.count s.code.sworkId = 0 := by
        rw [List.count_eq_zero]
        exact fun member => Nat.lt_irrefl _ (inv.numbered _ member)
      refine { inv with owned := ?_, flight := ?_, once := ?_, numbered := ?_, bound := ?_ }
      · intro k
        have owned := inv.owned k
        simp only [senderIds, tableIds, settledIds, List.map_append, List.count_append] at owned ⊢
        simp only [List.map_cons, List.map_nil]
        omega
      · intro k
        have flight := inv.flight k
        simp only [unsentIds, submitIds, replyIds, List.filter_append, List.map_append,
          List.count_append] at flight ⊢
        simp only [List.filter_cons, Bool.not_false, if_true, List.filter_nil, List.map_cons,
          List.map_nil]
        omega
      · intro k
        have once := inv.once k
        simp only [List.count_append, List.count_singleton, beq_iff_eq]
        split
        · next same =>
          subst same
          omega
        · omega
      · intro k member
        rcases List.mem_append.mp member with old | new
        · exact Nat.lt_succ_of_lt (inv.numbered k old)
        · rw [List.mem_singleton.mp new]
          exact Nat.lt_succ_self _
      · change s.code.sworkId + 1 ≤ 2 ^ 31 - 1
        omega

theorem unsent_of_waiting {senders : List Sender} {pool : PoolNo} {sender : Sender}
    (found : senders.find? (waiting pool) = some sender) : (!sender.sent) = true := by
  have hit := List.find?_some found
  simp only [waiting, Bool.and_eq_true] at hit
  exact hit.2

theorem send_inv (s next : World) (pool : PoolNo) (inv : Inv s)
    (taken : sendShare s pool = some next) : Inv next := by
  simp only [sendShare, Option.map_eq_some_iff] at taken
  obtain ⟨sender, found, rfl⟩ := taken
  have unsent := unsent_of_waiting found
  refine { inv with owned := ?_, flight := ?_ }
  · intro k
    have owned := inv.owned k
    have moved := count_map_eraseP (fun x : Sender => x.sshare.id) _ _ _ found k
    simp only [senderIds, tableIds, settledIds, List.map_append, List.count_append] at owned ⊢
    simp only [List.map_cons, List.map_nil, List.count_singleton, beq_iff_eq]
    omega
  · intro k
    have flight := inv.flight k
    have moved :=
      count_map_filter_eraseP (fun x : Sender => x.sshare.id) _ (!·.sent) _ _ found unsent k
    simp only [unsentIds, submitIds, replyIds, List.filter_append, List.map_append,
      List.count_append] at flight ⊢
    simp only [List.filter_cons, Bool.not_true, Bool.false_eq_true, if_false, List.filter_nil,
      List.map_cons, List.map_nil, List.count_nil, List.count_singleton, beq_iff_eq]
    omega

theorem giveUp_inv (s next : World) (pool : PoolNo) (inv : Inv s)
    (taken : giveUpShare s pool = some next) : Inv next := by
  simp only [giveUpShare, Option.map_eq_some_iff] at taken
  obtain ⟨sender, found, rfl⟩ := taken
  have unsent := unsent_of_waiting found
  refine { inv with owned := ?_, flight := ?_, late := ?_, resolved := ?_, counted := ?_ }
  · intro k
    have owned := inv.owned k
    have moved := count_map_eraseP (fun x : Sender => x.sshare.id) _ _ _ found k
    have settles : settled [⟨sender.sshare.id, .givenUp⟩] = [sender.sshare.id] := rfl
    simp only [senderIds, tableIds, settledIds, discardShare, updatePool, settled_append, settles,
      List.count_append, List.count_singleton, beq_iff_eq] at owned ⊢
    omega
  · intro k
    have flight := inv.flight k
    have moved :=
      count_map_filter_eraseP (fun x : Sender => x.sshare.id) _ (!·.sent) _ _ found unsent k
    simp only [unsentIds, submitIds, replyIds] at flight ⊢
    omega
  · intro k
    have late := inv.late k
    have silent : untracked [⟨sender.sshare.id, .givenUp⟩] = [] := rfl
    simpa only [untrackedIds, untracked_append, silent, List.append_nil] using late
  · exact resolved_grows s inv _
  · simp [inv.counted]

theorem insert_inv (s next : World) (pool : PoolNo) (inv : Inv s)
    (taken : insertSent s pool = some next) : Inv next := by
  simp only [insertSent, Option.map_eq_some_iff] at taken
  obtain ⟨sender, found, rfl⟩ := taken
  have sent : (!sender.sent) = false := by
    have hit := List.find?_some found
    simp only [delivered, Bool.and_eq_true] at hit
    simp [hit.2]
  refine { inv with owned := ?_, flight := ?_ }
  · intro k
    have owned := inv.owned k
    have moved := count_map_eraseP (fun x : Sender => x.sshare.id) _ _ _ found k
    simp only [senderIds, tableIds, settledIds, insertShare, updatePool, List.map_append,
      List.map_cons, List.map_nil, List.count_append, List.count_singleton, beq_iff_eq] at owned ⊢
    omega
  · intro k
    have flight := inv.flight k
    have kept :=
      count_map_filter_eraseP_of_neg (fun x : Sender => x.sshare.id) _ (!·.sent) _ _ found sent k
    simp only [unsentIds, submitIds, replyIds] at flight ⊢
    omega

theorem request_inv (s : World) (inv : Inv s) (room : s.code.sworkId < 2 ^ 31 - 1) :
    Inv { s with code := { s.code with sworkId := s.code.sworkId + 1 } } :=
  { inv with
    numbered := fun k member => Nat.lt_succ_of_lt (inv.numbered k member)
    bound := room }

theorem answer_inv (s next : World) (index : Nat) (val : Option Json) (inv : Inv s)
    (taken : answerSubmit s index val = some next) : Inv next := by
  unfold answerSubmit at taken
  split at taken
  · next pool id found =>
    split at taken
    · next names =>
      cases taken
      refine { inv with flight := ?_, named := ?_ }
      · intro k
        have flight := inv.flight k
        have moved := count_map_eraseIdx (fun x : PoolNo × Nat => x.2) _ _ _ found k
        dsimp only at moved
        simp only [unsentIds, submitIds, replyIds, List.map_append, List.map_cons, List.map_nil,
          List.count_append, List.count_singleton, beq_iff_eq] at flight ⊢
        omega
      · intro reply member
        rcases List.mem_append.mp member with old | new
        · exact inv.named reply old
        · rw [List.mem_singleton.mp new]
          exact names
    · cases taken
  · cases taken

/-- Taking the shares that pass a test out of the table and logging them. -/
theorem removed_inv (s : World) (inv : Inv s) (code : State) (test : StratumShare → Bool)
    (cause : Cause) (tracked : cause ≠ .untracked)
    (table : code.stratumShares = s.code.stratumShares.filter fun sshare => !test sshare)
    (ids : code.sworkId = s.code.sworkId)
    (counts : code.counted = s.code.counted + (s.code.stratumShares.filter test).length) :
    Inv { s with code, ledger := s.ledger ++ removed s.code test cause } := by
  obtain ⟨settles, silent⟩ := settled_removed s.code test cause tracked
  refine { inv with owned := ?_, numbered := ?_, bound := ?_, late := ?_, resolved := ?_, counted := ?_ }
  · intro k
    have owned := inv.owned k
    have parts := count_map_partition (fun x : StratumShare => x.id) test s.code.stratumShares k
    simp only [senderIds, tableIds, settledIds, table, settled_append, settles,
      List.count_append] at owned ⊢
    omega
  · intro k member
    change k < code.sworkId
    rw [ids]
    exact inv.numbered k member
  · change code.sworkId ≤ 2 ^ 31 - 1
    rw [ids]
    exact inv.bound
  · intro k
    have late := inv.late k
    simpa only [untrackedIds, untracked_append, silent, List.append_nil] using late
  · exact resolved_grows s inv _
  · change code.counted = _
    rw [counts, inv.counted]
    simp [removed]

/-- A reply in flight is read back as the id of the share it answers. -/
theorem responseId_of_reply (s : World) (inv : Inv s) (reply : PoolNo × Nat × Option Json)
    (member : reply ∈ s.replies) : responseId reply.2.2 = reply.2.1 := by
  obtain ⟨pool, id, val⟩ := reply
  have inFlight : 0 < s.replyIds.count id :=
    List.count_pos_iff.mpr (List.mem_map_of_mem (f := fun x => x.2.1) member)
  have given : id ∈ s.taken := List.count_pos_iff.mp (by have := inv.flight id; omega)
  have small := inv.numbered id given
  have limit := inv.bound
  have names := inv.named _ member
  simp only [answers] at names
  split at names
  · next n carried =>
    rw [responseId, carried, jsonIntegerValue, beq_iff_eq.mp names, toInt_of_lt id (by omega)]
  · cases names

/-- Reading a reply takes it out of flight. -/
theorem flight_read (s : World) (inv : Inv s) (index : Nat) (pool : PoolNo) (id : Nat)
    (val : Option Json) (found : s.replies[index]? = some (pool, id, val)) (k : Nat) :
    s.unsentIds.count k + s.submitIds.count k +
      ((s.replies.eraseIdx index).map (·.2.1)).count k + (s.answered ++ [id]).count k ≤
        s.taken.count k := by
  have before := inv.flight k
  have gone := count_map_eraseIdx (fun x : PoolNo × Nat × Option Json => x.2.1) _ _ _ found k
  dsimp only at gone
  simp only [replyIds] at before
  simp only [List.count_append, List.count_singleton, beq_iff_eq]
  omega

theorem named_read (s : World) (inv : Inv s) (index : Nat) :
    ∀ reply ∈ s.replies.eraseIdx index, answers reply.2.1 reply.2.2 = true :=
  fun reply member => inv.named reply (List.mem_of_mem_eraseIdx member)

/-- A reply that settles the share it names. -/
theorem matched_inv (s : World) (inv : Inv s) (index : Nat) (pool : PoolNo) (id : Nat)
    (val : Option Json) (found : s.replies[index]? = some (pool, id, val)) (verdict : Verdict)
    (sshare : StratumShare) (hit : s.code.findShare (responseId val) = some sshare)
    (same : sshare.id = id) :
    Inv { s with
      code := (s.code.removeShare pool (responseId val)).recordShare verdict sshare.work
      replies := s.replies.eraseIdx index
      ledger := s.ledger ++ [⟨sshare.id, .reply⟩]
      answered := s.answered ++ [id] } := by
  have settles : settled [⟨sshare.id, .reply⟩] = [sshare.id] := rfl
  have silent : untracked [⟨sshare.id, .reply⟩] = [] := rfl
  refine { inv with
    owned := ?_, flight := flight_read s inv index pool id val found, named :=
      named_read s inv index,
    late := ?_, seen := ?_, resolved := ?_, counted := ?_ }
  · intro k
    have owned := inv.owned k
    have gone := count_map_eraseP (fun x : StratumShare => x.id) _ _ _ hit k
    simp only [senderIds, tableIds, settledIds, recordShare_stratumShares, removeShare,
      updatePool, settled_append, settles, List.count_append, List.count_singleton,
      beq_iff_eq] at owned ⊢
    omega
  · intro k
    have late := inv.late k
    simpa only [untrackedIds, untracked_append, silent, List.append_nil] using late
  · intro k
    have seen := inv.seen k
    simp only [List.count_append]
    omega
  · intro k member
    rcases List.mem_append.mp member with old | new
    · exact resolved_grows s inv _ k old
    · apply Or.inr
      rw [settledIds, settled_append, settles, same]
      exact List.mem_append_right _ new
  · simp [inv.counted]

/-- A reply that finds no share and leaves the table alone. -/
theorem unmatched_inv (s : World) (inv : Inv s) (index : Nat) (pool : PoolNo) (id : Nat)
    (val : Option Json) (found : s.replies[index]? = some (pool, id, val)) (code : State)
    (more : List Entry) (table : code.stratumShares = s.code.stratumShares)
    (ids : code.sworkId = s.code.sworkId) (counts : code.counted = s.code.counted + more.length)
    (settles : settled more = []) (notes : ∀ k, (untracked more).count k ≤ [id].count k) :
    Inv { s with
      code
      replies := s.replies.eraseIdx index
      ledger := s.ledger ++ more
      answered := s.answered ++ [id]
      unmatched := s.unmatched ++ [id] } := by
  refine { inv with
    owned := ?_, flight := flight_read s inv index pool id val found, named :=
      named_read s inv index,
    numbered := ?_, bound := ?_, late := ?_, seen := ?_, resolved := ?_, counted := ?_ }
  · intro k
    have owned := inv.owned k
    simp only [senderIds, tableIds, settledIds, table, settled_append, settles,
      List.append_nil] at owned ⊢
    exact owned
  · intro k member
    dsimp only
    rw [ids]
    exact inv.numbered k member
  · dsimp only
    rw [ids]
    exact inv.bound
  · intro k
    have late := inv.late k
    have note := notes k
    simp only [untrackedIds, untracked_append, List.count_append] at late ⊢
    omega
  · intro k
    have seen := inv.seen k
    simp only [List.count_append]
    omega
  · intro k member
    rcases List.mem_append.mp member with old | new
    · rcases resolved_grows s inv more k old with before | done
      · exact Or.inl (List.mem_append_left _ before)
      · exact Or.inr done
    · exact Or.inl (List.mem_append_right _ new)
  · dsimp only
    rw [counts, inv.counted]
    simp

theorem receive_inv (s next : World) (index : Nat) (inv : Inv s)
    (taken : receiveReply protocol s index = some next) : Inv next := by
  simp only [receiveReply, Option.map_eq_some_iff] at taken
  obtain ⟨⟨pool, id, val⟩, found, rfl⟩ := taken
  have read := responseId_of_reply s inv _ (List.mem_of_getElem? found)
  dsimp only at read
  rcases parseResponse_cases (protocol pool) s.code pool val with
    ⟨sshare, verdict, tracked, effect⟩ | ⟨unmatched, effect⟩
  · have hit := trackedShare_find _ _ _ _ tracked
    have same : sshare.id = id := by
      have key := List.find?_some hit
      rw [beq_iff_eq, read] at key
      exact Int.ofNat.inj key
    simp only [tracked, effect, replyEntries, Option.isSome_some, if_true]
    exact matched_inv s inv index pool id val found verdict sshare hit same
  · simp only [unmatched, Option.isSome_none, Bool.false_eq_true, if_false]
    rcases effect with same | ⟨verdict, effect⟩
    · rw [same]
      apply unmatched_inv s inv index pool id val found
      · rfl
      · rfl
      · simp [replyEntries]
      · simp [replyEntries, settled]
      · simp [replyEntries, untracked]
    · rw [effect]
      apply unmatched_inv s inv index pool id val found
      · rfl
      · rfl
      · simp [replyEntries]
      · simp [replyEntries, settled]
      · simp [replyEntries, untracked]

theorem step_inv (s : World) (event : Event) (next : World) (inv : Inv s)
    (taken : step protocol s event = some next) : Inv next := by
  cases event with
  | take work now => exact take_inv protocol s next work now inv taken
  | send pool => exact send_inv s next pool inv taken
  | giveUp pool => exact giveUp_inv s next pool inv taken
  | insert pool => exact insert_inv s next pool inv taken
  | request =>
    simp only [step] at taken
    split at taken
    · next room =>
      cases taken
      exact request_inv s inv room
    · cases taken
  | answer index val => exact answer_inv s next index val inv taken
  | receive index => exact receive_inv protocol s next index inv taken
  | clear pool =>
    cases Option.some.inj taken
    exact removed_inv s inv _ _ _ (by decide) rfl rfl (clearStratumShares_counted s.code pool)
  | prune pool now =>
    cases Option.some.inj taken
    exact removed_inv s inv _ _ _ (by decide) rfl rfl (pruneStratumShares_counted s.code pool now)

/-- The account of a state: the counters of the code have moved once for each
ledger entry; a share with an id has been counted by its record not at all
while it is held and once after that, and besides as an untracked share at most
once, if its reply was processed without finding it; a share whose reply was
processed and found it is no longer held. -/
structure Accounted (s : World) : Prop where
  counters : s.code.counted = s.ledger.length
  shares : ∀ k ∈ s.taken,
    s.timesCounted k = (if s.held k then 0 else 1) + s.untrackedIds.count k ∧
      s.untrackedIds.count k ≤ s.unmatched.count k ∧ s.unmatched.count k ≤ 1
  answered : ∀ k ∈ s.answered, k ∈ s.unmatched ∨ s.held k = false

theorem held_iff (s : World) (k : Nat) :
    s.held k = true ↔ 0 < s.senderIds.count k + s.tableIds.count k := by
  have positive : ∀ a b : Nat, 0 < a + b ↔ 0 < a ∨ 0 < b := by omega
  simp [held, positive, List.count_pos_iff]

theorem inv_accounted (s : World) (inv : Inv s) : Accounted s := by
  refine ⟨inv.counted, ?_, ?_⟩
  · intro k given
    have owned := inv.owned k
    have once := inv.once k
    have given := List.count_pos_iff.mpr given
    have flight := inv.flight k
    have late := inv.late k
    have seen := inv.seen k
    have held := held_iff s k
    refine ⟨?_, late, by omega⟩
    rw [timesCounted_split]
    split
    · next still => have := held.mp still; omega
    · next gone => have : ¬ 0 < _ := fun h => gone (held.mpr h); omega
  · intro k processed
    rcases inv.resolved k processed with late | done
    · exact Or.inl late
    · refine Or.inr ?_
      have owned := inv.owned k
      have once := inv.once k
      have settled := List.count_pos_iff.mpr done
      rw [Bool.eq_false_iff, ne_eq, held_iff]
      omega

/-- In every state of every interleaving the account holds. -/
theorem shares_accounted (events : List Event) : Always (step protocol) Accounted start events := by
  have inv := always_of_invariant (step_inv protocol) start_inv events
  exact always_mono inv_accounted inv

/-! ## Counted once -/

/-- A share with an id is counted at most once, and once when its reply has been
processed or it is no longer held. -/
structure CountedOnce (s : World) : Prop where
  counters : s.code.counted = s.ledger.length
  once : ∀ k ∈ s.taken, s.timesCounted k ≤ 1
  settled : ∀ k ∈ s.taken, k ∈ s.answered ∨ s.held k = false → s.timesCounted k = 1

/-- A reply is processed when its share is in the table. What comes after a clear
or a prune is a reply that the stratum parser does not count, for want of a result. -/
def Timely (s : World) : Event → Prop
  | .receive index => ∀ pool id val, s.replies[index]? = some (pool, id, val) →
      id ∈ s.tableIds ∨
        s.held id = false ∧ protocol pool = .stratum ∧ jsonObjectGet val "result" = none
  | _ => True

/-- No reply has been counted without its share, and every share that was answered
has left the sender and the table. -/
structure Matched (s : World) : Prop where
  silent : s.untrackedIds = []
  answered : ∀ k ∈ s.answered, k ∈ s.settledIds

theorem matched_grows (s next : World) (more : List Entry) (matched : Matched s)
    (ledger : next.ledger = s.ledger ++ more) (silent : untracked more = [])
    (same : next.answered = s.answered) : Matched next := by
  constructor
  · rw [untrackedIds, ledger, untracked_append, silent, List.append_nil]
    exact matched.silent
  · intro k member
    rw [settledIds, ledger, settled_append]
    exact List.mem_append_left _ (matched.answered k (same ▸ member))

/-- A reply whose share is in the table finds it. -/
theorem tracked_of_table (s : World) (inv : Inv s) (reply : PoolNo × Nat × Option Json)
    (member : reply ∈ s.replies) (inTable : reply.2.1 ∈ s.tableIds) :
    ∃ sshare, trackedShare (protocol reply.1) s.code reply.2.2 = some sshare ∧
      sshare.id = reply.2.1 := by
  obtain ⟨pool, id, val⟩ := reply
  have read := responseId_of_reply s inv _ member
  have names := inv.named _ member
  dsimp only at read names inTable
  obtain ⟨listed, known, same⟩ := List.mem_map.mp inTable
  have found : (s.code.findShare (responseId val)).isSome = true := by
    rw [findShare, List.find?_isSome]
    exact ⟨listed, known, by rw [read, same]; exact beq_self_eq_true _⟩
  obtain ⟨sshare, hit⟩ := Option.isSome_iff_exists.mp found
  have key : sshare.id = id := by
    have found := List.find?_some hit
    rw [beq_iff_eq, read] at found
    exact Int.ofNat.inj found
  have hasId : stratumResponseHasId val = true := by
    simp only [answers] at names
    split at names
    · next n carried => rw [stratumResponseHasId, carried]; rfl
    · cases names
  refine ⟨sshare, ?_, key⟩
  cases protocol pool with
  | stratum => rw [trackedShare, if_pos hasId, hit]
  | getwork => exact hit

theorem receive_matched (s next : World) (index : Nat) (inv : Inv s) (matched : Matched s)
    (timely : Timely protocol s (.receive index))
    (taken : receiveReply protocol s index = some next) :
    Matched next := by
  simp only [receiveReply, Option.map_eq_some_iff] at taken
  obtain ⟨⟨pool, id, val⟩, found, rfl⟩ := taken
  have member := List.mem_of_getElem? found
  have grown (more : List Entry) (silent : untracked more = [])
      (settles : id ∈ settled (s.ledger ++ more)) :
      untracked (s.ledger ++ more) = [] ∧
        ∀ k ∈ s.answered ++ [id], k ∈ settled (s.ledger ++ more) := by
    refine ⟨?_, fun k known => ?_⟩
    · rw [untracked_append, silent, List.append_nil]
      exact matched.silent
    · rcases List.mem_append.mp known with old | new
      · rw [settled_append]
        exact List.mem_append_left _ (matched.answered k old)
      · rw [List.mem_singleton.mp new]
        exact settles
  rcases timely pool id val found with inTable | ⟨gone, stratum, blank⟩
  · obtain ⟨sshare, tracked, same⟩ := tracked_of_table protocol s inv _ member inTable
    dsimp only at tracked same
    have entry := grown [⟨sshare.id, .reply⟩] rfl (by
      rw [settled_append, same]
      exact List.mem_append_right _ (List.mem_singleton_self id))
    simp only [tracked, replyEntries]
    exact ⟨entry.1, entry.2⟩
  · -- the share was settled when it left the table, and the parser returns without counting
    have given : 0 < s.taken.count id := by
      have inFlight : 0 < s.replyIds.count id :=
        List.count_pos_iff.mpr (List.mem_map_of_mem (f := fun x => x.2.1) member)
      have flight := inv.flight id
      omega
    have absent : ¬ 0 < s.senderIds.count id + s.tableIds.count id := by
      rw [← held_iff, gone]
      exact Bool.false_ne_true
    have settledBefore : id ∈ s.settledIds := by
      have owned := inv.owned id
      exact List.count_pos_iff.mp (by omega)
    have read := responseId_of_reply s inv _ member
    dsimp only at read
    have missing : s.code.findShare (responseId val) = none := by
      rw [read, findShare, List.find?_eq_none]
      intro sshare listed equal
      have same : sshare.id = id := Int.ofNat.inj (beq_iff_eq.mp equal)
      have present : 0 < s.tableIds.count id := by
        rw [List.count_pos_iff, ← same]
        exact List.mem_map_of_mem listed
      omega
    have untouched : trackedShare (protocol pool) s.code val = none ∧
        parseResponse (protocol pool) s.code pool val = s.code := by
      rw [stratum]
      simp only [trackedShare, parseResponse, parseStratumResponse, missing, blank, ite_self]
      exact ⟨trivial, trivial⟩
    have entry := grown [] rfl (by rw [List.append_nil]; exact settledBefore)
    simp only [untouched, replyEntries, if_true]
    exact ⟨entry.1, entry.2⟩

theorem step_matched (s : World) (event : Event) (next : World) (inv : Inv s) (matched : Matched s)
    (timely : Timely protocol s event) (taken : step protocol s event = some next) :
    Matched next := by
  cases event with
  | take work now =>
    simp only [step, takeShare] at taken
    split at taken
    · cases taken
    · split at taken
      · cases taken
        exact matched
      · obtain ⟨_, _, rfl⟩ := Option.map_eq_some_iff.mp taken
        exact ⟨matched.silent, matched.answered⟩
  | send pool =>
    obtain ⟨_, _, rfl⟩ := Option.map_eq_some_iff.mp taken
    exact ⟨matched.silent, matched.answered⟩
  | giveUp pool =>
    obtain ⟨sender, _, rfl⟩ := Option.map_eq_some_iff.mp taken
    exact matched_grows s _ [⟨sender.sshare.id, .givenUp⟩] matched rfl rfl rfl
  | insert pool =>
    obtain ⟨_, _, rfl⟩ := Option.map_eq_some_iff.mp taken
    exact ⟨matched.silent, matched.answered⟩
  | request =>
    simp only [step] at taken
    split at taken
    · cases taken
      exact ⟨matched.silent, matched.answered⟩
    · cases taken
  | answer index val =>
    simp only [step, answerSubmit] at taken
    split at taken
    · split at taken
      · cases taken
        exact ⟨matched.silent, matched.answered⟩
      · cases taken
    · cases taken
  | receive index => exact receive_matched protocol s next index inv matched timely taken
  | clear pool =>
    cases Option.some.inj taken
    exact matched_grows s _ _ matched rfl (settled_removed s.code _ _ (by decide)).2 rfl
  | prune pool now =>
    cases Option.some.inj taken
    exact matched_grows s _ _ matched rfl (settled_removed s.code _ _ (by decide)).2 rfl

theorem matched_countedOnce (s : World) (inv : Inv s) (matched : Matched s) : CountedOnce s := by
  have accounted := inv_accounted s inv
  have counts : ∀ k ∈ s.taken, s.timesCounted k = if s.held k then 0 else 1 := by
    intro k given
    have count := (accounted.shares k given).1
    rw [matched.silent, List.count_nil, Nat.add_zero] at count
    exact count
  refine ⟨inv.counted, fun k given => ?_, fun k given ended => ?_⟩
  · rw [counts k given]
    split <;> omega
  · have gone : s.held k = false := by
      rcases ended with answered | gone
      · have owned := inv.owned k
        have once := inv.once k
        have settled := List.count_pos_iff.mpr (matched.answered k answered)
        rw [Bool.eq_false_iff, ne_eq, held_iff]
        omega
      · exact gone
    rw [counts k given, gone, if_neg Bool.false_ne_true]

/-- As long as every reply is processed between the insert of its share and its
removal, every share is counted once. -/
theorem timely_counted_once (events : List Event)
    (timely : Guarded (step protocol) (Timely protocol) start events) :
    Always (step protocol) CountedOnce start events := by
  have initial : Inv start ∧ Matched start :=
    ⟨start_inv, rfl, fun _ never => absurd never List.not_mem_nil⟩
  have inv : Always (step protocol) (fun s => Inv s ∧ Matched s) start events := by
    refine always_of_guarded ?_ initial timely
    intro s event next both meets taken
    exact ⟨step_inv protocol s event next both.1 taken,
      step_matched protocol s event next both.1 both.2 meets taken⟩
  exact always_mono (fun s both => matched_countedOnce s both.1 both.2) inv

def firstWork : Work := { makeWork with nonce2 := 1, nonce2Len := 4 }

/-- The reply to the first share. -/
def accepted : Option Json := some (.object [("id", .integer 0), ("result", .bool true)])

def secondWork : Work := { makeWork with pool := 1, nonce2 := 2, nonce2Len := 4 }

/-- A reply to the second share that has no result. -/
def withoutResult : Option Json := some (.object [("id", .integer 1), ("error", .null)])

/-- The shares of two pools, one answered in time and one pruned before a reply
that counts nothing. -/
theorem timely_counted_once_pruned :
    Always (step fun _ => .stratum) CountedOnce start
      [.take firstWork 0, .send 0, .take secondWork 0, .insert 0, .answer 0 accepted, .receive 0,
        .send 1,
        .insert 1, .prune 1 121, .answer 0 withoutResult, .receive 0] := by
  refine timely_counted_once _ _ ?_
  iterate 5 refine (guarded_cons rfl).mpr ⟨trivial, ?_⟩
  refine (guarded_cons rfl).mpr ⟨?_, ?_⟩
  · intro pool id val found
    cases found
    exact Or.inl (by decide)
  iterate 4 refine (guarded_cons rfl).mpr ⟨trivial, ?_⟩
  refine (guarded_cons rfl).mpr ⟨?_, trivial⟩
  intro pool id val found
  cases found
  exact Or.inr ⟨by decide, rfl, rfl⟩

/-- A share is counted twice when its reply comes after a prune, and when it
comes before the insert and the share is cleared later. -/
theorem share_counted_twice :
    (¬ Always (step fun _ => .stratum) (fun s => ∀ k ∈ s.taken, s.timesCounted k ≤ 1) start
      [.take firstWork 0, .send 0, .insert 0, .prune 0 121, .answer 0 accepted, .receive 0]) ∧
    ¬ Always (step fun _ => .stratum) (fun s => ∀ k ∈ s.taken, s.timesCounted k ≤ 1) start
      [.take firstWork 0, .send 0, .answer 0 accepted, .receive 0, .insert 0, .clear 0] := by
  constructor
  · intro once
    have final := always_final once rfl
    exact absurd (final 0 (by decide)) (by decide)
  · intro once
    have final := always_final once rfl
    exact absurd (final 0 (by decide)) (by decide)

end CgminerT4.Guarantees.ShareAccounting
