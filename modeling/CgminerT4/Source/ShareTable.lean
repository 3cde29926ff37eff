import CgminerT4.Source.WorkItem
import CgminerT4.Library.Removal
import Mathlib.Logic.Function.Basic

/-!
# The table of submitted shares (cgminer.c, getwork.c)

stratum_sthread and getwork_sthread insert a share after sending it,
parse_stratum_response and parse_getwork_response remove the share a reply
names, clear_stratum_shares and prune_stratum_shares remove shares that will
not be answered. The table is the insertion-ordered list that uthash keeps; it
is global, while the `sshares` counter belongs to a pool. Counter updates
follow their locked section directly and are part of the same operation here.
Logging, the device's last-share fields and the disabling of a pool after many
rejects are left out.
-/
namespace CgminerT4.Source.ShareTable
open Library.Removal Jansson WorkItem

/-- struct stratum_share; `id` is a non-negative C int. -/
structure StratumShare where
  id : Nat
  work : Work
  sshareTime : Int

inductive Verdict where
  | accepted | rejected
  deriving DecidableEq

/-- Which of the two reply parsers serves a pool's connection. -/
inductive Protocol where
  | stratum | getwork
  deriving DecidableEq

structure Counters where
  accepted : Int
  rejected : Int
  diffAccepted : Double
  diffRejected : Double

def Counters.add (c : Counters) (diff : Double) : Verdict → Counters
  | .accepted => { c with accepted := c.accepted + 1, diffAccepted := c.diffAccepted + diff }
  | .rejected => { c with rejected := c.rejected + 1, diffRejected := c.diffRejected + diff }

/-- The fields of struct pool that share accounting touches. -/
structure Pool where
  counters : Counters
  sshares : Int
  seqRejects : Int
  staleShares : Int
  diffStale : Double
  sdiff : Double

structure State where
  stratumShares : List StratumShare
  sworkId : Nat
  pool : PoolNo → Pool
  cgpu : Nat → Counters
  total : Counters
  totalStale : Int
  totalDiffStale : Double

namespace State

def updatePool (st : State) (pool : PoolNo) (f : Pool → Pool) : State :=
  { st with pool := Function.update st.pool pool (f (st.pool pool)) }

/-- The counters a verdict on a tracked share moves: device, pool and total. -/
def recordShare (st : State) (verdict : Verdict) (work : Work) : State :=
  let diff := work.workDifficulty
  let counted := st.updatePool work.pool fun p =>
    { p with
      counters := p.counters.add diff verdict
      seqRejects := match verdict with | .accepted => 0 | .rejected => p.seqRejects + 1 }
  { counted with
    cgpu := Function.update st.cgpu work.thrId ((st.cgpu work.thrId).add diff verdict)
    total := st.total.add diff verdict }

/-- An untracked share is guessed to have the pool's current difficulty and
belongs to no device. -/
def recordUntracked (st : State) (verdict : Verdict) (pool : PoolNo) : State :=
  let diff := (st.pool pool).sdiff
  { st.updatePool pool fun p => { p with counters := p.counters.add diff verdict } with
    total := st.total.add diff verdict }

/-- The last section of both sender threads when a share was not sent. -/
def discardShare (st : State) (pool : PoolNo) : State :=
  { st.updatePool pool fun p => { p with staleShares := p.staleShares + 1 } with
    totalStale := st.totalStale + 1 }

/-- Give the share a unique id. At INT_MAX the increment is undefined. -/
def newShare (st : State) (work : Work) (now : Int) : Option (StratumShare × State) :=
  if st.sworkId < 2 ^ 31 - 1 then
    some (⟨st.sworkId, work, now⟩, { st with sworkId := st.sworkId + 1 })
  else none

/-- The section under sshare_lock after a successful send. -/
def insertShare (st : State) (pool : PoolNo) (sshare : StratumShare) : State :=
  { st.updatePool pool fun p => { p with sshares := p.sshares + 1 } with
    stratumShares := st.stratumShares ++ [sshare] }

def findShare (st : State) (id : Int) : Option StratumShare :=
  st.stratumShares.find? fun sshare => (sshare.id : Int) == id

/-- The section under sshare_lock of both reply parsers, for a share found. -/
def removeShare (st : State) (pool : PoolNo) (id : Int) : State :=
  { st.updatePool pool fun p => { p with sshares := p.sshares - 1 } with
    stratumShares := st.stratumShares.eraseP fun sshare => (sshare.id : Int) == id }

/-- share_result, as far as the counters go. -/
def shareResult (st : State) (res : Option Json) (work : Work) : State :=
  if jsonIsTrue res || (work.gbt && jsonIsNull res) then st.recordShare .accepted work
  else st.recordShare .rejected work

def shareGetworkResult (st : State) (val : Option Json) (sshare : StratumShare) : State :=
  match jsonObjectGet val "result" with
  | some _ => st.recordShare .accepted sshare.work
  | none => st.recordShare .rejected sshare.work

/-- The id both parsers look up, narrowed to an int. -/
def responseId (val : Option Json) : Int := toInt (jsonIntegerValue (jsonObjectGet val "id"))

/-- A stratum reply without an id, or with a null one, is not looked up. -/
def stratumResponseHasId (val : Option Json) : Bool :=
  (jsonObjectGet val "id").isSome && !jsonIsNull (jsonObjectGet val "id")

/-- `val` is the decoded line, none when it is not JSON. -/
def parseStratumResponse (st : State) (pool : PoolNo) (val : Option Json) : State × Bool :=
  let resVal := jsonObjectGet val "result"
  if stratumResponseHasId val then
    match st.findShare (responseId val) with
    | some sshare =>
      ((st.removeShare pool (responseId val)).shareResult resVal sshare.work, true)
    | none =>
      match resVal with
      | none => (st, false)
      | some _ =>
        (st.recordUntracked (if jsonIsTrue resVal then .accepted else .rejected) pool, false)
  else (st, false)

def parseGetworkResponse (st : State) (pool : PoolNo) (val : Option Json) : State × Bool :=
  match st.findShare (responseId val) with
  | some sshare => ((st.removeShare pool (responseId val)).shareGetworkResult val sshare, true)
  | none =>
    match jsonObjectGet val "result" with
    | some _ => (st.recordUntracked .accepted pool, false)
    | none => (st.recordUntracked .rejected pool, false)

def belongsTo (pool : PoolNo) (sshare : StratumShare) : Bool := sshare.work.pool == pool

/-- Every share of the pool is taken out and counted as stale. -/
def clearStratumShares (st : State) (pool : PoolNo) : State :=
  let cleared := st.stratumShares.filter (belongsTo pool)
  let diffCleared := (cleared.map (·.work.workDifficulty)).sum
  { st.updatePool pool fun p =>
      { p with
        sshares := p.sshares - cleared.length
        staleShares := p.staleShares + cleared.length
        diffStale := p.diffStale + diffCleared } with
    stratumShares := st.stratumShares.filter (fun sshare => !belongsTo pool sshare)
    totalStale := st.totalStale + cleared.length
    totalDiffStale := st.totalDiffStale + diffCleared }

/-- A share of the pool sent over two minutes ago. -/
def expired (pool : PoolNo) (now : Int) (sshare : StratumShare) : Bool :=
  belongsTo pool sshare && now > sshare.sshareTime + 120

/-- Expired shares are taken out and counted as stale. Unlike
clear_stratum_shares this leaves `sshares` and the stale difficulty alone. -/
def pruneStratumShares (st : State) (pool : PoolNo) (now : Int) : State :=
  let cleared := st.stratumShares.filter (expired pool now)
  { st.updatePool pool fun p => { p with staleShares := p.staleShares + cleared.length } with
    stratumShares := st.stratumShares.filter (fun sshare => !expired pool now sshare)
    totalStale := st.totalStale + cleared.length }

def parseResponse (protocol : Protocol) (st : State) (pool : PoolNo) (val : Option Json) : State :=
  match protocol with
  | .stratum => (st.parseStratumResponse pool val).1
  | .getwork => (st.parseGetworkResponse pool val).1

/-- The share that a reply takes out of the table. -/
def trackedShare (protocol : Protocol) (st : State) (val : Option Json) : Option StratumShare :=
  match protocol with
  | .stratum => if stratumResponseHasId val then st.findShare (responseId val) else none
  | .getwork => st.findShare (responseId val)

/-- Shares ever counted: accepted, rejected or stale. -/
def counted (st : State) : Int := st.total.accepted + st.total.rejected + st.totalStale

/-- Entries of the global table that belong to the pool. -/
def entries (st : State) (pool : PoolNo) : Nat := st.stratumShares.countP (belongsTo pool)

/-! What each operation does to the table, the counters of outstanding shares
and the number of counted shares. -/

@[simp] theorem recordShare_stratumShares (st : State) (verdict : Verdict) (work : Work) :
    (st.recordShare verdict work).stratumShares = st.stratumShares := rfl

@[simp] theorem recordShare_sworkId (st : State) (verdict : Verdict) (work : Work) :
    (st.recordShare verdict work).sworkId = st.sworkId := rfl

@[simp] theorem recordShare_sshares (st : State) (verdict : Verdict) (work : Work) (pool : PoolNo) :
    ((st.recordShare verdict work).pool pool).sshares = (st.pool pool).sshares := by
  by_cases same : pool = work.pool
  · subst same
    simp [recordShare, updatePool]
  · simp [recordShare, updatePool, same]

@[simp] theorem recordShare_counted (st : State) (verdict : Verdict) (work : Work) :
    (st.recordShare verdict work).counted = st.counted + 1 := by
  cases verdict <;> simp only [counted, recordShare, updatePool, Counters.add] <;> omega

@[simp] theorem recordUntracked_stratumShares (st : State) (verdict : Verdict) (pool : PoolNo) :
    (st.recordUntracked verdict pool).stratumShares = st.stratumShares := rfl

@[simp] theorem recordUntracked_sworkId (st : State) (verdict : Verdict) (pool : PoolNo) :
    (st.recordUntracked verdict pool).sworkId = st.sworkId := rfl

@[simp] theorem recordUntracked_sshares (st : State) (verdict : Verdict) (receiver pool : PoolNo) :
    ((st.recordUntracked verdict receiver).pool pool).sshares = (st.pool pool).sshares := by
  by_cases same : pool = receiver
  · subst same
    simp [recordUntracked, updatePool]
  · simp [recordUntracked, updatePool, same]

@[simp] theorem recordUntracked_counted (st : State) (verdict : Verdict) (pool : PoolNo) :
    (st.recordUntracked verdict pool).counted = st.counted + 1 := by
  cases verdict <;> simp only [counted, recordUntracked, updatePool, Counters.add] <;> omega

@[simp] theorem discardShare_counted (st : State) (pool : PoolNo) :
    (st.discardShare pool).counted = st.counted + 1 := by
  simp only [counted, discardShare, updatePool]
  omega

@[simp] theorem insertShare_counted (st : State) (pool : PoolNo) (sshare : StratumShare) :
    (st.insertShare pool sshare).counted = st.counted := rfl

@[simp] theorem removeShare_counted (st : State) (pool : PoolNo) (id : Int) :
    (st.removeShare pool id).counted = st.counted := rfl

theorem clearStratumShares_counted (st : State) (pool : PoolNo) :
    (st.clearStratumShares pool).counted =
      st.counted + (st.stratumShares.filter (belongsTo pool)).length := by
  simp only [counted, clearStratumShares, updatePool]
  omega

theorem pruneStratumShares_counted (st : State) (pool : PoolNo) (now : Int) :
    (st.pruneStratumShares pool now).counted =
      st.counted + (st.stratumShares.filter (expired pool now)).length := by
  simp only [counted, pruneStratumShares, updatePool]
  omega

theorem newShare_some (st next : State) (work : Work) (now : Int) (sshare : StratumShare)
    (success : st.newShare work now = some (sshare, next)) :
    st.sworkId < 2 ^ 31 - 1 ∧ sshare = ⟨st.sworkId, work, now⟩ ∧
      next = { st with sworkId := st.sworkId + 1 } := by
  unfold newShare at success
  split at success
  · next room =>
    simp only [Option.some.injEq, Prod.mk.injEq] at success
    exact ⟨room, success.1.symm, success.2.symm⟩
  · cases success

theorem trackedShare_find (protocol : Protocol) (st : State) (val : Option Json)
    (sshare : StratumShare) (tracked : trackedShare protocol st val = some sshare) :
    st.findShare (responseId val) = some sshare := by
  cases protocol with
  | stratum =>
    simp only [trackedShare] at tracked
    split at tracked
    · exact tracked
    · cases tracked
  | getwork => exact tracked

/-- A reply either settles the one share it names, or is counted for the pool
alone, or has no effect on the counters. -/
theorem parseResponse_cases (protocol : Protocol) (st : State) (pool : PoolNo)
    (val : Option Json) :
    (∃ sshare verdict, trackedShare protocol st val = some sshare ∧
      parseResponse protocol st pool val =
        (st.removeShare pool (responseId val)).recordShare verdict sshare.work) ∨
    (trackedShare protocol st val = none ∧
      (parseResponse protocol st pool val = st ∨
        ∃ verdict, parseResponse protocol st pool val = st.recordUntracked verdict pool)) := by
  cases protocol with
  | stratum =>
    simp only [parseResponse, trackedShare, parseStratumResponse]
    by_cases named : stratumResponseHasId val = true
    · simp only [named, if_true]
      cases found : st.findShare (responseId val) with
      | some sshare =>
        refine Or.inl ⟨sshare, ?_⟩
        simp only [shareResult]
        split
        · exact ⟨.accepted, trivial, rfl⟩
        · exact ⟨.rejected, trivial, rfl⟩
      | none =>
        refine Or.inr ⟨rfl, ?_⟩
        cases jsonObjectGet val "result" with
        | none => exact Or.inl rfl
        | some res => exact Or.inr ⟨_, rfl⟩
    · simp only [named]
      exact Or.inr ⟨rfl, Or.inl rfl⟩
  | getwork =>
    simp only [parseResponse, trackedShare, parseGetworkResponse]
    cases found : st.findShare (responseId val) with
    | some sshare =>
      refine Or.inl ⟨sshare, ?_⟩
      cases result : jsonObjectGet val "result" with
      | some res => exact ⟨.accepted, rfl, by simp only [shareGetworkResult, result]⟩
      | none => exact ⟨.rejected, rfl, by simp only [shareGetworkResult, result]⟩
    | none =>
      refine Or.inr ⟨rfl, Or.inr ?_⟩
      cases jsonObjectGet val "result" with
      | some res => exact ⟨.accepted, rfl⟩
      | none => exact ⟨.rejected, rfl⟩

end State

end CgminerT4.Source.ShareTable
