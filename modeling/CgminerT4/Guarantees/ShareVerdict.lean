import CgminerT4.Source.ShareTable

/-!
# The verdict of a getwork reply

parse_getwork_response moves one pair of counters in each set it touches, by
one difficulty. It takes the presence of a result for acceptance; a null result
or an error besides the result is not looked at, unlike in auth_stratum and
parse_notify's siblings.
-/
namespace CgminerT4.Guarantees.ShareVerdict
open Source.Jansson Source.WorkItem Source.ShareTable Source.ShareTable.State

/-- A result that is not null. -/
def HasResult (val : Option Json) : Prop :=
  (jsonObjectGet val "result").isSome = true ∧ jsonIsNull (jsonObjectGet val "result") = false

/-- An error that is not null. -/
def HasError (val : Option Json) : Prop :=
  (jsonObjectGet val "error").isSome = true ∧ jsonIsNull (jsonObjectGet val "error") = false

instance (val : Option Json) : Decidable (HasResult val) := inferInstanceAs (Decidable (_ ∧ _))
instance (val : Option Json) : Decidable (HasError val) := inferInstanceAs (Decidable (_ ∧ _))

def verdict (val : Option Json) : Verdict :=
  if HasResult val ∧ ¬ HasError val then .accepted else .rejected

/-- One verdict of `diff` for the device, if any, for the pool and in the totals;
the counters of all others stay as they are. -/
structure Counted (before after : State) (outcome : Verdict) (diff : Double) (device : Option Nat)
    (pool : PoolNo) :
    Prop where
  cgpu : ∀ i, after.cgpu i =
    if device = some i then (before.cgpu i).add diff outcome else before.cgpu i
  pool : ∀ p, (after.pool p).counters =
    if p = pool then (before.pool p).counters.add diff outcome else (before.pool p).counters
  total : after.total = before.total.add diff outcome

/-- What the reply does to the counters when its verdict is `outcome`. -/
def Classified (st : State) (pool : PoolNo) (val : Option Json) (outcome : Verdict) : Prop :=
  let after := (st.parseGetworkResponse pool val).1
  match st.findShare (responseId val) with
  | some sshare =>
    Counted st after outcome sshare.work.workDifficulty (some sshare.work.thrId) sshare.work.pool
  | none => Counted st after outcome (st.pool pool).sdiff none pool

/-- The verdicts move different counters. -/
theorem add_ne (c : Counters) (diff : Double) : c.add diff .accepted ≠ c.add diff .rejected := by
  intro same
  have accepted : c.accepted + 1 = c.accepted := congrArg Counters.accepted same
  omega

/-- So a change of the counters is of one verdict at most. -/
theorem Counted.unique {before after : State} {first second : Verdict} {diff : Double}
    {device : Option Nat} {pool : PoolNo} (one : Counted before after first diff device pool)
    (other : Counted before after second diff device pool) : first = second := by
  have same : before.total.add diff first = before.total.add diff second :=
    one.total.symm.trans other.total
  cases first <;> cases second
  · rfl
  · exact absurd same (add_ne _ _)
  · exact absurd same.symm (add_ne _ _)
  · rfl

theorem recordShare_counted (before st : State) (outcome : Verdict) (work : Work)
    (cgpu : st.cgpu = before.cgpu) (pool : ∀ p, (st.pool p).counters = (before.pool p).counters)
    (total : st.total = before.total) :
    Counted before (st.recordShare outcome work) outcome work.workDifficulty
      (some work.thrId) work.pool := by
  constructor
  · intro i
    simp only [recordShare, Function.update_apply, cgpu, Option.some.injEq]
    by_cases here : i = work.thrId
    · rw [if_pos here, if_pos here.symm, here]
    · rw [if_neg here, if_neg (Ne.symm here)]
  · intro p
    simp only [recordShare, updatePool, Function.update_apply]
    by_cases here : p = work.pool
    · subst here
      rw [if_pos rfl, if_pos rfl, ← pool]
    · rw [if_neg here, if_neg here, pool]
  · simp only [recordShare, updatePool, total]

theorem recordUntracked_counted (st : State) (outcome : Verdict) (pool : PoolNo) :
    Counted st (st.recordUntracked outcome pool) outcome (st.pool pool).sdiff none pool := by
  constructor
  · intro i
    rw [if_neg (by rintro ⟨⟩)]
    rfl
  · intro p
    simp only [recordUntracked, updatePool, Function.update_apply]
    by_cases here : p = pool
    · subst here
      rw [if_pos rfl, if_pos rfl]
    · rw [if_neg here, if_neg here]
  · rfl

theorem removeShare_counters (st : State) (pool p : PoolNo) (id : Int) :
    ((st.removeShare pool id).pool p).counters = (st.pool p).counters := by
  simp only [removeShare, updatePool, Function.update_apply]
  by_cases here : p = pool
  · subst here
    rw [if_pos rfl]
  · rw [if_neg here]

/-- The code's own verdict. -/
def present (val : Option Json) : Verdict :=
  if (jsonObjectGet val "result").isSome then .accepted else .rejected

/-- Tracked or not, one verdict is counted everywhere. -/
theorem parseGetworkResponse_classified (st : State) (pool : PoolNo) (val : Option Json) :
    Classified st pool val (present val) := by
  unfold Classified parseGetworkResponse present
  cases st.findShare (responseId val) with
  | some sshare =>
    have counted (outcome : Verdict) :=
      recordShare_counted st (st.removeShare pool (responseId val)) outcome
      sshare.work rfl (fun p => removeShare_counters st pool p (responseId val)) rfl
    dsimp only
    unfold shareGetworkResult
    cases jsonObjectGet val "result" with
    | some res => exact counted .accepted
    | none => exact counted .rejected
  | none =>
    dsimp only
    cases jsonObjectGet val "result" with
    | some res => exact recordUntracked_counted st .accepted pool
    | none => exact recordUntracked_counted st .rejected pool

theorem classified_unique (st : State) (pool : PoolNo) (val : Option Json) (first second : Verdict)
    (one : Classified st pool val first) (other : Classified st pool val second) :
    first = second := by
  unfold Classified at one other
  cases found : st.findShare (responseId val) with
  | some sshare =>
    rw [found] at one other
    exact one.unique other
  | none =>
    rw [found] at one other
    exact one.unique other

/-- The reply has no result, or one that is not null and no error besides it. -/
def Consistent (val : Option Json) : Prop :=
  (jsonObjectGet val "result").isSome = true →
    jsonIsNull (jsonObjectGet val "result") = false ∧ ¬ HasError val

theorem present_eq_verdict_iff (val : Option Json) :
    present val = verdict val ↔ Consistent val := by
  unfold present verdict Consistent
  by_cases answered : (jsonObjectGet val "result").isSome = true
  · rw [if_pos answered]
    constructor
    · intro same _
      by_contra other
      rw [if_neg fun ⟨result, clean⟩ => other ⟨result.2, clean⟩] at same
      cases same
    · intro consistent
      obtain ⟨result, clean⟩ := consistent answered
      rw [if_pos ⟨⟨answered, result⟩, clean⟩]
  · rw [if_neg answered, if_neg fun accepted => answered accepted.1.1]
    exact ⟨fun _ present => absurd present answered, fun _ => rfl⟩

theorem classified_iff (st : State) (pool : PoolNo) (val : Option Json) :
    Classified st pool val (verdict val) ↔ Consistent val := by
  rw [← present_eq_verdict_iff]
  have own := parseGetworkResponse_classified st pool val
  constructor
  · exact fun counted => classified_unique st pool val _ _ own counted
  · exact fun same => same ▸ own

/-- `{"id":1,"result":null,"error":{"code":-1}}` -/
def refusal : Json :=
  .object [("id", .integer 1), ("result", .null), ("error", .object [("code", .integer (-1))])]

def noCounters : Counters := ⟨0, 0, 0, 0⟩

/-- A miner with no share in flight. -/
def idle : State :=
  ⟨[], 2, fun _ => ⟨noCounters, 0, 0, 0, 0, 1⟩, fun _ => noCounters, noCounters, 0, 0⟩

/-- The refusal is counted as accepted. -/
theorem refusal_accepted :
    verdict (some refusal) = .rejected ∧
      (idle.parseGetworkResponse 0 (some refusal)).1.total.accepted = 1 ∧
      ¬ Classified idle 0 (some refusal) (verdict (some refusal)) := by
  have rejected : verdict (some refusal) = .rejected := by
    unfold verdict HasResult
    rw [if_neg (by rintro ⟨⟨_, null⟩, _⟩; cases null)]
  refine ⟨rejected, rfl, fun counted => ?_⟩
  have own :=
    classified_unique idle 0 (some refusal) _ _
      (parseGetworkResponse_classified idle 0 (some refusal)) counted
  rw [rejected] at own
  cases own

end CgminerT4.Guarantees.ShareVerdict
