import CgminerT4.Library.Repeats
import CgminerT4.Source.ShareSender

/-!
# Duplicate shares

The filter of stratum_sthread and new_nonce compare with what they handled last,
from zero on. Neither looks at the job or the ntime, and new_nonce not at the
nonce2, so a share of another job with the nonce of the share before is dropped,
and so is a first share with nonce zero.
-/
namespace CgminerT4.Guarantees.DuplicateFilter
open Library.ByteString Library.Repeats Source.WorkItem Source.ShareSender

/-! ## The sender thread of a pool -/

/-- What the filter compares. -/
def shareKey (work : Work) : Nat × UInt64 := (workNonce work, work.nonce2)

/-- The shares are one share to the pool. -/
def SameShare (a b : Work) : Prop :=
  a.jobId = b.jobId ∧ a.nonce2 = b.nonce2 ∧ a.ntime = b.ntime ∧ workNonce a = workNonce b

/-- The shares that reach the filter. -/
def filtered (queue : List Work) : List Work := queue.filter fun work => work.nonce2Len ≤ 8

theorem admitShare_stratum (last : LastShare) (work : Work) (short : ¬ work.nonce2Len > 8) :
    admitShare .stratum last work =
      if shareKey work = (last.nonce, last.nonce2) then none else some ⟨workNonce work,
        work.nonce2⟩ := by
  simp only [admitShare, if_neg short, shareKey, Prod.mk.injEq]

theorem filterShares_eq (last : LastShare) (queue : List Work) :
    filterShares last queue = screen shareKey (last.nonce, last.nonce2) (filtered queue) := by
  induction queue generalizing last with
  | nil => rfl
  | cons work queue ih =>
    by_cases long : work.nonce2Len > 8
    · have skipped : filtered (work :: queue) = filtered queue :=
        List.filter_cons_of_neg (by simpa using long)
      rw [filterShares, if_pos long, ih, skipped]
    · have reaches : filtered (work :: queue) = work :: filtered queue :=
        List.filter_cons_of_pos (by simpa using long)
      rw [filterShares, if_neg long, admitShare_stratum last work long, reaches, screen]
      by_cases repeated : shareKey work = (last.nonce, last.nonce2)
      · simp only [if_pos repeated, ih]
      · simp only [if_neg repeated, ih]
        rfl

/-! ## The nonces of a device -/

/-- The found nonces are one share to the pool. -/
def SameFinding (a b : Work × UInt32) : Prop :=
  a.1.jobId = b.1.jobId ∧ a.1.nonce2 = b.1.nonce2 ∧ a.1.ntime = b.1.ntime ∧ a.2 = b.2

/-- What submit_nonce gets, each with whether new_nonce rejects it. -/
def nonceLog (testNonce : Work → UInt32 → Bool) (lastNonce : UInt32)
    (found : List (Work × UInt32)) :
    List ((Work × UInt32) × Bool) :=
  (submitNonces testNonce lastNonce found).map fun (pair, result) => (pair, result == .duplicate)

/-- Whether the nonce is valid does not matter to what is remembered. -/
theorem nonceLog_eq (testNonce : Work → UInt32 → Bool) (lastNonce : UInt32)
    (found : List (Work × UInt32)) :
    nonceLog testNonce lastNonce found = screen Prod.snd lastNonce found := by
  induction found generalizing lastNonce with
  | nil => rfl
  | cons pair found ih =>
    obtain ⟨work, nonce⟩ := pair
    have rest : ∀ next, (submitNonces testNonce next found).map
        (fun (pair, result) => (pair, result == .duplicate)) = screen Prod.snd next found := ih
    rw [nonceLog, submitNonces, List.map_cons, rest, screen]
    by_cases repeated : lastNonce = nonce
    · have duplicate : submitNonce testNonce lastNonce work nonce = (lastNonce, .duplicate) := by
        rw [submitNonce, newNonce, if_pos repeated]
      rw [duplicate, if_pos repeated.symm]
      rfl
    · have fresh : submitNonce testNonce lastNonce work nonce =
          (nonce, if testNonce work nonce then .submitted else .invalid) := by
        rw [submitNonce, newNonce, if_neg repeated]
      rw [fresh, if_neg (Ne.symm repeated)]
      cases testNonce work nonce <;> rfl

/-! ## Only repetitions are dropped -/

/-- For the shares of any queue and the nonces of any device, with any outcome of
their tests: only repetitions are dropped exactly when the first one is not
zero and one that follows another with the same nonce (and, in the queue, the
same nonce2) repeats it or an earlier one. -/
theorem only_repeats_dropped_iff (queue : List Work) (testNonce : Work → UInt32 → Bool)
    (found : List (Work × UInt32)) :
    (DropsRepeats SameShare (filterShares .start queue) ↔
      Telling shareKey SameShare (0, 0) (filtered queue)) ∧
    (DropsRepeats SameFinding (nonceLog testNonce 0 found) ↔
      Telling Prod.snd SameFinding 0 found) := by
  constructor
  · rw [filterShares_eq]
    exact dropsRepeats_iff shareKey SameShare (0, 0) (filtered queue)
  · rw [nonceLog_eq]
    exact dropsRepeats_iff Prod.snd SameFinding 0 found

/-- The first work of a job, with nonce one in its header. -/
def firstWork (jobId : Bytes) : Work :=
  { makeWork with
    data := (Buffer.zero 128).set 76 1
    stratum := true
    jobId := some jobId
    ntime := some (List.replicate 8 53)
    nonce2Len := 4 }

/-- Nonce one for the first work of one job and then of the next. -/
theorem distinct_share_dropped :
    ¬ DropsRepeats SameShare (filterShares .start [firstWork [97], firstWork [98]]) ∧
    ¬ DropsRepeats SameFinding
      (nonceLog (fun _ _ => true) 0 [(firstWork [97], 1), (firstWork [98], 1)]) := by
  constructor
  · intro drops
    obtain ⟨earlier, handled, repeats⟩ := drops [(firstWork [97], false)] (firstWork [98]) []
      (by decide +kernel)
    rw [List.mem_singleton.mp handled] at repeats
    exact absurd repeats.1 (by decide)
  · intro drops
    obtain ⟨earlier, handled, repeats⟩ := drops [((firstWork [97], 1), false)]
      (firstWork [98], 1) [] (by decide +kernel)
    rw [List.mem_singleton.mp handled] at repeats
    exact absurd repeats.1 (by decide)

end CgminerT4.Guarantees.DuplicateFilter
