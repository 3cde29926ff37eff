import CgminerT4.Guarantees.ShareVerdict
import CgminerT4.Source.ShareResult

/-!
# The reason of a rejected share

Every text fits: the reason is cut to 28 bytes, the others go through snprintf.
What fails is a reason that is there but no string, whose text is a NULL pointer.
-/
namespace CgminerT4.Guarantees.RejectReasons
open Library.ByteString Source.Jansson Source.WorkItem Source.ShareTable Source.ShareResult
  ShareVerdict

/-- share_result has a result, and one of accepted and rejected is counted on the
device, for the pool and in the totals. -/
def Handles (quiet : Bool) (totalPools : Int) (val res err : Option Json) (work : Work)
    (stack : Locals) (st : State) :
    Prop :=
  ∃ after texts outcome, shareResult quiet totalPools val res err work stack st =
    some (after, texts) ∧
    Counted st after outcome work.workDifficulty (some work.thrId) work.pool

/-- Nothing is printed, or the reason is missing or a string. -/
def Printable (quiet : Bool) (val res : Option Json) (work : Work) : Prop :=
  isAccepted res work = true ∨ quiet = true ∨
    ∀ member, reasonMember val res work = some member →
      (jsonStringValue (some member)).isSome = true

theorem length_snprintf (size : Nat) (text : Bytes) (positive : 0 < size) :
    (snprintf size text).length ≤ size := by
  rw [snprintf, List.length_append, List.length_take, List.length_singleton]
  omega

theorem storeReason_isSome (l : Locals) (reasontmp : Option Bytes) :
    (storeReason l reasontmp).isSome = true ↔ reasontmp.isSome = true := by
  cases reasontmp with
  | none => exact Iff.rfl
  | some text =>
    have cut : (text.take (min 28 text.length)).length ≤ min 28 text.length :=
      List.length_take_le _ _
    obtain ⟨reason, stored⟩ := Option.isSome_iff_exists.mp ((l.reason.storeAll_isSome
      [(0, [32]), (1, [40]), (2, text.take (min 28 text.length)), (min 28 text.length + 2, [41]),
        (min 28 text.length + 3, [0])]).mpr (by
          simp only [List.forall_mem_cons, List.length_singleton]
          exact ⟨by omega, by omega, by omega, by omega, by omega, List.forall_mem_nil _⟩))
    obtain ⟨disposition, written⟩ := Option.isSome_iff_exists.mp ((l.disposition.storeAll_isSome
      [(7, text.take (min 28 text.length)), (6, [58]), (min 28 text.length + 7, [0])]).mpr (by
          simp only [List.forall_mem_cons, List.length_singleton]
          exact ⟨by omega, by omega, by omega, List.forall_mem_nil _⟩))
    unfold storeReason
    dsimp only [Option.bind_some]
    rw [stored, Option.bind_some, written]
    exact iff_of_true rfl rfl

theorem rejection_isSome (totalPools : Int) (val res err : Option Json) (work : Work)
    (stack : Locals) :
    (rejection totalPools val res err work stack).isSome = true ↔
      ∀ member, reasonMember val res work = some member →
        (jsonStringValue (some member)).isSome = true := by
  obtain ⟨reason, emptied, _⟩ := stack.reason.store_of_fits 0 [0] (by decide)
  obtain ⟨place, placed, _⟩ := stack.place.store_of_fits 0
    (if totalPools > 1 then snprintf 20 (ascii "pool " ++ decimal work.pool) else [0]) (by
      split
      · have short := length_snprintf 20 (ascii "pool " ++ decimal work.pool) (by decide)
        omega
      · decide)
  unfold rejection
  rw [emptied, Option.bind_some, placed, Option.bind_some]
  cases reasonMember val res work with
  | some member =>
    dsimp only
    rw [storeReason_isSome]
    exact ⟨fun text other same => Option.some.inj same ▸ text, fun texts => texts member rfl⟩
  | none =>
    refine iff_of_true ?_ fun _ never => nomatch never
    dsimp only
    cases if work.stratum && err.isSome then stratumError err else none with
    | some text =>
      have short := length_snprintf 31 (parenthesised text) (by decide)
      obtain ⟨written, stored, _⟩ :=
        reason.store_of_fits 0 (snprintf 31 (parenthesised text)) (by omega)
      dsimp only
      rw [stored]
      rfl
    | none => rfl

/-- Every call that has a result counts the share once in each set. -/
theorem shareResult_counted (st : State) (res : Option Json) (work : Work) :
    Counted st (st.shareResult res work) (if isAccepted res work then .accepted else
      .rejected) work.workDifficulty
      (some work.thrId) work.pool := by
  have counted (outcome : Verdict) := recordShare_counted st st outcome work rfl (fun _ => rfl) rfl
  unfold State.shareResult isAccepted
  split
  · exact counted .accepted
  · exact counted .rejected

theorem handles_iff (quiet : Bool) (totalPools : Int) (val res err : Option Json) (work : Work)
    (stack : Locals) (st : State) :
    Handles quiet totalPools val res err work stack st ↔ Printable quiet val res work := by
  have counted := shareResult_counted st res work
  unfold Handles Printable shareResult
  rw [← rejection_isSome totalPools val res err work stack, ← or_assoc, ← Bool.or_eq_true]
  cases silent : isAccepted res work || quiet with
  | true =>
    exact iff_of_true ⟨_, none, _, rfl, counted⟩ (Or.inl rfl)
  | false =>
    rw [or_iff_right Bool.false_ne_true]
    dsimp only
    rw [if_neg Bool.false_ne_true]
    constructor
    · rintro ⟨after, texts, outcome, result, _⟩
      obtain ⟨l, done, _⟩ := Option.map_eq_some_iff.mp result
      rw [done]
      rfl
    · intro printed
      obtain ⟨l, done⟩ := Option.isSome_iff_exists.mp printed
      rw [done]
      exact ⟨_, some l, _, rfl, counted⟩

/-- `{"id":5,"result":false,"error":null,"reject-reason":null}` -/
def silentRefusal : Json :=
  .object [("id", .integer 5), ("result", .bool false), ("error", .null), ("reject-reason", .null)]

def emptyLocals : Locals := ⟨.zero 20, .zero 36, .zero 32⟩

/-- The reason is JSON null, so strlen gets a NULL pointer. -/
theorem silentRefusal_unhandled :
    ¬ Handles false 1 (some silentRefusal) (jsonObjectGet (some silentRefusal) "result")
      (jsonObjectGet (some silentRefusal) "error") { makeWork with stratum := true }
        emptyLocals idle := by
  rintro ⟨after, texts, outcome, result, _⟩
  have never : rejection 1 (some silentRefusal) (jsonObjectGet (some silentRefusal) "result")
      (jsonObjectGet (some silentRefusal) "error") { makeWork with stratum := true } emptyLocals =
        none := by
    rw [← Option.not_isSome_iff_eq_none, rejection_isSome]
    exact fun printable => Bool.false_ne_true (printable .null rfl)
  unfold shareResult at result
  rw [never] at result
  cases result

end CgminerT4.Guarantees.RejectReasons
