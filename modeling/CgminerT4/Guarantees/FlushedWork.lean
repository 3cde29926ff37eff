import CgminerT4.Library.Runs
import CgminerT4.Source.T4Chain

/-!
# Results that arrive after a flush

A1_flush_work empties the queue and leaves the slots of the chips alone, so the
branch for flushed work is taken only by a chip that was never written. A flush
is effective exactly for these; every other result up to the next write is
submitted with the flushed work.
-/
namespace CgminerT4.Guarantees.FlushedWork
open Library.ByteString Library.Runs Source.T4Chain

/-- One result of the polling loop. -/
structure Handled where
  result : Result
  /-- Its chip was flushed and has not been written since. -/
  flushed : Bool
  outcome : Outcome
  deriving DecidableEq

structure World where
  a1 : Chain
  /-- A flush has come behind the last work of the chip. -/
  flushed : Nat → Bool
  /-- Some work has been written to the chip. -/
  everWritten : Nat → Bool
  handled : List Handled

inductive Event where
  /-- fill_queue and A1_queue_full, with the work that get_work returned. -/
  | queueFull (work : WorkPtr) (stale : Bool)
  /-- A1_scanwork, with what get_result returns and the chips whose set_work succeeds. -/
  | scanwork (results : List Result) (written : Nat → Bool)
  | flush

def step (s : World) : Event → Option World
  | .queueFull work stale => some { s with a1 := (queueFull (fillQueue s.a1 work) stale).1 }
  | .scanwork results written =>
    some {
      a1 := (scanwork s.a1 results written).1
      flushed := fun i => s.flushed i && !rewrites s.a1 written i
      everWritten := fun i => s.everWritten i || rewrites s.a1 written i
      handled := s.handled ++ (scanwork s.a1 results written).2.map fun handled =>
        ⟨handled.1, s.flushed (chipIndex handled.1), handled.2⟩ }
  | .flush => some { s with a1 := flushWork s.a1, flushed := fun _ => true }

/-- A chain of chips without work. Chip ids are bytes. -/
def start (numActiveChips : UInt8) (workStartDelay : Nat) : World :=
  { a1 := ⟨List.replicate numActiveChips.toNat ⟨none, 0, 0, 0⟩, [], workStartDelay, none, []⟩
    flushed := fun _ => false
    everWritten := fun _ => false
    handled := [] }

def stales (chips : List Chip) (i : Nat) : Nat := ((chips[i]?).map Chip.stales).getD 0

/-- No result of a flushed chip was submitted: unless its job_id was wrong it
was dropped as stale, and the counters show what was dropped. -/
structure Dropped (s : World) : Prop where
  dropped : ∀ h ∈ s.handled, h.flushed = true →
    h.outcome = if rightJob h.result then .stale (chipIndex h.result) else .wrongJob
  counted : ∀ i, stales s.a1.chips i = s.handled.countP fun h => h.outcome = .stale i

/-- No result of a flushed chip is polled, unless that chip was never written. -/
def NeverWritten (s : World) : Event → Prop
  | .scanwork results _ => ∀ r ∈ results.takeWhile (rightChip s.a1.chips),
    rightJob r = true → s.flushed (chipIndex r) = true → s.everWritten (chipIndex r) = false
  | _ => True

structure Inv (s : World) : Prop where
  written : ∀ i, (work0 s.a1.chips i).isSome = s.everWritten i
  counted : ∀ i, stales s.a1.chips i = s.handled.countP fun h => h.outcome = .stale i

theorem stales_modify (chips : List Chip) (i j : Nat) (change : Chip → Chip)
    (keeps : ∀ chip, (change chip).stales = chip.stales) :
    stales (chips.modify j change) i = stales chips i := by
  unfold stales
  rw [List.getElem?_modify]
  cases chips[i]? with
  | none => simp
  | some chip => by_cases same : j = i <;> simp [same, keeps]

theorem stales_setWork (chips : List Chip) (i j : Nat) (work : WorkPtr) (written : Bool) :
    stales (setWork chips j work written) i = stales chips i := by
  unfold setWork
  split
  · exact stales_modify chips i j _ fun _ => rfl
  · rfl

theorem stales_writeWork (work : WorkPtr) (written : Nat → Bool) (n i : Nat) (chips : List Chip) :
    stales (writeWork work written n chips) i = stales chips i := by
  induction n generalizing chips with
  | zero => rfl
  | succ n ih => rw [writeWork, ih, stales_setWork]

theorem stales_countOutcome (chips : List Chip) (r : Result) (i : Nat)
    (right : rightChip chips r = true) :
    stales (countOutcome chips (handleResult chips r)) i =
      stales chips i + if handleResult chips r = .stale i then 1 else 0 := by
  have present : chipIndex r < chips.length := by
    simp only [rightChip, Bool.and_eq_true, decide_eq_true_eq] at right
    unfold chipIndex
    omega
  unfold handleResult
  split
  · cases work0 chips (chipIndex r) with
    | none =>
      dsimp only [countOutcome]
      unfold stales
      rw [List.getElem?_modify]
      by_cases same : chipIndex r = i
      · subst same
        simp [present]
      · simp [same]
    | some work =>
      rw [if_neg (by simp)]
      exact stales_modify chips i _ _ fun _ => rfl
  · rw [if_neg (by simp)]
    rfl

/-- The stale counters rise by the results that were dropped as stale. -/
theorem stales_pollResults (chips : List Chip) (results : List Result) (i : Nat) :
    stales (pollResults chips results).1 i =
      stales chips i + (pollResults chips results).2.countP fun handled =>
        handled.2 = .stale i := by
  induction results generalizing chips with
  | nil => rfl
  | cons r rest ih =>
    unfold pollResults
    split
    · next right =>
      dsimp only
      rw [ih, stales_countOutcome chips r i right, List.countP_cons]
      simp only [decide_eq_true_eq]
      omega
    · rfl

theorem stales_scanwork (a1 : Chain) (results : List Result) (written : Nat → Bool) (i : Nat) :
    stales (scanwork a1 results written).1.chips i =
      stales a1.chips i + (scanwork a1 results written).2.countP fun handled =>
        handled.2 = .stale i := by
  have polled := stales_pollResults a1.chips results i
  rcases scanwork_cases a1 results written with ⟨_, _, same⟩ | ⟨work, rest, _, _, writes⟩
  · rw [same]
    exact polled
  · rw [writes]
    exact (stales_writeWork work written _ i _).trans polled

theorem inv_preserved (s : World) (e : Event) (next : World) (inv : Inv s)
    (taken : step s e = some next) : Inv next := by
  cases e with
  | queueFull work stale =>
    cases taken
    constructor
    · dsimp only
      rw [chips_queueFull]
      exact inv.written
    · dsimp only
      rw [chips_queueFull]
      exact inv.counted
  | flush =>
    cases taken
    exact ⟨inv.written, inv.counted⟩
  | scanwork results written =>
    cases taken
    constructor
    · intro i
      dsimp only
      rw [work0_scanwork, ← inv.written]
      split
      · next wrote =>
        rw [wrote, Bool.or_true]
        cases queue : s.a1.activeWq with
        | nil => simp [rewrites, dequeues, queue] at wrote
        | cons work rest => rfl
      · next kept => simp [kept]
    · intro i
      dsimp only
      rw [stales_scanwork, inv.counted, List.countP_append, List.countP_map]
      rfl

/-- A scan drops the results of flushed chips if and only if these chips were
never written. -/
theorem dropped_scanwork (s next : World) (results : List Result) (written : Nat → Bool)
    (inv : Inv s) (good : Dropped s) (taken : step s (.scanwork results written) = some next) :
    Dropped next ↔ NeverWritten s (.scanwork results written) := by
  have counted := (inv_preserved s _ next inv taken).counted
  have outcomes : (scanwork s.a1 results written).2 =
      (results.takeWhile (rightChip s.a1.chips)).map fun r => (r, handleResult s.a1.chips r) :=
    pollResults_outcomes s.a1.chips results
  cases taken
  constructor
  · intro dropped r polled right flushed
    have entry := dropped.dropped ⟨r, s.flushed (chipIndex r), handleResult s.a1.chips r⟩ (by
      apply List.mem_append_right
      apply List.mem_map.mpr
      refine ⟨(r, handleResult s.a1.chips r), ?_, rfl⟩
      rw [outcomes]
      exact List.mem_map_of_mem polled) flushed
    rw [← inv.written]
    dsimp only at entry
    unfold handleResult at entry
    rw [if_pos right, if_pos right] at entry
    cases slot : work0 s.a1.chips (chipIndex r) with
    | none => rfl
    | some work =>
      rw [slot] at entry
      cases entry
  · intro never
    refine ⟨?_, counted⟩
    intro h member flushed
    rcases List.mem_append.mp member with earlier | new
    · exact good.dropped h earlier flushed
    · obtain ⟨handled, scanned, rfl⟩ := List.mem_map.mp new
      rw [outcomes] at scanned
      obtain ⟨r, polled, rfl⟩ := List.mem_map.mp scanned
      dsimp only at flushed ⊢
      unfold handleResult
      split
      · next right =>
        have unwritten := never r polled right flushed
        rw [← inv.written, Option.isSome_eq_false_iff, Option.isNone_iff_eq_none] at unwritten
        rw [unwritten]
      · rfl

theorem dropped_step (s : World) (e : Event) (next : World) (inv : Inv s) (good : Dropped s)
    (taken : step s e = some next) : Dropped next ↔ NeverWritten s e := by
  cases e with
  | scanwork results written => exact dropped_scanwork s next results written inv good taken
  | queueFull work stale =>
    have counted := (inv_preserved s _ next inv taken).counted
    cases taken
    exact iff_of_true ⟨good.dropped, counted⟩ trivial
  | flush =>
    cases taken
    exact iff_of_true ⟨good.dropped, good.counted⟩ trivial

theorem stales_start (numActiveChips : UInt8) (workStartDelay i : Nat) :
    stales (start numActiveChips workStartDelay).a1.chips i = 0 := by
  dsimp only [start, stales]
  rw [List.getElem?_replicate]
  split <;> rfl

theorem inv_start (numActiveChips : UInt8) (workStartDelay : Nat) :
    Inv (start numActiveChips workStartDelay) := by
  refine ⟨fun i => ?_, stales_start numActiveChips workStartDelay⟩
  dsimp only [start, work0]
  rw [List.getElem?_replicate]
  split <;> rfl

/-- The results of flushed chips are dropped throughout a run if and only if
none of them comes from a chip that was ever written. -/
theorem flushed_work_dropped_iff (numActiveChips : UInt8) (workStartDelay : Nat) (es : List Event) :
    Always step Dropped (start numActiveChips workStartDelay) es ↔
      Guarded step NeverWritten (start numActiveChips workStartDelay) es := by
  apply always_iff_guarded_of_invariant inv_preserved dropped_step
  · exact inv_start numActiveChips workStartDelay
  · exact ⟨nofun, stales_start numActiveChips workStartDelay⟩

def lateResult : Result := ⟨1, 1, .zero 4, .zero 32⟩

/-- A work is written to the only chip and flushed; the result that comes then
is submitted with it. -/
theorem flushed_work_submitted :
    ∃ (es : List Event) (s : World), run step (start 1 0) es = some s ∧
      s.handled = [⟨lateResult, true, .submitted 0 7⟩] ∧
      ¬ Always step Dropped (start 1 0) es := by
  have reached : (run step (start 1 0)
      [.queueFull 7 false, .scanwork [] fun _ => true, .flush,
        .scanwork [lateResult] fun _ => true]).map
        World.handled = some [⟨lateResult, true, .submitted 0 7⟩] := by decide +kernel
  obtain ⟨s, ran, handled⟩ := Option.map_eq_some_iff.mp reached
  refine ⟨_, s, ran, handled, fun dropped => ?_⟩
  have stale := (always_final dropped ran).dropped
  rw [handled] at stale
  exact absurd (stale _ List.mem_cons_self rfl) (by decide)

end CgminerT4.Guarantees.FlushedWork
