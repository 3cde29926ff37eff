import CgminerT4.Library.Runs
import CgminerT4.Source.T4Chain
import Mathlib.Logic.Function.Basic

/-!
# Results and the work they were found for

The driver polls, dequeues a work and writes it chip by chip; chips find results
for the job they execute at any time, and a result waits until it is polled. A
result is submitted with the work in the slot of its chip. That is the right
work as long as no slot is overwritten while a result of its chip waits: the
job_id of every job is one, so nothing else tells jobs apart.
-/
namespace CgminerT4.Guarantees.ResultAttribution
open Library.ByteString Library.Runs Source.T4Chain

/-- The driver in A1_scanwork. -/
inductive Phase where
  /-- In or before the polling loop. -/
  | polling
  /-- In the write loop, with this number of chips still to write. -/
  | writing (work : WorkPtr) (left : Nat)

structure Job where
  work : WorkPtr
  jobId : UInt8

/-- A result that waits to be polled, with the work of the job it was found for. -/
structure Found where
  result : Result
  work : WorkPtr

/-- One call of submit_nonce_hash. -/
structure Submission where
  result : Result
  work : WorkPtr
  foundFor : WorkPtr
  deriving DecidableEq

structure World where
  a1 : Chain
  phase : Phase
  executing : Nat → Option Job
  found : List Found
  submitted : List Submission

inductive Event where
  /-- fill_queue and A1_queue_full, with the work that get_work returned. -/
  | queueFull (work : WorkPtr) (stale : Bool)
  | flush
  /-- A chip finds a result for its job. -/
  | find (chip : Nat) (nonce : Buffer 4) (hash : Buffer 32)
  /-- get_result returns one of the waiting results. -/
  | poll (index : Nat)
  /-- The end of polling: dequeue and reset, which stops some of the chips. -/
  | dequeue (stopped : List Nat)
  /-- set_work for the next chip. -/
  | write (written : Bool)

def submission (f : Found) : Outcome → List Submission
  | .submitted _ work => [⟨f.result, work, f.work⟩]
  | _ => []

def step (s : World) : Event → Option World
  | .queueFull work stale =>
    match s.phase with
    | .polling => some { s with a1 := (queueFull (fillQueue s.a1 work) stale).1 }
    | .writing _ _ => none
  | .flush =>
    match s.phase with
    | .polling => some { s with a1 := flushWork s.a1 }
    | .writing _ _ => none
  | .find chip nonce hash =>
    (s.executing chip).map fun job =>
      { s with found := s.found ++ [⟨⟨job.jobId, UInt8.ofNat (chip + 1), nonce, hash⟩, job.work⟩] }
  | .poll index =>
    match s.phase, s.found[index]? with
    | .polling, some f =>
      let (chips, outcomes) := pollResults s.a1.chips [f.result]
      some { s with
        a1 := { s.a1 with chips }
        found := s.found.eraseIdx index
        submitted := s.submitted ++ outcomes.flatMap fun handled => submission f handled.2 }
    | _, _ => none
  | .dequeue stopped =>
    match s.phase with
    | .polling =>
      if s.a1.workStartDelay > 0 then
        some { s with a1 := { s.a1 with workStartDelay := s.a1.workStartDelay - 1 } }
      else
        match s.a1.activeWq with
        | [] => some s
        | work :: rest =>
          some { s with
            a1 := { s.a1 with activeWq := rest }
            phase := .writing work s.a1.chips.length
            executing := fun chip => if chip ∈ stopped then none else s.executing chip }
    | .writing _ _ => none
  | .write written =>
    match s.phase with
    | .writing _ 0 => some { s with phase := .polling }
    | .writing work (chip + 1) =>
      some { s with
        a1 := { s.a1 with chips := setWork s.a1.chips chip work written }
        phase := .writing work chip
        executing :=
          if written then Function.update s.executing chip (some ⟨work, jobIdOne⟩) else
            s.executing }
    | .polling => none

/-- A chain of chips without work. Chip ids are bytes. -/
def start (numActiveChips : UInt8) (workStartDelay : Nat) : World :=
  { a1 := ⟨List.replicate numActiveChips.toNat ⟨none, 0, 0, 0⟩, [], workStartDelay, none, []⟩
    phase := .polling
    executing := fun _ => none
    found := []
    submitted := [] }

/-- Every result was submitted with the work it was found for. -/
def Attributed (s : World) : Prop := ∀ x ∈ s.submitted, x.work = x.foundFor

/-- The chip that is written next. -/
def nextChip : Phase → Option Nat
  | .writing _ (chip + 1) => some chip
  | _ => none

/-- No result of a chip waits while the next job is written to it. -/
def Drained (s : World) : Event → Prop
  | .write written =>
    written = true → ∀ chip ∈ nextChip s.phase, ∀ f ∈ s.found, chipIndex f.result ≠ chip
  | _ => True

instance (s : World) : (e : Event) → Decidable (Drained s e)
  | .write written => inferInstanceAs (Decidable
      (written = true → ∀ chip ∈ nextChip s.phase, ∀ f ∈ s.found, chipIndex f.result ≠ chip))
  | .queueFull _ _ => isTrue trivial
  | .flush => isTrue trivial
  | .find _ _ _ => isTrue trivial
  | .poll _ => isTrue trivial
  | .dequeue _ => isTrue trivial

/-- Slots agree with what the chips execute and with what waits. -/
structure Inv (s : World) : Prop where
  size : s.a1.chips.length < 256
  writing : ∀ work left, s.phase = .writing work left → left ≤ s.a1.chips.length
  executing : ∀ chip job, s.executing chip = some job →
    chip < s.a1.chips.length ∧ work0 s.a1.chips chip = some job.work
  found : ∀ f ∈ s.found, work0 s.a1.chips (chipIndex f.result) = some f.work
  attributed : Attributed s

/-- Steps that touch the queue only. -/
theorem inv_of_same_chips (s next : World) (inv : Inv s) (chips : next.a1.chips = s.a1.chips)
    (phase : next.phase = s.phase) (executing : next.executing = s.executing)
    (found : next.found = s.found) (submitted : next.submitted = s.submitted) : Inv next := by
  constructor
  · rw [chips]
    exact inv.size
  · rw [chips, phase]
    exact inv.writing
  · rw [chips, executing]
    exact inv.executing
  · rw [chips, found]
    exact inv.found
  · rw [Attributed, submitted]
    exact inv.attributed

theorem find_preserves (s next : World) (chip : Nat) (nonce : Buffer 4) (hash : Buffer 32)
    (inv : Inv s) (taken : step s (.find chip nonce hash) = some next) : Inv next := by
  obtain ⟨job, executes, rfl⟩ := Option.map_eq_some_iff.mp taken
  obtain ⟨present, slot⟩ := inv.executing chip job executes
  refine ⟨inv.size, inv.writing, inv.executing, ?_, inv.attributed⟩
  intro f member
  rcases List.mem_append.mp member with waiting | new
  · exact inv.found f waiting
  · have index : chipIndex ⟨job.jobId, UInt8.ofNat (chip + 1), nonce, hash⟩ = chip := by
      have size := inv.size
      simp only [chipIndex, UInt8.toNat_ofNat']
      omega
    rw [List.mem_singleton.mp new]
    dsimp only
    rw [index]
    exact slot

/-- A polled result meets the slot it was found for. -/
theorem poll_preserves (s next : World) (index : Nat) (inv : Inv s)
    (taken : step s (.poll index) = some next) : Inv next := by
  simp only [step] at taken
  split at taken
  · next f polling read =>
    have waits := List.mem_of_getElem? read
    obtain ⟨length, slots⟩ := pollResults_chips s.a1.chips [f.result]
    have outcomes := pollResults_outcomes s.a1.chips [f.result]
    cases taken
    refine ⟨?_, ?_, ?_, ?_, ?_⟩
    · dsimp only
      rw [length]
      exact inv.size
    · dsimp only
      rw [length]
      exact inv.writing
    · dsimp only
      rw [length]
      intro chip job executes
      rw [slots]
      exact inv.executing chip job executes
    · intro other member
      dsimp only
      rw [slots]
      exact inv.found other (List.mem_of_mem_eraseIdx member)
    · intro x member
      rcases List.mem_append.mp member with earlier | new
      · exact inv.attributed x earlier
      · obtain ⟨outcome, handled, entry⟩ := List.mem_flatMap.mp new
        rw [outcomes] at handled
        obtain ⟨r, one, rfl⟩ := List.mem_map.mp handled
        have same := List.mem_singleton.mp (List.takeWhile_sublist _ |>.mem one)
        subst same
        have slot := inv.found f waits
        unfold handleResult at entry
        split at entry
        · rw [slot] at entry
          rw [List.mem_singleton.mp entry]
        · cases entry
  · cases taken

theorem dequeue_preserves (s next : World) (stopped : List Nat) (inv : Inv s)
    (taken : step s (.dequeue stopped) = some next) : Inv next := by
  simp only [step] at taken
  split at taken
  · split at taken
    · cases taken
      exact inv_of_same_chips s _ inv rfl rfl rfl rfl rfl
    · split at taken
      · cases taken
        exact inv
      · next work rest queued =>
        cases taken
        refine ⟨inv.size, ?_, ?_, inv.found, inv.attributed⟩
        · intro other left phase
          cases phase
          exact Nat.le_refl _
        · intro chip job executes
          dsimp only at executes
          split at executes
          · cases executes
          · exact inv.executing chip job executes
  · cases taken

/-- A write whose chip has no result waiting. -/
theorem write_preserves (s next : World) (written : Bool) (inv : Inv s)
    (drained : Drained s (.write written)) (taken : step s (.write written) = some next) :
    Inv next := by
  simp only [step] at taken
  split at taken
  · cases taken
    exact ⟨inv.size, nofun, inv.executing, inv.found, inv.attributed⟩
  · next work chip phase =>
    have inside := inv.writing work (chip + 1) phase
    have slots := fun j => work0_setWork s.a1.chips chip j work written inside
    have length := length_setWork s.a1.chips chip work written
    cases taken
    refine ⟨?_, ?_, ?_, ?_, inv.attributed⟩
    · dsimp only
      rw [length]
      exact inv.size
    · intro other left same
      cases same
      dsimp only
      rw [length]
      omega
    · intro other job executes
      dsimp only at executes ⊢
      rw [length, slots]
      cases written with
      | false => simpa using inv.executing other job (by simpa using executes)
      | true =>
        rw [if_pos rfl] at executes
        by_cases same : other = chip
        · subst same
          rw [Function.update_self] at executes
          cases executes
          exact ⟨inside, by simp⟩
        · rw [Function.update_of_ne same] at executes
          simpa [same] using inv.executing other job executes
    · intro f waits
      dsimp only
      rw [slots]
      have untouched : ¬ (written = true ∧ chipIndex f.result = chip) :=
        fun ⟨success, same⟩ => drained success chip (by rw [phase]; rfl) f waits same
      rw [if_neg untouched]
      exact inv.found f waits
  · cases taken

theorem inv_preserved (s : World) (e : Event) (next : World) (inv : Inv s) (drained : Drained s e)
    (taken : step s e = some next) : Inv next := by
  cases e with
  | queueFull work stale =>
    simp only [step] at taken
    split at taken
    · cases taken
      exact inv_of_same_chips s _ inv (chips_queueFull s.a1 work stale) rfl rfl rfl rfl
    · cases taken
  | flush =>
    simp only [step] at taken
    split at taken
    · cases taken
      exact inv_of_same_chips s _ inv rfl rfl rfl rfl rfl
    · cases taken
  | find chip nonce hash => exact find_preserves s next chip nonce hash inv taken
  | poll index => exact poll_preserves s next index inv taken
  | dequeue stopped => exact dequeue_preserves s next stopped inv taken
  | write written => exact write_preserves s next written inv drained taken

theorem inv_start (numActiveChips : UInt8) (workStartDelay : Nat) :
    Inv (start numActiveChips workStartDelay) := by
  refine ⟨?_, nofun, nofun, by simp [start], by simp [start, Attributed]⟩
  rw [start, List.length_replicate]
  exact numActiveChips.toNat_lt

/-- In a run that writes no chip while a result of it waits, every result is
submitted with the work it was found for. -/
theorem results_attributed (numActiveChips : UInt8) (workStartDelay : Nat) (es : List Event)
    (drained : Guarded step Drained (start numActiveChips workStartDelay) es) :
    Always step Attributed (start numActiveChips workStartDelay) es :=
  always_mono (fun _ inv => inv.attributed)
    (always_of_guarded inv_preserved (inv_start numActiveChips workStartDelay) drained)

/-- A work is queued, written to the only chip and finds a result. -/
def firstWork : List Event :=
  [.queueFull 1 false, .dequeue [], .write true, .write true, .find 0 (.zero 4) (.zero 32)]

/-- The result is polled before the next work is written. -/
theorem results_attributed_polled_first :
    Always step Attributed (start 1 0)
      (firstWork ++ [.queueFull 2 false, .poll 0, .dequeue [0], .write true, .write true]) :=
  results_attributed 1 0 _ (by decide +kernel)

/-- The result is polled after the next work is written, and submitted with that. -/
theorem late_result_misattributed :
    ∃ s, run step (start 1 0)
        (firstWork ++ [.queueFull 2 false, .dequeue [0], .write true, .write true, .poll 0]) =
          some s ∧
      s.submitted = [⟨⟨1, 1, .zero 4, .zero 32⟩, 2, 1⟩] ∧
      ¬ Always step Attributed (start 1 0)
        (firstWork ++ [.queueFull 2 false, .dequeue [0], .write true, .write true, .poll 0]) := by
  have reached : (run step (start 1 0)
      (firstWork ++ [.queueFull 2 false, .dequeue [0], .write true, .write true, .poll 0])).map
        World.submitted = some [⟨⟨1, 1, .zero 4, .zero 32⟩, 2, 1⟩] := by decide +kernel
  obtain ⟨s, ran, submitted⟩ := Option.map_eq_some_iff.mp reached
  refine ⟨s, ran, submitted, fun attributed => ?_⟩
  have same := always_final attributed ran
  rw [Attributed, submitted] at same
  exact absurd (same _ List.mem_cons_self) (by decide)

end CgminerT4.Guarantees.ResultAttribution
