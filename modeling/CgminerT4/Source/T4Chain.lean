import CgminerT4.Library.ByteString

/-!
# One T4 chain (driver-SPI-bitmine-t4.c, t4_common.c) and its queued work (cgminer.c)

A `struct work *` is a number, by order of allocation. Each chip has the one
slot `work[0]` that set_work fills; of the chain's counters those that the
polling loop and the write loop change are kept. Temperatures, the difficulty
limit, the return value and a chain without cores are left out. Allocation never
fails; whether a write or a read succeeds is an argument.
-/
namespace CgminerT4.Source.T4Chain
open Library.ByteString

abbrev WorkPtr := Nat

/-- What get_result reads of the chain: the high half of the first byte, the
second byte, the nonce and the hash. -/
structure Result where
  jobId : UInt8
  chipId : UInt8
  nonce : Buffer 4
  hash : Buffer 32
  deriving DecidableEq

structure Chip where
  work0 : Option WorkPtr
  stales : Nat
  noncesFound : Nat
  nonceRangesDone : Nat
  deriving DecidableEq

/-- The fields of the chain, with the chips up to `num_active_chips`, and of its
cgpu. -/
structure Chain where
  chips : List Chip
  activeWq : List WorkPtr
  workStartDelay : Nat
  unqueuedWork : Option WorkPtr
  queuedWork : List WorkPtr
  deriving DecidableEq

def work0 (chips : List Chip) (i : Nat) : Option WorkPtr := (chips[i]?).bind Chip.work0

/-- The index of the chip a result names. -/
def chipIndex (r : Result) : Nat := r.chipId.toNat - 1

/-- Otherwise the polling loop ends. -/
def rightChip (chips : List Chip) (r : Result) : Bool :=
  1 ≤ r.chipId.toNat && r.chipId.toNat ≤ chips.length

/-- Otherwise the result is skipped. -/
def rightJob (r : Result) : Bool := 1 ≤ r.jobId && r.jobId ≤ 4

/-- What the polling loop does with a result of an existing chip. -/
inductive Outcome where
  | wrongJob
  | stale (chip : Nat)
  /-- submit_nonce_hash is called with this work; it always returns true. -/
  | submitted (chip : Nat) (work : WorkPtr)
  deriving DecidableEq

def handleResult (chips : List Chip) (r : Result) : Outcome :=
  if rightJob r then
    match work0 chips (chipIndex r) with
    | none => .stale (chipIndex r)
    | some work => .submitted (chipIndex r) work
  else .wrongJob

def countOutcome (chips : List Chip) : Outcome → List Chip
  | .wrongJob => chips
  | .stale i => chips.modify i fun chip => { chip with stales := chip.stales + 1 }
  | .submitted i _ => chips.modify i fun chip => { chip with noncesFound := chip.noncesFound + 1 }

/-- The polling loop over what get_result returns until it fails: the chips and
the results that were handled. -/
def pollResults (chips : List Chip) : List Result → List Chip × List (Result × Outcome)
  | [] => (chips, [])
  | r :: rest =>
    if rightChip chips r then
      let outcome := handleResult chips r
      let (chips, outcomes) := pollResults (countOutcome chips outcome) rest
      (chips, (r, outcome) :: outcomes)
    else (chips, [])

/-- The job_id that set_work uses for every job. -/
def jobIdOne : UInt8 := 1

/-- set_work and what A1_scanwork does with its result. -/
def setWork (chips : List Chip) (i : Nat) (work : WorkPtr) (written : Bool) : List Chip :=
  if written then
    chips.modify i fun chip =>
      { chip with work0 := some work, nonceRangesDone := chip.nonceRangesDone + 1 }
  else chips

/-- The write loop, from the last chip to the first. -/
def writeWork (work : WorkPtr) (written : Nat → Bool) : Nat → List Chip → List Chip
  | 0, chips => chips
  | i + 1, chips => writeWork work written i (setWork chips i work (written i))

/-- The part of A1_scanwork under the lock. -/
def rewriteChips (a1 : Chain) (written : Nat → Bool) : Chain :=
  if a1.workStartDelay > 0 then { a1 with workStartDelay := a1.workStartDelay - 1 }
  else
    match a1.activeWq with
    | [] => a1
    | work :: rest =>
      { a1 with chips := writeWork work written a1.chips.length a1.chips, activeWq := rest }

def scanwork (a1 : Chain) (results : List Result) (written : Nat → Bool) :
    Chain × List (Result × Outcome) :=
  let (chips, outcomes) := pollResults a1.chips results
  (rewriteChips { a1 with chips } written, outcomes)

/-- Whether A1_scanwork dequeues a work. -/
def dequeues (a1 : Chain) : Bool := a1.workStartDelay = 0 && a1.activeWq ≠ []

/-- Whether A1_scanwork gives a chip a new work. -/
def rewrites (a1 : Chain) (written : Nat → Bool) (i : Nat) : Bool :=
  dequeues a1 && i < a1.chips.length && written i

/-- fill_queue, with the work get_work returned. -/
def fillQueue (a1 : Chain) (work : WorkPtr) : Chain :=
  match a1.unqueuedWork with
  | none => { a1 with unqueuedWork := some work }
  | some _ => a1

/-- get_queued; a stale work is discarded. -/
def getQueued (a1 : Chain) (stale : Bool) : Chain × Option WorkPtr :=
  match a1.unqueuedWork with
  | none => (a1, none)
  | some work =>
    if stale then ({ a1 with unqueuedWork := none }, none)
    else ({ a1 with unqueuedWork := none, queuedWork := work :: a1.queuedWork }, some work)

def queueFull (a1 : Chain) (stale : Bool) : Chain × Bool :=
  let (a1, work) := getQueued a1 stale
  let activeWq := a1.activeWq ++ work.toList
  ({ a1 with activeWq }, decide (activeWq.length ≥ 1))

/-- work_completed. -/
def workCompleted (queuedWork : List WorkPtr) (work : WorkPtr) : List WorkPtr :=
  queuedWork.erase work

/-- A1_flush_work; abort_work does nothing. -/
def flushWork (a1 : Chain) : Chain :=
  { a1 with activeWq := [], queuedWork := a1.activeWq.foldl workCompleted a1.queuedWork }

theorem lt_of_work0 (chips : List Chip) (i : Nat) (work : WorkPtr)
    (slot : work0 chips i = some work) :
    i < chips.length := by
  obtain ⟨chip, present, _⟩ := Option.bind_eq_some_iff.mp slot
  exact (List.getElem?_eq_some_iff.mp present).1

theorem work0_modify (chips : List Chip) (i j : Nat) (change : Chip → Chip)
    (keeps : ∀ chip, (change chip).work0 = chip.work0) :
    work0 (chips.modify j change) i = work0 chips i := by
  unfold work0
  rw [List.getElem?_modify]
  cases chips[i]? with
  | none => simp
  | some chip => by_cases same : j = i <;> simp [same, keeps]

theorem work0_countOutcome (chips : List Chip) (outcome : Outcome) (i : Nat) :
    work0 (countOutcome chips outcome) i = work0 chips i := by
  cases outcome with
  | wrongJob => rfl
  | stale j => exact work0_modify chips i j _ fun _ => rfl
  | submitted j work => exact work0_modify chips i j _ fun _ => rfl

theorem length_countOutcome (chips : List Chip) (outcome : Outcome) :
    (countOutcome chips outcome).length = chips.length := by
  cases outcome <;> simp [countOutcome]

/-- Polling changes counters only. -/
theorem pollResults_chips (chips : List Chip) (results : List Result) :
    (pollResults chips results).1.length = chips.length ∧
      ∀ i, work0 (pollResults chips results).1 i = work0 chips i := by
  induction results generalizing chips with
  | nil => exact ⟨rfl, fun _ => rfl⟩
  | cons r rest ih =>
    unfold pollResults
    split
    · obtain ⟨length, slots⟩ := ih (countOutcome chips (handleResult chips r))
      exact ⟨length.trans (length_countOutcome _ _),
        fun i => (slots i).trans (work0_countOutcome _ _ i)⟩
    · exact ⟨rfl, fun _ => rfl⟩

theorem handleResult_congr (chips other : List Chip) (r : Result)
    (slots : ∀ i, work0 other i = work0 chips i) : handleResult other r = handleResult chips r := by
  rw [handleResult, handleResult, slots]

/-- The results up to the first of a wrong chip are handled by the slots as they
were when polling began. -/
theorem pollResults_outcomes (chips : List Chip) (results : List Result) :
    (pollResults chips results).2 =
      (results.takeWhile (rightChip chips)).map fun r => (r, handleResult chips r) := by
  induction results generalizing chips with
  | nil => rfl
  | cons r rest ih =>
    unfold pollResults
    split
    · next right =>
      have slots := work0_countOutcome chips (handleResult chips r)
      have sameChip : rightChip (countOutcome chips (handleResult chips r)) = rightChip chips := by
        funext other
        rw [rightChip, rightChip, length_countOutcome]
      have sameOutcome : handleResult (countOutcome chips (handleResult chips r)) =
          handleResult chips := by
        funext other
        exact handleResult_congr chips _ other slots
      have later := ih (countOutcome chips (handleResult chips r))
      rw [sameChip, sameOutcome] at later
      rw [List.takeWhile_cons_of_pos right, List.map_cons]
      exact congrArg (List.cons (r, handleResult chips r)) later
    · next wrong =>
      rw [List.takeWhile_cons_of_neg wrong]
      rfl

theorem length_setWork (chips : List Chip) (i : Nat) (work : WorkPtr) (written : Bool) :
    (setWork chips i work written).length = chips.length := by
  cases written <;> simp [setWork]

/-- A successful write fills the slot of its chip. -/
theorem work0_setWork (chips : List Chip) (i j : Nat) (work : WorkPtr) (written : Bool)
    (present : i < chips.length) :
    work0 (setWork chips i work written) j = if written = true ∧ j = i then some work else
      work0 chips j := by
  unfold setWork work0
  cases written with
  | false => simp
  | true =>
    rw [if_pos rfl, List.getElem?_modify]
    by_cases same : j = i
    · subst same
      simp [present]
    · simp [same, Ne.symm same]

theorem length_writeWork (work : WorkPtr) (written : Nat → Bool) (n : Nat) (chips : List Chip) :
    (writeWork work written n chips).length = chips.length := by
  induction n generalizing chips with
  | zero => rfl
  | succ n ih => rw [writeWork, ih, length_setWork]

/-- The slots after the write loop. -/
theorem work0_writeWork (work : WorkPtr) (written : Nat → Bool) (n j : Nat) (chips : List Chip)
    (inside : n ≤ chips.length) :
    work0 (writeWork work written n chips) j =
      if j < n ∧ written j = true then some work else work0 chips j := by
  induction n generalizing chips with
  | zero => simp [writeWork]
  | succ n ih =>
    rw [writeWork, ih _ (by rw [length_setWork]; omega), work0_setWork chips n j work _ inside]
    by_cases last : j = n
    · subst last
      simp
    · have order : j < n + 1 ↔ j < n := by omega
      simp only [last, and_false, if_false, order]

/-- What A1_scanwork does to the chain behind polling: it waits for the pll, has
nothing to write, or writes the front of the queue. -/
theorem scanwork_cases (a1 : Chain) (results : List Result) (written : Nat → Bool) :
    (dequeues a1 = false ∧ ∃ workStartDelay, (scanwork a1 results written).1 =
      { a1 with chips := (pollResults a1.chips results).1, workStartDelay }) ∨
    ∃ work rest, dequeues a1 = true ∧ a1.activeWq = work :: rest ∧ (scanwork a1 results written).1 =
      { a1 with
        chips := writeWork work written a1.chips.length (pollResults a1.chips results).1
        activeWq := rest } := by
  have length := (pollResults_chips a1.chips results).1
  unfold scanwork rewriteChips dequeues
  dsimp only
  split
  · next waits => exact Or.inl ⟨by simp [Nat.ne_of_gt waits], _, rfl⟩
  · next ready =>
    cases queue : a1.activeWq with
    | nil => exact Or.inl ⟨by simp, _, rfl⟩
    | cons work rest => exact Or.inr ⟨work, rest, by simp; omega, rfl, by rw [length]⟩

/-- The queues after A1_scanwork. -/
theorem scanwork_queues (a1 : Chain) (results : List Result) (written : Nat → Bool) :
    (scanwork a1 results written).1.chips.length = a1.chips.length ∧
    (scanwork a1 results written).1.queuedWork = a1.queuedWork ∧
    (scanwork a1 results written).1.unqueuedWork = a1.unqueuedWork ∧
    (scanwork a1 results written).1.activeWq =
      if dequeues a1 = true then a1.activeWq.tail else a1.activeWq := by
  have length := (pollResults_chips a1.chips results).1
  rcases scanwork_cases a1 results written with ⟨idle, _, same⟩ | ⟨work, rest, busy, queue, writes⟩
  · rw [same, idle]
    exact ⟨length, rfl, rfl, rfl⟩
  · rw [writes, busy, queue]
    exact ⟨(length_writeWork work written _ _).trans length, rfl, rfl, rfl⟩

/-- The slots after A1_scanwork. -/
theorem work0_scanwork (a1 : Chain) (results : List Result) (written : Nat → Bool) (i : Nat) :
    work0 (scanwork a1 results written).1.chips i =
      if rewrites a1 written i = true then a1.activeWq.head? else work0 a1.chips i := by
  obtain ⟨length, slots⟩ := pollResults_chips a1.chips results
  rcases scanwork_cases a1 results written with ⟨idle, _, same⟩ | ⟨work, rest, busy, queue, writes⟩
  · rw [same]
    simp [rewrites, idle, slots]
  · rw [writes, queue]
    dsimp only
    rw [work0_writeWork work written _ i _ (Nat.le_of_eq length.symm), slots]
    simp [rewrites, busy]

theorem fillQueue_cases (a1 : Chain) (work : WorkPtr) :
    fillQueue a1 work = a1 ∨
      (a1.unqueuedWork = none ∧ fillQueue a1 work = { a1 with unqueuedWork := some work }) := by
  unfold fillQueue
  cases unqueued : a1.unqueuedWork with
  | none => exact Or.inr ⟨rfl, rfl⟩
  | some other => exact Or.inl rfl

/-- What A1_queue_full can do: nothing, drop the unqueued work, or move it to
both queues. -/
theorem queueFull_cases (a1 : Chain) (stale : Bool) :
    (queueFull a1 stale).1 = a1 ∨
    ∃ work, a1.unqueuedWork = some work ∧
      ((queueFull a1 stale).1 = { a1 with unqueuedWork := none } ∨
        (queueFull a1 stale).1 = { a1 with
          unqueuedWork := none
          queuedWork := work :: a1.queuedWork
          activeWq := a1.activeWq ++ [work] }) := by
  unfold queueFull getQueued
  cases unqueued : a1.unqueuedWork with
  | none =>
    refine Or.inl ?_
    dsimp only
    rw [Option.toList_none, List.append_nil]
  | some work =>
    refine Or.inr ⟨work, rfl, ?_⟩
    cases stale with
    | true => exact Or.inl (by simp)
    | false => exact Or.inr rfl

/-- Both together, when no work waits between them. -/
theorem queueFull_fillQueue (a1 : Chain) (work : WorkPtr) (stale : Bool)
    (empty : a1.unqueuedWork = none) :
    (queueFull (fillQueue a1 work) stale).1 =
      if stale then a1
      else { a1 with queuedWork := work :: a1.queuedWork, activeWq := a1.activeWq ++ [work] } := by
  obtain ⟨chips, activeWq, workStartDelay, unqueuedWork, queuedWork⟩ := a1
  cases empty
  cases stale with
  | true => simp [queueFull, getQueued, fillQueue]
  | false => rfl

theorem chips_queueFull (a1 : Chain) (work : WorkPtr) (stale : Bool) :
    (queueFull (fillQueue a1 work) stale).1.chips = a1.chips := by
  have filled : (fillQueue a1 work).chips = a1.chips := by
    rcases fillQueue_cases a1 work with same | ⟨_, taken⟩
    · rw [same]
    · rw [taken]
  rw [← filled]
  rcases queueFull_cases (fillQueue a1 work) stale with same | ⟨_, _, dropped | moved⟩
  · rw [same]
  · rw [dropped]
  · rw [moved]

end CgminerT4.Source.T4Chain
