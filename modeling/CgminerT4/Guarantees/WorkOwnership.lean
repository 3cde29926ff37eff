import CgminerT4.Library.Runs
import CgminerT4.Source.T4Chain
import Mathlib.Data.List.Nodup

/-!
# The works a chain holds

A work enters queued_work and the queue of the chain together, and leaves both
in a flush. Once it is dequeued nothing calls work_completed for it, so what
queued_work holds beyond the queue is owned by a chip only as long as no work
is replaced on its last chip and none is refused by every chip.
-/
namespace CgminerT4.Guarantees.WorkOwnership
open Library.Runs Source.T4Chain

structure World where
  a1 : Chain
  /-- The pointer of the next work that is allocated. -/
  nextWork : WorkPtr

inductive Event where
  /-- fill_queue and A1_queue_full. -/
  | queueFull (stale : Bool)
  /-- A1_scanwork, with the chips whose set_work succeeds. -/
  | scanwork (results : List Result) (written : Nat → Bool)
  | flush

def step (s : World) : Event → Option World
  | .queueFull stale =>
    some { a1 := (queueFull (fillQueue s.a1 s.nextWork) stale).1, nextWork := s.nextWork + 1 }
  | .scanwork results written => some { s with a1 := (scanwork s.a1 results written).1 }
  | .flush => some { s with a1 := flushWork s.a1 }

/-- A chain of chips without work. -/
def start (numActiveChips : Nat) (workStartDelay : Nat) : World :=
  { a1 := ⟨List.replicate numActiveChips ⟨none, 0, 0, 0⟩, [], workStartDelay, none,
    []⟩, nextWork := 0 }

/-- Every queued work is in the queue of the chain or on a chip. -/
structure Owned (a1 : Chain) : Prop where
  owned : ∀ work ∈ a1.queuedWork, work ∈ a1.activeWq ∨ ∃ i, work0 a1.chips i = some work
  bounded : a1.queuedWork.length ≤ a1.activeWq.length + a1.chips.length

/-- A work that is dequeued goes to some chip, and no work loses its last chip. -/
def KeepsChip (s : World) : Event → Prop
  | .scanwork _ written => dequeues s.a1 = true →
    (∃ i, i < s.a1.chips.length ∧ written i = true) ∧
      ∀ i work, work0 s.a1.chips i = some work →
        ∃ j, work0 s.a1.chips j = some work ∧ written j = false
  | _ => True

structure Inv (s : World) : Prop where
  unqueued : s.a1.unqueuedWork = none
  fresh : ∀ work ∈ s.a1.queuedWork, work < s.nextWork
  queuedOnce : s.a1.queuedWork.Nodup
  activeOnce : s.a1.activeWq.Nodup
  active : ∀ work ∈ s.a1.activeWq, work ∈ s.a1.queuedWork
  slots : ∀ i work, work0 s.a1.chips i = some work → work ∈ s.a1.queuedWork ∧ work ∉ s.a1.activeWq

theorem queuedWork_flushWork (a1 : Chain) :
    (flushWork a1).queuedWork = a1.queuedWork.diff a1.activeWq :=
  (List.diff_eq_foldl a1.queuedWork a1.activeWq).symm

/-- Works that occur once fit into the places that own them. -/
theorem bounded_of_owned (a1 : Chain) (once : a1.queuedWork.Nodup)
    (owned : ∀ work ∈ a1.queuedWork, work ∈ a1.activeWq ∨ ∃ i, work0 a1.chips i = some work) :
    a1.queuedWork.length ≤ a1.activeWq.length + a1.chips.length := by
  have places : a1.queuedWork ⊆ a1.activeWq ++ a1.chips.filterMap Chip.work0 := by
    intro work queued
    apply List.mem_append.mpr
    rcases owned work queued with waits | ⟨i, slot⟩
    · exact Or.inl waits
    · obtain ⟨chip, present, holds⟩ := Option.bind_eq_some_iff.mp slot
      exact Or.inr (List.mem_filterMap.mpr ⟨chip, List.mem_of_getElem? present, holds⟩)
  have fits := List.Nodup.length_le_of_subset once places
  have slots := List.length_filterMap_le Chip.work0 a1.chips
  rw [List.length_append] at fits
  omega

theorem queueFull_preserves (s next : World) (stale : Bool) (inv : Inv s)
    (taken : step s (.queueFull stale) = some next) : Inv next := by
  cases taken
  rw [queueFull_fillQueue s.a1 s.nextWork stale inv.unqueued]
  cases stale with
  | true => exact ⟨inv.unqueued, fun work queued => Nat.lt_succ_of_lt (inv.fresh work queued),
      inv.queuedOnce, inv.activeOnce, inv.active, inv.slots⟩
  | false =>
    have new : s.nextWork ∉ s.a1.queuedWork := fun queued => Nat.lt_irrefl _ (inv.fresh _ queued)
    have unseen : s.nextWork ∉ s.a1.activeWq := fun active => new (inv.active _ active)
    constructor
    · exact inv.unqueued
    · intro work queued
      rcases List.mem_cons.mp queued with rfl | older
      · exact Nat.lt_succ_self _
      · exact Nat.lt_succ_of_lt (inv.fresh work older)
    · exact List.nodup_cons.mpr ⟨new, inv.queuedOnce⟩
    · apply List.Nodup.append inv.activeOnce (List.nodup_singleton _)
      exact List.disjoint_singleton.mpr unseen
    · intro work active
      rcases List.mem_append.mp active with older | last
      · exact List.mem_cons_of_mem _ (inv.active work older)
      · rw [List.mem_singleton.mp last]
        exact List.mem_cons_self
    · intro i work slot
      obtain ⟨queued, idle⟩ := inv.slots i work slot
      refine ⟨List.mem_cons_of_mem _ queued, fun active => ?_⟩
      rcases List.mem_append.mp active with older | last
      · exact idle older
      · rw [List.mem_singleton.mp last] at queued
        exact new queued

theorem scanwork_preserves (s next : World) (results : List Result) (written : Nat → Bool)
    (inv : Inv s) (taken : step s (.scanwork results written) = some next) : Inv next := by
  obtain ⟨_, queued, unqueued, active⟩ := scanwork_queues s.a1 results written
  cases taken
  have rest : (scanwork s.a1 results written).1.activeWq.Sublist s.a1.activeWq := by
    rw [active]
    split
    · exact List.tail_sublist _
    · exact List.Sublist.refl _
  constructor
  · exact unqueued.trans inv.unqueued
  · rw [queued]
    exact inv.fresh
  · rw [queued]
    exact inv.queuedOnce
  · exact inv.activeOnce.sublist rest
  · rw [queued]
    exact fun work member => inv.active work (rest.subset member)
  · intro i work slot
    rw [work0_scanwork] at slot
    rw [queued]
    split at slot
    · next wrote =>
      have busy : dequeues s.a1 = true := by
        simp only [rewrites, Bool.and_eq_true] at wrote
        exact wrote.1.1
      rw [active, if_pos busy]
      obtain ⟨others, front⟩ := List.head?_eq_some_iff.mp slot
      have once := inv.activeOnce
      rw [front] at once ⊢
      refine ⟨inv.active work ?_, (List.nodup_cons.mp once).1⟩
      rw [front]
      exact List.mem_cons_self
    · obtain ⟨held, idle⟩ := inv.slots i work slot
      exact ⟨held, fun member => idle (rest.subset member)⟩

theorem flush_preserves (s next : World) (inv : Inv s) (taken : step s .flush = some next) :
    Inv next := by
  cases taken
  have left := queuedWork_flushWork s.a1
  constructor
  · exact inv.unqueued
  · intro work queued
    rw [left] at queued
    exact inv.fresh work (List.diff_subset _ _ queued)
  · rw [left]
    exact inv.queuedOnce.diff
  · exact List.nodup_nil
  · exact nofun
  · intro i work slot
    obtain ⟨queued, idle⟩ := inv.slots i work slot
    rw [left]
    exact ⟨inv.queuedOnce.mem_sdiff_iff.mpr ⟨queued, idle⟩, nofun⟩

theorem inv_preserved (s : World) (e : Event) (next : World) (inv : Inv s)
    (taken : step s e = some next) : Inv next := by
  cases e with
  | queueFull stale => exact queueFull_preserves s next stale inv taken
  | scanwork results written => exact scanwork_preserves s next results written inv taken
  | flush => exact flush_preserves s next inv taken

section Dequeue

/-! The front of the queue goes to the chips whose write succeeds. -/

variable (s : World) (inv : Inv s) (front : WorkPtr) (rest : List WorkPtr)
  (queue : s.a1.activeWq = front :: rest) (written : Nat → Bool) (after : Nat → Option WorkPtr)
  (slot : ∀ i, after i =
    if i < s.a1.chips.length ∧ written i = true then some front else work0 s.a1.chips i)

include inv queue slot

theorem taker_of_owned (owned : ∀ work ∈ s.a1.queuedWork, work ∈ rest ∨ ∃ i, after i = some work) :
    ∃ i, i < s.a1.chips.length ∧ written i = true := by
  have once := inv.activeOnce
  have dequeued := inv.active front (by rw [queue]; exact List.mem_cons_self)
  rw [queue] at once
  rcases owned front dequeued with waits | ⟨i, holds⟩
  · exact absurd waits (List.nodup_cons.mp once).1
  · rw [slot] at holds
    split at holds
    · next wrote => exact ⟨i, wrote⟩
    · have idle := (inv.slots i front holds).2
      rw [queue] at idle
      exact absurd List.mem_cons_self idle

theorem keeper_of_owned (owned : ∀ work ∈ s.a1.queuedWork, work ∈ rest ∨ ∃ i, after i = some work)
    (i : Nat) (work : WorkPtr) (held : work0 s.a1.chips i = some work) :
    ∃ j, work0 s.a1.chips j = some work ∧ written j = false := by
  obtain ⟨member, idle⟩ := inv.slots i work held
  rw [queue] at idle
  rcases owned work member with waits | ⟨j, holds⟩
  · exact absurd (List.mem_cons_of_mem front waits) idle
  · rw [slot] at holds
    split at holds
    · rw [Option.some.inj holds] at idle
      exact absurd List.mem_cons_self idle
    · next kept =>
      have present := lt_of_work0 s.a1.chips j work holds
      exact ⟨j, holds, by simpa [present] using kept⟩

omit inv in
theorem owned_of_kept (good : Owned s.a1) (taker : ∃ i, i < s.a1.chips.length ∧ written i = true)
    (keeps : ∀ i work, work0 s.a1.chips i = some work →
      ∃ j, work0 s.a1.chips j = some work ∧ written j = false) :
    ∀ work ∈ s.a1.queuedWork, work ∈ rest ∨ ∃ i, after i = some work := by
  obtain ⟨taker, wrote⟩ := taker
  intro work member
  rcases good.owned work member with waits | ⟨i, held⟩
  · rw [queue] at waits
    rcases List.mem_cons.mp waits with rfl | later
    · refine Or.inr ⟨taker, ?_⟩
      rw [slot, if_pos wrote]
    · exact Or.inl later
  · obtain ⟨j, holds, kept⟩ := keeps i work held
    refine Or.inr ⟨j, ?_⟩
    rw [slot, kept, if_neg (by simp)]
    exact holds

end Dequeue

/-- After a dequeue every queued work is owned if and only if the dequeued one
has got a chip and no other has lost its last. -/
theorem owned_dequeue (s : World) (results : List Result) (written : Nat → Bool) (inv : Inv s)
    (good : Owned s.a1) (busy : dequeues s.a1 = true) :
    (∀ work ∈ (scanwork s.a1 results written).1.queuedWork,
      work ∈ (scanwork s.a1 results written).1.activeWq ∨
        ∃ i, work0 (scanwork s.a1 results written).1.chips i = some work) ↔
    (∃ i, i < s.a1.chips.length ∧ written i = true) ∧
      ∀ i work, work0 s.a1.chips i = some work →
        ∃ j, work0 s.a1.chips j = some work ∧ written j = false := by
  obtain ⟨_, queued, _, active⟩ := scanwork_queues s.a1 results written
  obtain ⟨front, rest, queue⟩ : ∃ front rest, s.a1.activeWq = front :: rest := by
    apply List.exists_cons_of_ne_nil
    intro empty
    simp [dequeues, empty] at busy
  have slot : ∀ i, work0 (scanwork s.a1 results written).1.chips i =
      if i < s.a1.chips.length ∧ written i = true then some front else work0 s.a1.chips i := by
    intro i
    rw [work0_scanwork, queue]
    simp [rewrites, busy]
  rw [queued, active, if_pos busy, queue, List.tail_cons]
  constructor
  · intro owned
    constructor
    · exact taker_of_owned s inv front rest queue written _ slot owned
    · exact keeper_of_owned s inv front rest queue written _ slot owned
  · rintro ⟨taker, keeps⟩
    exact owned_of_kept s front rest queue written _ slot good taker keeps

theorem owned_scanwork (s : World) (results : List Result) (written : Nat → Bool) (inv : Inv s)
    (good : Owned s.a1) :
    Owned (scanwork s.a1 results written).1 ↔ KeepsChip s (.scanwork results written) := by
  have once := (scanwork_preserves s _ results written inv rfl).queuedOnce
  cases busy : dequeues s.a1 with
  | true =>
    have exactly := owned_dequeue s results written inv good busy
    constructor
    · exact fun owned _ => exactly.mp owned.owned
    · intro keeps
      have owned := exactly.mpr (keeps busy)
      exact ⟨owned, bounded_of_owned _ once owned⟩
  | false =>
    obtain ⟨_, queued, _, active⟩ := scanwork_queues s.a1 results written
    have slot : ∀ i, work0 (scanwork s.a1 results written).1.chips i = work0 s.a1.chips i := by
      intro i
      rw [work0_scanwork, rewrites, busy]
      rfl
    have owned : ∀ work ∈ (scanwork s.a1 results written).1.queuedWork,
        work ∈ (scanwork s.a1 results written).1.activeWq ∨
          ∃ i, work0 (scanwork s.a1 results written).1.chips i = some work := by
      rw [queued, active, busy]
      simp only [slot]
      exact good.owned
    exact iff_of_true ⟨owned, bounded_of_owned _ once owned⟩
      (fun dequeue => by simp [busy] at dequeue)

/-- A queued work enters both containers, a flush takes the same works out of both. -/
theorem owned_step (s : World) (e : Event) (next : World) (inv : Inv s) (good : Owned s.a1)
    (taken : step s e = some next) : Owned next.a1 ↔ KeepsChip s e := by
  have once := (inv_preserved s e next inv taken).queuedOnce
  cases e with
  | scanwork results written =>
    cases taken
    exact owned_scanwork s results written inv good
  | queueFull stale =>
    cases taken
    rw [queueFull_fillQueue s.a1 s.nextWork stale inv.unqueued] at once ⊢
    cases stale with
    | true => exact iff_of_true good trivial
    | false =>
      have owned : ∀ work ∈ s.nextWork :: s.a1.queuedWork,
          work ∈ s.a1.activeWq ++ [s.nextWork] ∨ ∃ i, work0 s.a1.chips i = some work := by
        intro work queued
        rcases List.mem_cons.mp queued with rfl | older
        · exact Or.inl (List.mem_append_right _ List.mem_cons_self)
        · exact (good.owned work older).imp_left (List.mem_append_left _)
      exact iff_of_true ⟨owned, bounded_of_owned _ once owned⟩ trivial
  | flush =>
    cases taken
    have owned : ∀ work ∈ (flushWork s.a1).queuedWork,
        work ∈ (flushWork s.a1).activeWq ∨ ∃ i, work0 (flushWork s.a1).chips i = some work := by
      intro work queued
      rw [queuedWork_flushWork] at queued
      obtain ⟨member, idle⟩ := inv.queuedOnce.mem_sdiff_iff.mp queued
      exact Or.inr ((good.owned work member).resolve_left idle)
    exact iff_of_true ⟨owned, bounded_of_owned _ once owned⟩ trivial

theorem inv_start (numActiveChips workStartDelay : Nat) :
    Inv (start numActiveChips workStartDelay) := by
  refine ⟨rfl, nofun, List.nodup_nil, List.nodup_nil, nofun, fun i work slot => ?_⟩
  dsimp only [start, work0] at slot
  rw [List.getElem?_replicate] at slot
  split at slot <;> cases slot

/-- Every queued work is owned throughout a run if and only if every work that
is dequeued goes to some chip and none loses its last chip. -/
theorem queued_work_owned_iff (numActiveChips workStartDelay : Nat) (es : List Event) :
    Always step (fun s => Owned s.a1) (start numActiveChips workStartDelay) es ↔
      Guarded step KeepsChip (start numActiveChips workStartDelay) es := by
  apply always_iff_guarded_of_invariant inv_preserved owned_step
  · exact inv_start numActiveChips workStartDelay
  · exact ⟨nofun, Nat.zero_le _⟩

/-- Two works are written to the only chip; the first stays in queued_work. -/
theorem replaced_work_kept :
    ∃ (es : List Event) (s : World), run step (start 1 0) es = some s ∧
      s.a1.queuedWork = [1, 0] ∧ s.a1.activeWq = [] ∧ s.a1.chips.length = 1 ∧
      ¬ Always step (fun s => Owned s.a1) (start 1 0) es := by
  have reached : (run step (start 1 0)
      [.queueFull false, .scanwork [] fun _ => true, .queueFull false,
        .scanwork [] fun _ => true]).map
        World.a1 = some ⟨[⟨some 1, 0, 0, 2⟩], [], 0, none, [1, 0]⟩ := by decide +kernel
  obtain ⟨s, ran, final⟩ := Option.map_eq_some_iff.mp reached
  refine ⟨_, s, ran, by rw [final], by rw [final], by rw [final]; rfl, fun owned => ?_⟩
  have bounded := (always_final owned ran).bounded
  rw [final] at bounded
  exact absurd bounded (by decide)

end CgminerT4.Guarantees.WorkOwnership
