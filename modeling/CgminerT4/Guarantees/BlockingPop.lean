import Mathlib.Data.List.ReduceOption
import CgminerT4.Library.Runs
import CgminerT4.Source.ThreadQueue

/-!
# Blocking pop

In every order of the locked sections the elements leave in the order in which
they went in, each once, and only a frozen queue refuses one. The wait of tq_pop
stands in no loop, so tq_pop returns nothing as soon as the popper resumes with
the queue empty: after a freeze, a thaw, a refused push or a spurious wake-up.
-/
namespace CgminerT4.Guarantees.BlockingPop
open Library.Runs Source.ThreadQueue

variable {α : Type}

/-- The elements that went in are those that came out followed by the queue, and whatever was
refused met a frozen queue. -/
structure InOrder (s : System α) : Prop where
  elements : s.accepted = s.returned.reduceOption ++ s.tq.q
  refused : ∀ frozen ∈ s.refusedFrozen, frozen = true

/-- No tq_pop came back empty. -/
def NeverEmpty (s : System α) : Prop := ∀ result ∈ s.returned, result.isSome

/-- The popper finds an element when it resumes. -/
def FindsElement (s : System α) : Event α → Prop
  | .resume => s.tq.q ≠ []
  | _ => True

theorem tqPush_inOrder (s : System α) (data : α) (good : InOrder s) : InOrder (tqPush s data) := by
  unfold tqPush
  split
  · refine ⟨?_, good.refused⟩
    dsimp only
    rw [good.elements, List.append_assoc]
  · next frozen =>
    refine ⟨good.elements, fun kept member => ?_⟩
    rcases List.mem_append.mp member with before | last
    · exact good.refused kept before
    · rw [List.mem_singleton.mp last]
      rw [Bool.not_eq_true', Bool.not_eq_false] at frozen
      exact frozen

/-- Taking the first element keeps the order, and so does taking nothing. -/
theorem popEnd_inOrder (s : System α) (good : InOrder s) : InOrder (popEnd s) := by
  unfold popEnd
  split
  · next empty =>
    refine ⟨?_, good.refused⟩
    dsimp only
    rw [good.elements, List.reduceOption_append]
    exact (congrArg (· ++ s.tq.q) (List.append_nil _)).symm
  · next data q filled =>
    refine ⟨?_, good.refused⟩
    dsimp only
    rw [good.elements, filled, List.reduceOption_append, List.append_assoc]
    rfl

theorem popEnd_neverEmpty_iff (s : System α) (good : NeverEmpty s) :
    NeverEmpty (popEnd s) ↔ s.tq.q ≠ [] := by
  unfold popEnd
  split
  · next empty =>
    refine iff_of_false (fun never => ?_) (not_not.mpr empty)
    have some_result := never none (List.mem_append_right _ (List.mem_singleton.mpr rfl))
    cases some_result
  · next data q filled =>
    refine iff_of_true (fun result member => ?_) (by rw [filled]; exact List.cons_ne_nil data q)
    rcases List.mem_append.mp member with before | last
    · exact good result before
    · rw [List.mem_singleton.mp last]
      rfl

/-- What a step does: one of the functions above, or the popper's state alone. -/
theorem step_cases (s : System α) (e : Event α) (next : System α) (taken : step s e = some next) :
    (∃ data, e = .push data ∧ next = tqPush s data) ∨
      (e = .resume ∧ s.popper = .woken ∧ next = popEnd s) ∨
      (e = .pop ∧ s.tq.q ≠ [] ∧ next = popEnd s) ∨
      (e ≠ .resume ∧ ∃ popper frozen, next = { s with tq := { s.tq with frozen }, popper }) := by
  cases e with
  | push data => exact .inl ⟨data, rfl, (Option.some.inj taken).symm⟩
  | freeze => exact .inr (.inr (.inr ⟨nofun, _, _, (Option.some.inj taken).symm⟩))
  | thaw => exact .inr (.inr (.inr ⟨nofun, _, _, (Option.some.inj taken).symm⟩))
  | pop =>
    rw [step] at taken
    split at taken
    · have popped := (Option.some.inj taken).symm
      unfold tqPop at popped
      split at popped
      · next filled => exact .inr (.inr (.inl ⟨rfl, by simpa using filled, popped⟩))
      · exact .inr (.inr (.inr ⟨nofun, _, s.tq.frozen, popped⟩))
    · cases taken
  | spurious =>
    rw [step] at taken
    split at taken
    · exact .inr (.inr (.inr ⟨nofun, _, s.tq.frozen, (Option.some.inj taken).symm⟩))
    · cases taken
  | resume =>
    rw [step] at taken
    split at taken
    · next woken => exact .inr (.inl ⟨rfl, woken, (Option.some.inj taken).symm⟩)
    · cases taken

theorem step_inOrder (s : System α) (e : Event α) (next : System α) (good : InOrder s)
    (taken : step s e = some next) : InOrder next := by
  obtain ⟨data, _, rfl⟩ | ⟨_, _, rfl⟩ | ⟨_, _, rfl⟩ | ⟨_, popper, frozen, rfl⟩ :=
    step_cases s e next taken
  · exact tqPush_inOrder s data good
  · exact popEnd_inOrder s good
  · exact popEnd_inOrder s good
  · exact ⟨good.elements, good.refused⟩

theorem step_neverEmpty_iff (s : System α) (e : Event α) (next : System α) (good : NeverEmpty s)
    (taken : step s e = some next) : NeverEmpty next ↔ FindsElement s e := by
  obtain ⟨data, rfl, rfl⟩ | ⟨rfl, _, rfl⟩ | ⟨rfl, filled, rfl⟩ | ⟨other, popper, frozen, rfl⟩ :=
    step_cases s e next taken
  · refine iff_of_true ?_ trivial
    unfold tqPush
    split
    · exact good
    · exact good
  · exact popEnd_neverEmpty_iff s good
  · exact iff_of_true ((popEnd_neverEmpty_iff s good).mpr filled) trivial
  · refine iff_of_true good ?_
    cases e with
    | resume => exact absurd rfl other
    | _ => trivial

/-- Whatever the wake-ups, the order is kept; and tq_pop blocks throughout a run exactly if
the woken popper always finds an element. -/
theorem blocking_pop (es : List (Event α)) :
    Always step InOrder (System.new : System α) es ∧
      (Always step NeverEmpty (System.new : System α) es ↔
        Guarded step FindsElement (System.new : System α) es) := by
  have start : InOrder (System.new : System α) :=
    ⟨rfl, fun _ member => absurd member List.not_mem_nil⟩
  refine ⟨always_of_invariant (fun s e next good taken => step_inOrder s e next good taken)
    start es, ?_⟩
  exact always_iff_guarded (fun s e next good taken => step_neverEmpty_iff s e next good taken)
    fun _ member => absurd member List.not_mem_nil

/-- A freeze wakes the waiting popper, which finds nothing. -/
theorem freeze_returns_empty :
    ¬Always step NeverEmpty (System.new : System Nat) [.pop, .freeze, .resume] := by
  intro always
  have ran : run step (System.new : System Nat) [.pop, .freeze, .resume] =
      some ⟨⟨[], true⟩, .outside, [], [none], []⟩ := by decide
  have result := always_final always ran none (List.mem_singleton.mpr rfl)
  cases result

/-! ## The guard in events -/

/-- What an observer of the events keeps: whether the queue is frozen, and whether a push was
accepted since the last tq_pop began. -/
structure Watch where
  frozen : Bool
  pushed : Bool

def Watch.after (w : Watch) : Event α → Watch
  | .push _ => { w with pushed := w.pushed || !w.frozen }
  | .freeze => { w with frozen := true }
  | .thaw => { w with frozen := false }
  | .pop => { w with pushed := false }
  | .spurious | .resume => w

/-- Between the wait of a tq_pop and its end a push is accepted. -/
def PushedBeforeResume : Watch → List (Event α) → Prop
  | _, [] => True
  | w, .resume :: es => w.pushed = true ∧ PushedBeforeResume (w.after (.resume : Event α)) es
  | w, e :: es => PushedBeforeResume (w.after e) es

theorem pushedBeforeResume_cons (w : Watch) (e : Event α) (es : List (Event α)) :
    PushedBeforeResume w (e :: es) ↔
      (e = .resume → w.pushed = true) ∧ PushedBeforeResume (w.after e) es := by
  cases e with
  | resume =>
    exact ⟨fun ⟨pushed, rest⟩ => ⟨fun _ => pushed, rest⟩, fun ⟨pushed, rest⟩ => ⟨pushed rfl, rest⟩⟩
  | _ => exact ⟨fun rest => ⟨nofun, rest⟩, fun rest => rest.2⟩

/-- While the popper waits or is woken, the queue holds what was accepted since. -/
structure Watched (s : System α) (w : Watch) : Prop where
  frozen : s.tq.frozen = w.frozen
  filled : s.popper ≠ .outside → (s.tq.q ≠ [] ↔ w.pushed = true)

theorem signal_outside (popper : Popper) : popper.signal = .outside ↔ popper = .outside := by
  cases popper <;> decide

theorem popEnd_watched (s : System α) (w : Watch) (frozen : s.tq.frozen = w.frozen) :
    Watched (popEnd s) w := by
  unfold popEnd
  split
  · exact ⟨frozen, fun inside => absurd rfl inside⟩
  · exact ⟨frozen, fun inside => absurd rfl inside⟩

theorem step_watched (s : System α) (w : Watch) (e : Event α) (next : System α)
    (watched : Watched s w) (taken : step s e = some next) : Watched next (w.after e) := by
  have frozen := watched.frozen
  have kept {popper : Popper} (inside : popper.signal ≠ .outside) : popper ≠ .outside :=
    fun outside => inside ((signal_outside popper).mpr outside)
  cases e with
  | push data =>
    cases taken
    unfold tqPush
    cases state : w.frozen with
    | false =>
      rw [frozen, state]
      refine ⟨frozen, fun _ => iff_of_true ?_ ?_⟩
      · exact List.append_ne_nil_of_right_ne_nil _ (List.cons_ne_nil data [])
      · simp [Watch.after, state]
    | true =>
      rw [frozen, state]
      refine ⟨frozen, fun inside => ?_⟩
      have same : (w.after (.push data)).pushed = w.pushed := by simp [Watch.after, state]
      rw [same]
      exact watched.filled (kept inside)
  | freeze =>
    cases taken
    exact ⟨rfl, fun inside => watched.filled (kept inside)⟩
  | thaw =>
    cases taken
    exact ⟨rfl, fun inside => watched.filled (kept inside)⟩
  | pop =>
    rw [step] at taken
    split at taken
    · cases taken
      unfold tqPop
      split
      · exact popEnd_watched s _ frozen
      · next empty =>
        refine ⟨frozen, fun _ => iff_of_false ?_ Bool.false_ne_true⟩
        simpa using empty
    · cases taken
  | spurious =>
    rw [step] at taken
    split at taken
    · next waiting =>
      cases taken
      exact ⟨frozen, fun _ => watched.filled (by rw [waiting]; decide)⟩
    · cases taken
  | resume =>
    rw [step] at taken
    split at taken
    · cases taken
      exact popEnd_watched s w frozen
    · cases taken

theorem guarded_iff_pushed (es : List (Event α)) (s : System α) (w : Watch) (watched : Watched s w)
    (whole : (run step s es).isSome) :
    Guarded step FindsElement s es ↔ PushedBeforeResume w es := by
  induction es generalizing s w with
  | nil => exact iff_of_true trivial trivial
  | cons e es ih =>
    obtain ⟨out, ran⟩ := Option.isSome_iff_exists.mp whole
    obtain ⟨next, taken, rest⟩ := run_cons_some ran
    rw [guarded_cons taken, pushedBeforeResume_cons,
      ih next (w.after e) (step_watched s w e next watched taken) (by rw [rest]; rfl)]
    refine and_congr ?_ Iff.rfl
    cases e with
    | resume =>
      rw [step] at taken
      split at taken
      · next woken =>
        have filled := watched.filled (by rw [woken]; decide)
        exact ⟨fun found _ => filled.mp found, fun pushed => filled.mpr (pushed rfl)⟩
      · cases taken
    | _ => exact ⟨fun _ => nofun, fun _ => trivial⟩

/-- The popper finds an element at every resume of a run exactly if, each time, a push was
accepted between its wait and the resume. -/
theorem findsElement_iff_pushed (es : List (Event α))
    (whole : (run step (System.new : System α) es).isSome) :
    Guarded step FindsElement (System.new : System α) es ↔ PushedBeforeResume ⟨false, false⟩ es :=
  guarded_iff_pushed es System.new ⟨false, false⟩ ⟨rfl, fun inside => absurd rfl inside⟩ whole

/-! ## Pushes alone -/

/-- The queue is open, and a woken popper has an element to find. -/
structure Served (s : System α) : Prop where
  thawed : s.tq.frozen = false
  woken : s.popper = .woken → s.tq.q ≠ []

/-- The events of pushers and the popper, without a spurious wake-up. -/
def PushOrPop : Event α → Prop
  | .push _ | .pop | .resume => True
  | _ => False

theorem step_served (s : System α) (e : Event α) (next : System α) (served : Served s)
    (allowed : PushOrPop e) (taken : step s e = some next) : Served next := by
  have taken_end : Served (popEnd s) := by
    unfold popEnd
    split
    · exact ⟨served.thawed, nofun⟩
    · exact ⟨served.thawed, nofun⟩
  cases e with
  | push data =>
    cases taken
    unfold tqPush
    rw [served.thawed]
    exact ⟨served.thawed, fun _ => List.append_ne_nil_of_right_ne_nil _ (List.cons_ne_nil data [])⟩
  | freeze => exact absurd allowed not_false
  | thaw => exact absurd allowed not_false
  | pop =>
    rw [step] at taken
    split at taken
    · cases taken
      unfold tqPop
      split
      · exact taken_end
      · exact ⟨served.thawed, nofun⟩
    · cases taken
  | spurious => exact absurd allowed not_false
  | resume =>
    rw [step] at taken
    split at taken
    · cases taken
      exact taken_end
    · cases taken

/-- Before the first freeze, a popper that only pushes wake never comes back empty. -/
theorem pushes_find_element (es : List (Event α)) (allowed : ∀ e ∈ es, PushOrPop e) :
    Guarded step FindsElement (System.new : System α) es := by
  have served : ∀ s : System α, Served s → Guarded step FindsElement s es := by
    induction es with
    | nil => exact fun _ _ => trivial
    | cons e es ih =>
      intro s served next taken
      have first := allowed e List.mem_cons_self
      refine ⟨?_, ih (fun e member => allowed e (List.mem_cons_of_mem _ member))
        next (step_served s e next served first taken)⟩
      cases e with
      | resume =>
        rw [step] at taken
        split at taken
        · next woken => exact served.woken woken
        · cases taken
      | _ => trivial
  exact served System.new ⟨rfl, nofun⟩

end CgminerT4.Guarantees.BlockingPop
