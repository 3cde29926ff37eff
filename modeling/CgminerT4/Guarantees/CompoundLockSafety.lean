import CgminerT4.Source.CompoundLock

/-!
# The compound lock under any interleaving

Every session keeps to the discipline of taking the readers-writer lock only
with the mutex held, so its exclusion and progress results apply to any number
of threads that run sessions.
-/
namespace CgminerT4.Guarantees.CompoundLockSafety
open Library.GuardedRwlock Library.Runs Source.CompoundLock

variable {ι : Type*}

def position (w : World ι Position) (t : ι) : Position := (w.threads t).label

/-- Between ilock or wlock and the end of dlock, dwlock or dwilock. -/
def Secured : Position → Prop
  | .intermediate | .writing | .inside .ulock | .inside .dlock | .inside .dwlock | .inside
    .dwilock => True
  | _ => False

def Promotable (position : Position) : Prop := position = .intermediate ∨ position = .writing

structure Safe [DecidableEq ι] (w : World ι Position) : Prop where
  exclusion : ∀ t u, u ≠ t → position w t = .writing →
    position w u ≠ .reading ∧ position w u ≠ .writing ∧ u ∉ w.locks.readers ∧
      w.locks.writer ≠ some u
  single : ∀ t u, Promotable (position w t) → Promotable (position w u) → t = u
  secured : ∀ t u next, Secured (position w t) → u ≠ t → step w u = some next →
    position next u = .writing → position w u = .writing
  progress : (∃ t, (w.threads t).code ≠ []) → ∃ u, (step w u).isSome
  released : (∀ t, (w.threads t).code = []) → w.locks = .free

/-- Whatever its actions are, a call ends in its mode. -/
theorem positions_ends (op : Op) (actions : List Action) :
    ((positions op actions).getLast?).map Prod.snd = some (modeAfter op) := by
  induction actions with
  | nil => rfl
  | cons action rest ih =>
    cases rest with
    | nil => rfl
    | cons second rest =>
      have more : positions op (second :: rest) ≠ [] := by
        intro empty
        rw [empty] at ih
        cases ih
      rw [positions, List.getLast?_cons_of_ne_nil more]
      · exact ih
      · exact List.cons_ne_nil _ _

/-! ## The sessions follow the discipline -/

/-- What a thread holds at a position. -/
def fits (stage : Stage) : Position → Prop
  | .outside => stage = .free
  | .reading => stage = .read
  | .intermediate => stage = .guard
  | .writing => stage = .guardWrite
  | .inside _ => stage.holdsMutex

instance (stage : Stage) : (position : Position) → Decidable (fits stage position)
  | .outside => inferInstanceAs (Decidable (stage = .free))
  | .reading => inferInstanceAs (Decidable (stage = .read))
  | .intermediate => inferInstanceAs (Decidable (stage = .guard))
  | .writing => inferInstanceAs (Decidable (stage = .guardWrite))
  | .inside _ => inferInstanceAs (Decidable (stage.holdsMutex = true))

theorem session_follows (session : Session) : Follows fits .free session.code := by
  cases session with
  | read => decide
  | intermediate => decide
  | demoted => decide
  | upgraded release => cases release <;> decide
  | write release => cases release <;> decide

theorem sessions_follow (sessions : List Session) :
    Follows fits .free (sessions.flatMap Session.code) := by
  induction sessions with
  | nil => rfl
  | cons session sessions ih => exact follows_append (session_follows session) ih

theorem start_disciplined (sessions : ι → List Session) :
    Disciplined fits (start sessions) fun _ => .free where
  agrees := agrees_free
  follows t := sessions_follow (sessions t)
  fit _ := rfl

/-! ## What the discipline gives -/

variable {w : World ι Position} {stage : ι → Stage}

theorem writing_stage (disciplined : Disciplined fits w stage) {t : ι}
    (writing : position w t = .writing) :
    stage t = .guardWrite := by
  have fit := disciplined.fit t
  unfold position at writing
  rwa [writing] at fit

theorem promotable_holds (disciplined : Disciplined fits w stage) {t : ι}
    (promotable : Promotable (position w t)) :
    (stage t).holdsMutex := by
  have fit := disciplined.fit t
  unfold Promotable position at promotable
  rcases promotable with intermediate | writing
  · have guard : stage t = .guard := by rwa [intermediate] at fit
    rw [guard]
    rfl
  · have guardWrite : stage t = .guardWrite := by rwa [writing] at fit
    rw [guardWrite]
    rfl

theorem secured_holds (disciplined : Disciplined fits w stage) {t : ι}
    (secured : Secured (position w t)) :
    (stage t).holdsMutex := by
  have fit := disciplined.fit t
  cases point : position w t with
  | outside =>
    rw [point] at secured
    exact secured.elim
  | reading =>
    rw [point] at secured
    exact secured.elim
  | intermediate => exact promotable_holds disciplined (Or.inl point)
  | writing => exact promotable_holds disciplined (Or.inr point)
  | inside op =>
    unfold position at point
    rwa [point] at fit

theorem safe_of_disciplined [DecidableEq ι] (disciplined : Disciplined fits w stage) : Safe w where
  exclusion t u other writing := by
    have free := disciplined.agrees.exclusive (writing_stage disciplined writing) other
    have fit := disciplined.fit u
    rw [free] at fit
    refine ⟨fun reads => ?_, fun writes => ?_, fun reads => ?_, fun writes => ?_⟩
    · unfold position at reads
      rw [reads] at fit
      cases fit
    · unfold position at writes
      rw [writes] at fit
      cases fit
    · have held := (disciplined.agrees.readers u).mp reads
      rw [free] at held
      cases held
    · have held := (disciplined.agrees.writer u).mp writes
      rw [free] at held
      cases held
  single t u first second :=
    disciplined.agrees.mutex_unique (promotable_holds disciplined first)
      (promotable_holds disciplined second)
  secured t u next secured other taken writing := by
    obtain ⟨after, kept⟩ := disciplined.step taken
    have writes := writing_stage kept writing
    have holds : (Function.update stage u after t).holdsMutex := by
      rw [Function.update_of_ne other.symm]
      exact secured_holds disciplined secured
    have same := kept.agrees.mutex_unique (t := t) (u := u) holds (by rw [writes]; rfl)
    exact absurd same.symm other
  progress := disciplined.progress
  released := disciplined.done

/-- Any sessions of any threads in any interleaving. -/
theorem compound_lock_safe [DecidableEq ι] (sessions : ι → List Session) (schedule : List ι) :
    Always step Safe (start sessions) schedule := by
  have disciplined :
      Always step (fun w => ∃ stage, Disciplined fits w stage) (start sessions) schedule := by
    refine always_of_invariant (fun w t next holds taken => ?_) ⟨_,
      start_disciplined sessions⟩ schedule
    obtain ⟨stage, disciplined⟩ := holds
    obtain ⟨after, kept⟩ := disciplined.step taken
    exact ⟨_, kept⟩
  exact always_mono (fun w holds => holds.elim fun _ disciplined => safe_of_disciplined disciplined)
    disciplined

end CgminerT4.Guarantees.CompoundLockSafety
