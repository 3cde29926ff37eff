import CgminerT4.Library.Runs
import Mathlib.Logic.Function.Basic

/-!
# A readers-writer lock taken under a mutex

Any number of threads acquire and release one mutex and one readers-writer lock,
each acquire or release an atomic step. The discipline is that the readers-writer
lock is only taken by the thread that holds the mutex, and a writer keeps the
mutex. Threads that follow it exclude each other, and one of them can always
move until all are done.
-/
namespace CgminerT4.Library.GuardedRwlock
open Runs

inductive Action where
  | lock
  | unlock
  | rdlock
  | rdunlock
  | wrlock
  | wrunlock
  | skip
  deriving DecidableEq

structure Locks (ι : Type*) where
  mutex : Option ι
  writer : Option ι
  readers : List ι

variable {ι α : Type*}

def Locks.free : Locks ι := ⟨none, none, []⟩

section
variable [DecidableEq ι]

/-- One acquire or release by `t`; no result while an acquire has to wait, or for
the release of a lock that `t` does not hold. `skip` touches neither lock. -/
def act (t : ι) (l : Locks ι) : Action → Option (Locks ι)
  | .lock => if l.mutex = none then some { l with mutex := some t } else none
  | .unlock => if l.mutex = some t then some { l with mutex := none } else none
  | .rdlock => if l.writer = none then some { l with readers := t :: l.readers } else none
  | .rdunlock => if t ∈ l.readers then some { l with readers := l.readers.erase t } else none
  | .wrlock => if l.writer = none ∧ l.readers = [] then some { l with writer := some t } else none
  | .wrunlock => if l.writer = some t then some { l with writer := none } else none
  | .skip => some l

/-- The rest of a thread's code; each action carries the label of the point behind it. -/
structure Thread (α : Type*) where
  label : α
  code : List (Action × α)

structure World (ι α : Type*) where
  locks : Locks ι
  threads : ι → Thread α

/-- The next action of one thread. -/
def step (w : World ι α) (t : ι) : Option (World ι α) :=
  match (w.threads t).code with
  | [] => none
  | (action, label) :: code =>
    (act t w.locks action).map fun locks => ⟨locks, Function.update w.threads t ⟨label, code⟩⟩

end

/-! ## The discipline -/

/-- What a thread that follows the discipline holds. -/
inductive Stage where
  | free
  | guard
  | guardRead
  | guardWrite
  | read
  deriving DecidableEq

def Stage.holdsMutex : Stage → Bool
  | .guard | .guardRead | .guardWrite => true
  | .free | .read => false

def Stage.reads : Stage → Bool
  | .guardRead | .read => true
  | .free | .guard | .guardWrite => false

/-- The actions the discipline allows. -/
def Stage.after : Stage → Action → Option Stage
  | .free, .lock => some .guard
  | .guard, .unlock => some .free
  | .guard, .rdlock => some .guardRead
  | .guard, .wrlock => some .guardWrite
  | .guardRead, .unlock => some .read
  | .guardWrite, .wrunlock => some .guard
  | .read, .rdunlock => some .free
  | stage, .skip => some stage
  | _, _ => none

variable (fits : Stage → α → Prop)

/-- The code keeps to the discipline from the stage on, with fitting labels, and
ends with nothing held. -/
def Follows : Stage → List (Action × α) → Prop
  | stage, [] => stage = .free
  | stage, (action, label) :: code =>
    match stage.after action with
    | none => False
    | some next => fits next label ∧ Follows next code

instance decidableFollows [∀ stage label, Decidable (fits stage label)] :
    ∀ (stage : Stage) (code : List (Action × α)), Decidable (Follows fits stage code)
  | stage, [] => inferInstanceAs (Decidable (stage = .free))
  | stage, (action, label) :: code =>
    match taken : stage.after action with
    | none => isFalse (by unfold Follows; rw [taken]; exact id)
    | some next =>
      have := decidableFollows next code
      decidable_of_iff (fits next label ∧ Follows fits next code) (by rw [Follows, taken])

variable {fits}

theorem follows_cons {stage : Stage} {action : Action} {label : α} {code : List (Action × α)}
    (follows : Follows fits stage ((action, label) :: code)) :
    ∃ next, stage.after action = some next ∧ fits next label ∧ Follows fits next code := by
  unfold Follows at follows
  split at follows
  · exact follows.elim
  · next next taken => exact ⟨next, taken, follows⟩

/-- Code that follows the discipline from nothing held can be appended. -/
theorem follows_append {stage : Stage} {front back : List (Action × α)}
    (first : Follows fits stage front) (second : Follows fits .free back) :
    Follows fits stage (front ++ back) := by
  induction front generalizing stage with
  | nil =>
    have free : stage = .free := first
    rw [free]
    exact second
  | cons head front ih =>
    obtain ⟨action, label⟩ := head
    obtain ⟨next, taken, fit, rest⟩ := follows_cons first
    rw [List.cons_append, Follows, taken]
    exact ⟨fit, ih rest⟩

/-! ## The locks agree with the stages -/

structure Agrees (l : Locks ι) (stage : ι → Stage) : Prop where
  mutex : ∀ t, l.mutex = some t ↔ (stage t).holdsMutex
  writer : ∀ t, l.writer = some t ↔ stage t = .guardWrite
  readers : ∀ t, t ∈ l.readers ↔ (stage t).reads
  once : l.readers.Nodup
  apart : l.writer ≠ none → l.readers = []

theorem agrees_free : Agrees (Locks.free : Locks ι) fun _ => .free := by
  constructor
  · intro t
    exact iff_of_false (by rintro ⟨⟩) (by rintro ⟨⟩)
  · intro t
    exact iff_of_false (by rintro ⟨⟩) (by rintro ⟨⟩)
  · intro t
    exact iff_of_false List.not_mem_nil (by rintro ⟨⟩)
  · exact List.nodup_nil
  · intro _
    rfl

variable {l next : Locks ι} {stage : ι → Stage}

theorem Agrees.mutex_unique (agrees : Agrees l stage) {t u : ι} (first : (stage t).holdsMutex)
    (second : (stage u).holdsMutex) : t = u := by
  have holds := (agrees.mutex t).mpr first
  rw [(agrees.mutex u).mpr second] at holds
  exact (Option.some.inj holds).symm

theorem Agrees.mutex_none (agrees : Agrees l stage) (free : l.mutex = none) (t : ι) :
    ¬ (stage t).holdsMutex := by
  intro holds
  have taken := (agrees.mutex t).mpr holds
  rw [free] at taken
  cases taken

/-- While a thread holds only the mutex nobody writes. -/
theorem Agrees.no_writer (agrees : Agrees l stage) {t : ι} (guards : stage t = .guard) :
    l.writer = none := by
  cases writer : l.writer with
  | none => rfl
  | some w =>
    have at_write := (agrees.writer w).mp writer
    have same := agrees.mutex_unique (t := t) (u := w) (by rw [guards]; rfl) (by rw [at_write]; rfl)
    rw [same, at_write] at guards
    cases guards

/-- Nobody else reads, writes or holds the mutex while a thread writes. -/
theorem Agrees.exclusive (agrees : Agrees l stage) {t u : ι} (writes : stage t = .guardWrite)
    (other : u ≠ t) :
    stage u = .free := by
  have writer := (agrees.writer t).mpr writes
  have empty := agrees.apart (by rw [writer]; exact Option.some_ne_none t)
  have reads : ¬ (stage u).reads := by
    rw [← agrees.readers u, empty]
    exact List.not_mem_nil
  have guards : ¬ (stage u).holdsMutex :=
    fun holds => other (agrees.mutex_unique holds (by rw [writes]; rfl))
  cases held : stage u with
  | free => rfl
  | guard => exact absurd (by rw [held]; rfl) guards
  | guardRead => exact absurd (by rw [held]; rfl) guards
  | guardWrite => exact absurd (by rw [held]; rfl) guards
  | read => exact absurd (by rw [held]; rfl) reads

/-- The owners of a lock still agree with the stages when one thread moves on, if that thread
does and nothing has changed for the others. -/
theorem agrees_update [DecidableEq ι] (holds : Stage → Prop) {owns owns' : ι → Prop} {t : ι}
    {after : Stage} (all : ∀ u, owns u ↔ holds (stage u)) (there : owns' t ↔ holds after)
    (elsewhere : ∀ u ≠ t, (owns' u ↔ owns u)) (u : ι) :
    owns' u ↔ holds (Function.update stage t after u) := by
  by_cases same : u = t
  · rw [same, Function.update_self]
    exact there
  · rw [Function.update_of_ne same, elsewhere u same]
    exact all u

/-- A lock that the step leaves alone. -/
theorem agrees_left [DecidableEq ι] (holds : Stage → Prop) {owns : ι → Prop} {t : ι}
    {before after : Stage} (all : ∀ u, owns u ↔ holds (stage u)) (held : stage t = before)
    (same : holds before ↔ holds after) (u : ι) :
    owns u ↔ holds (Function.update stage t after u) :=
  agrees_update holds all ((all t).trans (held ▸ same)) (fun _ _ => Iff.rfl) u

/-- Taking or giving back a lock is nothing to the others. -/
theorem some_iff_none {t u : ι} (other : u ≠ t) : some t = some u ↔ none = some u :=
  iff_of_false (fun same => other (Option.some.inj same).symm) (Option.some_ne_none u).symm

/-- An allowed action moves the acting thread to its next stage; the other
threads keep theirs, and what they hold. -/
theorem Agrees.acted [DecidableEq ι] (agrees : Agrees l stage) {t : ι} {action : Action}
    {after : Stage} (allowed : (stage t).after action = some after)
    (taken : act t l action = some next) :
    Agrees next (Function.update stage t after) := by
  have mutexes := agrees.mutex
  have writers := agrees.writer
  have reading := agrees.readers
  cases held : stage t <;> cases action <;> rw [held] at allowed <;> cases allowed <;>
    dsimp only [act] at taken
  case free.lock =>
    split at taken <;> cases taken
    next vacant =>
      refine ⟨agrees_update (·.holdsMutex) mutexes (iff_of_true rfl rfl) fun u other => ?_,
        agrees_left (· = .guardWrite) writers held (by decide),
        agrees_left (·.reads) reading held (by decide), agrees.once, agrees.apart⟩
      rw [vacant]
      exact some_iff_none other
  case guard.unlock =>
    split at taken <;> cases taken
    next own =>
      refine ⟨agrees_update (·.holdsMutex) mutexes
          (iff_of_false (Option.some_ne_none t).symm (by decide)) fun u other => ?_,
        agrees_left (· = .guardWrite) writers held (by decide),
        agrees_left (·.reads) reading held (by decide), agrees.once, agrees.apart⟩
      rw [own]
      exact (some_iff_none other).symm
  case guard.rdlock =>
    split at taken <;> cases taken
    next vacant =>
      have outside : t ∉ l.readers := by
        rw [reading t, held]
        decide
      refine ⟨agrees_left (·.holdsMutex) mutexes held (by decide),
        agrees_left (· = .guardWrite) writers held (by decide),
        agrees_update (·.reads) reading (iff_of_true List.mem_cons_self rfl) fun u other => ?_,
        List.nodup_cons.mpr ⟨outside, agrees.once⟩, fun writes => absurd vacant writes⟩
      exact List.mem_cons.trans (or_iff_right other)
  case guard.wrlock =>
    split at taken <;> cases taken
    next vacant =>
      refine ⟨agrees_left (·.holdsMutex) mutexes held (by decide),
        agrees_update (· = .guardWrite) writers (iff_of_true rfl rfl) fun u other => ?_,
        agrees_left (·.reads) reading held (by decide), agrees.once, fun _ => vacant.2⟩
      rw [vacant.1]
      exact some_iff_none other
  case guardRead.unlock =>
    split at taken <;> cases taken
    next own =>
      refine ⟨agrees_update (·.holdsMutex) mutexes
          (iff_of_false (Option.some_ne_none t).symm (by decide)) fun u other => ?_,
        agrees_left (· = .guardWrite) writers held (by decide),
        agrees_left (·.reads) reading held (by decide), agrees.once, agrees.apart⟩
      rw [own]
      exact (some_iff_none other).symm
  case guardWrite.wrunlock =>
    split at taken <;> cases taken
    next own =>
      refine ⟨agrees_left (·.holdsMutex) mutexes held (by decide),
        agrees_update (· = .guardWrite) writers
          (iff_of_false (Option.some_ne_none t).symm (by decide)) fun u other => ?_,
        agrees_left (·.reads) reading held (by decide), agrees.once,
        fun writes => absurd rfl writes⟩
      rw [own]
      exact (some_iff_none other).symm
  case read.rdunlock =>
    split at taken <;> cases taken
    refine ⟨agrees_left (·.holdsMutex) mutexes held (by decide),
      agrees_left (· = .guardWrite) writers held (by decide),
      agrees_update (·.reads) reading (iff_of_false agrees.once.not_mem_erase (by decide))
        fun u other => List.mem_erase_of_ne other, agrees.once.erase t, fun writes => ?_⟩
    rw [agrees.apart writes]
    rfl
  -- `skip` is left, in every stage
  all_goals
    cases taken
    rw [← held, Function.update_eq_self]
    exact agrees

/-- An allowed action waits only for the mutex, or for the readers to leave. -/
theorem Agrees.enabled [DecidableEq ι] (agrees : Agrees l stage) {t : ι} {action : Action}
    {after : Stage} (allowed : (stage t).after action = some after)
    (mutex : action = .lock → l.mutex = none) (readers : action = .wrlock → l.readers = []) :
    (act t l action).isSome := by
  cases action with
  | lock =>
    unfold act
    rw [if_pos (mutex rfl)]
    rfl
  | unlock =>
    have holds : (stage t).holdsMutex := by
      cases held : stage t <;> rw [held] at allowed <;> cases allowed <;> rfl
    unfold act
    rw [if_pos ((agrees.mutex t).mpr holds)]
    rfl
  | rdlock =>
    have guards : stage t = .guard := by
      cases held : stage t <;> rw [held] at allowed <;> cases allowed
    unfold act
    rw [if_pos (agrees.no_writer guards)]
    rfl
  | rdunlock =>
    have reads : (stage t).reads := by
      cases held : stage t <;> rw [held] at allowed <;> cases allowed
      rfl
    unfold act
    rw [if_pos ((agrees.readers t).mpr reads)]
    rfl
  | wrlock =>
    have guards : stage t = .guard := by
      cases held : stage t <;> rw [held] at allowed <;> cases allowed
    unfold act
    have unused : l.writer = none ∧ l.readers = [] := ⟨agrees.no_writer guards, readers rfl⟩
    dsimp only
    rw [if_pos unused]
    rfl
  | wrunlock =>
    have writes : stage t = .guardWrite := by
      cases held : stage t <;> rw [held] at allowed <;> cases allowed
    unfold act
    rw [if_pos ((agrees.writer t).mpr writes)]
    rfl
  | skip => rfl

/-! ## Runs of threads that follow the discipline -/

structure Disciplined (fits : Stage → α → Prop) (w : World ι α) (stage : ι → Stage) : Prop where
  agrees : Agrees w.locks stage
  follows : ∀ t, Follows fits (stage t) (w.threads t).code
  fit : ∀ t, fits (stage t) (w.threads t).label

variable {w after : World ι α}

theorem Disciplined.step [DecidableEq ι] (disciplined : Disciplined fits w stage) {t : ι}
    (taken : GuardedRwlock.step w t = some after) :
    ∃ next, Disciplined fits after (Function.update stage t next) := by
  unfold GuardedRwlock.step at taken
  have follows := disciplined.follows t
  split at taken
  · cases taken
  · next action label code rest =>
    rw [rest] at follows
    obtain ⟨locks, acted, rfl⟩ := Option.map_eq_some_iff.mp taken
    obtain ⟨next, allowed, fit, behind⟩ := follows_cons follows
    refine ⟨next, disciplined.agrees.acted allowed acted, fun u => ?_, fun u => ?_⟩
    · dsimp only
      by_cases same : u = t
      · rw [same, Function.update_self, Function.update_self]
        exact behind
      · rw [Function.update_of_ne same, Function.update_of_ne same]
        exact disciplined.follows u
    · dsimp only
      by_cases same : u = t
      · rw [same, Function.update_self, Function.update_self]
        exact fit
      · rw [Function.update_of_ne same, Function.update_of_ne same]
        exact disciplined.fit u

/-- A thread that holds something has an action left. -/
theorem Disciplined.next_action (disciplined : Disciplined fits w stage) {t : ι}
    (left : stage t ≠ .free ∨ (w.threads t).code ≠ []) :
    ∃ action label code after, (w.threads t).code = (action, label) :: code ∧
      (stage t).after action = some after := by
  have follows := disciplined.follows t
  cases code : (w.threads t).code with
  | nil =>
    rw [code] at follows left
    rcases left with held | never
    · exact absurd follows held
    · exact absurd rfl never
  | cons head rest =>
    rw [code] at follows
    obtain ⟨after, allowed, _⟩ := follows_cons follows
    exact ⟨head.1, head.2, rest, after, rfl, allowed⟩

theorem step_isSome [DecidableEq ι] {t : ι} {action : Action} {label : α} {code : List (Action × α)}
    (rest : (w.threads t).code = (action, label) :: code)
    (enabled : (act t w.locks action).isSome) :
    (step w t).isSome := by
  unfold step
  rw [rest]
  dsimp only
  rw [Option.isSome_map]
  exact enabled

/-- A thread with only a read lock releases it without waiting. -/
theorem Disciplined.reader_moves [DecidableEq ι] (disciplined : Disciplined fits w stage) {t : ι}
    (reads : stage t = .read) : (GuardedRwlock.step w t).isSome := by
  obtain ⟨action, label, code, after, rest, allowed⟩ :=
    disciplined.next_action (t := t) (Or.inl (by rw [reads]; decide))
  refine step_isSome rest (disciplined.agrees.enabled allowed ?_ ?_)
  · rintro rfl
    rw [reads] at allowed
    cases allowed
  · rintro rfl
    rw [reads] at allowed
    cases allowed

/-- The holder of the mutex moves, or waits for a reader that moves. -/
theorem Disciplined.holder_moves [DecidableEq ι] (disciplined : Disciplined fits w stage) {t : ι}
    (holds : (stage t).holdsMutex) : ∃ u, (GuardedRwlock.step w u).isSome := by
  have busy : stage t ≠ .free := by
    intro free
    rw [free] at holds
    cases holds
  obtain ⟨action, label, code, after, rest, allowed⟩ := disciplined.next_action (Or.inl busy)
  by_cases waits : action = .wrlock ∧ w.locks.readers ≠ []
  · obtain ⟨rfl, occupied⟩ := waits
    have guards : stage t = .guard := by
      cases held : stage t <;> rw [held] at allowed <;> cases allowed
    obtain ⟨u, member⟩ := List.exists_mem_of_ne_nil _ occupied
    have reads := (disciplined.agrees.readers u).mp member
    have other : u ≠ t := by
      rintro rfl
      rw [guards] at reads
      cases reads
    refine ⟨u, disciplined.reader_moves ?_⟩
    cases held : stage u <;> rw [held] at reads <;> cases reads
    exact absurd (disciplined.agrees.mutex_unique (by rw [held]; rfl) holds) other
  · refine ⟨t, step_isSome rest (disciplined.agrees.enabled allowed ?_ fun writes => ?_)⟩
    · rintro rfl
      cases held : stage t <;> rw [held] at allowed <;> cases allowed
      exact absurd held busy
    · by_contra occupied
      exact waits ⟨writes, occupied⟩

/-- No deadlock: some thread can move while one has actions left. -/
theorem Disciplined.progress [DecidableEq ι] (disciplined : Disciplined fits w stage)
    (unfinished : ∃ t, (w.threads t).code ≠ []) : ∃ u, (GuardedRwlock.step w u).isSome := by
  cases mutex : w.locks.mutex with
  | some t => exact disciplined.holder_moves ((disciplined.agrees.mutex t).mp mutex)
  | none =>
    obtain ⟨t, left⟩ := unfinished
    have outside := disciplined.agrees.mutex_none mutex t
    cases held : stage t with
    | free =>
      obtain ⟨action, label, code, after, rest, allowed⟩ := disciplined.next_action (Or.inr left)
      refine ⟨t, step_isSome rest (disciplined.agrees.enabled allowed (fun _ => mutex) ?_)⟩
      rintro rfl
      rw [held] at allowed
      cases allowed
    | guard => exact absurd (by rw [held]; rfl) outside
    | guardRead => exact absurd (by rw [held]; rfl) outside
    | guardWrite => exact absurd (by rw [held]; rfl) outside
    | read => exact ⟨t, disciplined.reader_moves held⟩

/-- When all threads are done both locks are free. -/
theorem Disciplined.done (disciplined : Disciplined fits w stage)
    (finished : ∀ t, (w.threads t).code = []) :
    w.locks = .free := by
  have free : ∀ t, stage t = .free := by
    intro t
    have follows := disciplined.follows t
    rwa [finished t] at follows
  have mutex : w.locks.mutex = none := by
    cases holder : w.locks.mutex with
    | none => rfl
    | some t =>
      have holds := (disciplined.agrees.mutex t).mp holder
      rw [free t] at holds
      cases holds
  have writer : w.locks.writer = none := by
    cases holder : w.locks.writer with
    | none => rfl
    | some t =>
      have writes := (disciplined.agrees.writer t).mp holder
      rw [free t] at writes
      cases writes
  have readers : w.locks.readers = [] := by
    apply List.eq_nil_iff_forall_not_mem.mpr
    intro t member
    have reads := (disciplined.agrees.readers t).mp member
    rw [free t] at reads
    cases reads
  cases locks : w.locks
  rw [locks] at mutex writer readers
  unfold Locks.free
  congr

end CgminerT4.Library.GuardedRwlock
