/-!
# The queue between threads (util.c)

The locked sections of tq_push, tq_freeze, tq_thaw and tq_pop without a time
limit, for one popper. Waiting on the condition variable releases the mutex; the
popper goes on after a signal or by itself, and takes the mutex again behind
other sections. pthread_cond_wait itself does not fail. Next to the queue stand
the elements that went in and what each tq_pop returned.
-/
namespace CgminerT4.Source.ThreadQueue

/-- struct thread_q without its mutex and condition variable. -/
structure ThreadQ (α : Type) where
  q : List α
  frozen : Bool
  deriving DecidableEq

/-- Where the popper is: outside of tq_pop, waiting on the condition variable, or woken. -/
inductive Popper where
  | outside
  | waiting
  | woken
  deriving DecidableEq

/-- pthread_cond_signal. -/
def Popper.signal : Popper → Popper
  | .waiting => .woken
  | popper => popper

structure System (α : Type) where
  tq : ThreadQ α
  popper : Popper
  accepted : List α
  returned : List (Option α)
  refusedFrozen : List Bool
  deriving DecidableEq

variable {α : Type}

/-- The system behind tq_new. -/
def System.new : System α := ⟨⟨[], false⟩, .outside, [], [], []⟩

/-- tq_freezethaw. -/
def freezeThaw (s : System α) (frozen : Bool) : System α :=
  { s with tq := { s.tq with frozen }, popper := s.popper.signal }

def tqPush (s : System α) (data : α) : System α :=
  if !s.tq.frozen then
    { s with
      tq := { s.tq with q := s.tq.q ++ [data] }
      popper := s.popper.signal
      accepted := s.accepted ++ [data] }
  else { s with popper := s.popper.signal, refusedFrozen := s.refusedFrozen ++ [s.tq.frozen] }

/-- The end of tq_pop: the first element, or nothing from an empty queue. -/
def popEnd (s : System α) : System α :=
  match s.tq.q with
  | [] => { s with popper := .outside, returned := s.returned ++ [none] }
  | data :: q =>
    { s with tq := { s.tq with q }, popper := .outside, returned := s.returned ++ [some data] }

/-- tq_pop up to its end or its wait. -/
def tqPop (s : System α) : System α :=
  if !s.tq.q.isEmpty then popEnd s else { s with popper := .waiting }

inductive Event (α : Type) where
  | push (data : α)
  | freeze
  | thaw
  | pop
  | spurious
  | resume

def step (s : System α) : Event α → Option (System α)
  | .push data => some (tqPush s data)
  | .freeze => some (freezeThaw s true)
  | .thaw => some (freezeThaw s false)
  | .pop => if s.popper = .outside then some (tqPop s) else none
  | .spurious => if s.popper = .waiting then some { s with popper := .woken } else none
  | .resume => if s.popper = .woken then some (popEnd s) else none

end CgminerT4.Source.ThreadQueue
