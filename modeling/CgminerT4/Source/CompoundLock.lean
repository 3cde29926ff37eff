import CgminerT4.Library.GuardedRwlock

/-!
# The compound lock (miner.h)

A cglock is a mutex and a readers-writer lock. The operations of the header are
the rows of acquires and releases below. A session is one documented use of the
lock by a thread, from the first acquire to the last release. Yielding and the
lock statistics are left out, and so is cg_ruwlock, which is a read session
followed by a write session.
-/
namespace CgminerT4.Source.CompoundLock
open Library.GuardedRwlock

inductive Op where
  | rlock
  | ilock
  | uilock
  | ulock
  | wlock
  | dwlock
  | dwilock
  | dlock
  | runlock
  | wunlock
  deriving DecidableEq

def code : Op → List Action
  | .rlock => [.lock, .rdlock, .unlock]
  | .ilock => [.lock]
  | .uilock => [.unlock]
  | .ulock => [.wrlock]
  | .wlock => [.lock, .wrlock]
  | .dwlock => [.wrunlock, .rdlock, .unlock]
  | .dwilock => [.wrunlock]
  | .dlock => [.rdlock, .unlock]
  | .runlock => [.rdunlock]
  | .wunlock => [.wrunlock, .unlock]

/-- Where a thread is: between two calls with the mode it has the lock in, or
after a first action of a call that has more. -/
inductive Position where
  | outside
  | reading
  | intermediate
  | writing
  | inside (op : Op)
  deriving DecidableEq

def modeAfter : Op → Position
  | .rlock | .dwlock | .dlock => .reading
  | .ilock | .dwilock => .intermediate
  | .ulock | .wlock => .writing
  | .uilock | .runlock | .wunlock => .outside

/-- The actions of a call with the position behind each. Without actions the call
still ends in its mode. -/
def positions (op : Op) : List Action → List (Action × Position)
  | [] => [(.skip, modeAfter op)]
  | [last] => [(last, modeAfter op)]
  | action :: rest => (action, .inside op) :: positions op rest

def call (op : Op) : List (Action × Position) := positions op (code op)

/-- The ways to leave write mode. -/
inductive Release where
  | unlock
  | demote
  | downgrade

def Release.ops : Release → List Op
  | .unlock => [.wunlock]
  | .demote => [.dwilock, .uilock]
  | .downgrade => [.dwlock, .runlock]

inductive Session where
  | read
  | intermediate
  | demoted
  | upgraded (release : Release)
  | write (release : Release)

def Session.ops : Session → List Op
  | .read => [.rlock, .runlock]
  | .intermediate => [.ilock, .uilock]
  | .demoted => [.ilock, .dlock, .runlock]
  | .upgraded release => [.ilock, .ulock] ++ release.ops
  | .write release => .wlock :: release.ops

def Session.code (session : Session) : List (Action × Position) := session.ops.flatMap call

/-- All threads before their first session. -/
def start {ι : Type*} (sessions : ι → List Session) : World ι Position where
  locks := .free
  threads t := ⟨.outside, (sessions t).flatMap Session.code⟩

end CgminerT4.Source.CompoundLock
