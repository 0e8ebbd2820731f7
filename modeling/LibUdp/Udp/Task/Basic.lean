import LibUdp.Resource.Ledger
import Mathlib.Logic.Function.Basic

/-!
# Coroutine frames and tasks

`Task<T>` and its two specialisations, as far as they decide when the frame of a coroutine is
destroyed: the suspend points of the promise types, and the constructors, move operations and the
destructor of `Task`, which all three have in common. A frame is told by the number of coroutines
that were created before its own.
-/

namespace Udp

open Ledger

/-- `std::suspend_never` and `std::suspend_always`. -/
inductive Suspend where
  | never
  | always
  deriving DecidableEq

/-- The suspend points of a `promise_type`. -/
structure PromiseType where
  initialSuspend : Suspend
  finalSuspend   : Suspend
  deriving DecidableEq

namespace PromiseType

/-- `Task<T>::promise_type`. -/
def task : PromiseType := ⟨.never, .always⟩

/-- `Task<mesh::Node*>::promise_type`. -/
def nodeTask : PromiseType := ⟨.never, .always⟩

/-- `Task<std::any>::promise_type`. -/
def anyTask : PromiseType := ⟨.never, .never⟩

end PromiseType

namespace Frames

inductive Status where
  | running
  | suspended
  /-- suspended at the final suspend point -/
  | done
  | destroyed
  deriving DecidableEq

/-- What happens to frames. -/
inductive Event where
  | created (f : ℕ)
  /-- `m_handle.destroy()` -/
  | destroyedByTask (f : ℕ)
  /-- by a coroutine that does not suspend at its end -/
  | destroyedByRuntime (f : ℕ)
  deriving DecidableEq

/-- The frame, created or destroyed. -/
def Event.entry : Event → Entry ℕ
  | .created f            => .acquire f
  | .destroyedByTask f    => .release f
  | .destroyedByRuntime f => .release f

/-- The coroutines, the `m_handle` of the `Task` object at each place, and what happened. -/
structure State where
  statuses : List Status := []
  tasks    : ℕ → Option (Option ℕ) := fun _ => none
  history  : List Event := []

/-- What a program does with coroutines and `Task` objects. -/
inductive Action where
  /-- the call of a coroutine, which returns a `Task` -/
  | create (i : ℕ)
  /-- `Task()` -/
  | construct (i : ℕ)
  /-- a coroutine suspends -/
  | suspend (f : ℕ)
  /-- a coroutine is resumed by whom it waits for -/
  | wake (f : ℕ)
  /-- a coroutine gets to its end -/
  | complete (f : ℕ)
  | moveConstruct (dst src : ℕ)
  | moveAssign (dst src : ℕ)
  | destroy (i : ℕ)
  /-- `Task::resume`, which does nothing to a coroutine that is not suspended -/
  | resume (i : ℕ)
  /-- `is_done` and `get_result` -/
  | query (i : ℕ)
  deriving DecidableEq

namespace State

/-- The ledger of the frames. -/
def ledger (s : State) : List (Entry ℕ) := s.history.map Event.entry

/-- What the `Task` at a place holds, if there is one. -/
def handle (s : State) (i : ℕ) : Option ℕ := (s.tasks i).join

/-- The status of a coroutine that has the old one changes. -/
def goOn (s : State) (f : ℕ) (old new : Status) : Option State :=
  if s.statuses[f]? = some old then some { s with statuses := s.statuses.set f new } else none

/-- `if (m_handle) { m_handle.destroy(); }`. -/
def destroyHandle (s : State) : Option ℕ → State
  | none   => s
  | some f => { s with
      statuses := s.statuses.set f .destroyed
      history  := s.history ++ [.destroyedByTask f] }

/-- A `Task` at a place, or none. -/
def put (s : State) (i : ℕ) (task : Option (Option ℕ)) : State :=
  { s with tasks := Function.update s.tasks i task }

/-- `m_handle = rhs.m_handle; rhs.m_handle = nullptr;`. -/
def takeHandle (s : State) (dst src : ℕ) : State :=
  (s.put dst (some (s.handle src))).put src (some none)

end State

variable (p : PromiseType)

/-- A coroutine is created. -/
def create (s : State) (i : ℕ) : State where
  statuses := s.statuses ++ [match p.initialSuspend with
    | .never  => .running
    | .always => .suspended]
  tasks    := Function.update s.tasks i (some (some s.statuses.length))
  history  := s.history ++ [.created s.statuses.length]

/-- A coroutine ends. Where it does not suspend the runtime destroys the frame. -/
def complete (s : State) (f : ℕ) : Option State :=
  match p.finalSuspend with
  | .always => s.goOn f .running .done
  | .never  => (s.goOn f .running .destroyed).map fun s =>
      { s with history := s.history ++ [.destroyedByRuntime f] }

def step (s : State) : Action → Option State
  | .create i => if (s.tasks i).isNone then some (create p s i) else none
  | .construct i => if (s.tasks i).isNone then some (s.put i (some none)) else none
  | .suspend f => s.goOn f .running .suspended
  | .wake f => s.goOn f .suspended .running
  | .complete f => complete p s f
  | .moveConstruct dst src =>
    if (s.tasks dst).isNone ∧ (s.tasks src).isSome then some (s.takeHandle dst src) else none
  | .moveAssign dst src =>
    if (s.tasks dst).isSome ∧ (s.tasks src).isSome then
      if dst = src then some s
      else some ((s.destroyHandle (s.handle dst)).takeHandle dst src)
    else none
  | .destroy i =>
    if (s.tasks i).isSome then some ((s.destroyHandle (s.handle i)).put i none) else none
  | .resume i =>
    if (s.tasks i).isSome then
      some ((s.handle i).elim s fun f => (s.goOn f .suspended .running).getD s)
    else none
  | .query i => if (s.handle i).isSome then some s else none

/-- The frame that the action gets at through the `m_handle` of a `Task`. -/
def Action.uses (s : State) : Action → Option ℕ
  | .destroy i | .resume i | .query i => s.handle i
  | .moveAssign dst src => if dst = src then none else s.handle dst
  | _ => none

end Frames

end Udp
