import LibUdp.Mesh.Events
import LibUdp.Run.Basic
import Mathlib.Logic.Function.Basic

/-!
# The event dispatcher

`Dispatcher::subscribe` and `Dispatcher::dispatch`, with handlers that can call both. What a handler
does is left open. No `co_await` of a task suspends or rethrows (the awaiter in
`examples/mesh.cc`), so the calls in progress form a stack. `dispatch` passes on a reference to its
event: the `std::move` in the loop moves nothing.
-/

namespace Mesh

/-- A call of `dispatch` that is in its loop. -/
structure Dispatch (E H : Type) where
  event      : E
  /-- the iterator of the loop -/
  position   : ℕ := 0
  /-- the end iterator, which the loop takes when it starts -/
  stop       : ℕ
  /-- whether the two iterators are valid -/
  valid      : Bool := true
  /-- the handlers that were subscribed to the type of the event when the call began -/
  subscribed : List H
  /-- the handlers called so far, with the event they were passed -/
  invoked    : List (H × E) := []
  deriving DecidableEq

inductive DispatchFrame (E H : Type) where
  | dispatch (d : Dispatch E H)
  | handler
  deriving DecidableEq

/-- `Dispatcher`, with the calls that are in progress and the dispatches that have ended. -/
structure Dispatcher (E H : Type) where
  handlers  : Text → List H := fun _ => []
  stack     : List (DispatchFrame E H) := []
  ended     : List (Dispatch E H) := []
  /-- the behaviour of the program has become undefined -/
  undefined : Bool := false

namespace Dispatcher

/-- What the caller, a handler or the loop of a dispatch does. -/
inductive Action (E H : Type) where
  | subscribe (eventType : Text) (handler : H) (reallocates : Bool)
  | dispatch (event : E)
  /-- the loop of the dispatch at the top of the stack goes on -/
  | advance
  /-- the handler at the top of the stack returns its task, or throws -/
  | finish (threw : Bool)
  deriving DecidableEq

end Dispatcher

variable {E H : Type} (getType : E → Text)

/-- A vector that moves its elements leaves the iterators into it invalid. -/
def Dispatch.invalidate (eventType : Text) (d : Dispatch E H) : Dispatch E H :=
  if getType d.event = eventType then { d with valid := false } else d

def DispatchFrame.invalidate (eventType : Text) : DispatchFrame E H → DispatchFrame E H
  | .dispatch d => .dispatch (d.invalidate getType eventType)
  | .handler    => .handler

namespace Dispatcher

/-- Code outside the dispatcher runs: the caller or a handler. -/
def outside (s : Dispatcher E H) : Bool :=
  match s.stack with
  | .dispatch _ :: _    => false
  | .handler :: _ | []  => true

/-- `Dispatcher::subscribe`. A rehash of the table leaves the references to its vectors valid. -/
def subscribe (s : Dispatcher E H) (eventType : Text) (handler : H) (reallocates : Bool) :
    Dispatcher E H :=
  { s with
    handlers := Function.update s.handlers eventType (s.handlers eventType ++ [handler])
    stack    :=
      if reallocates then s.stack.map (DispatchFrame.invalidate getType eventType) else s.stack }

/-- `Dispatcher::dispatch` up to its loop. -/
def dispatch (s : Dispatcher E H) (event : E) : Dispatcher E H :=
  let handlers := s.handlers (getType event)
  { s with
    stack := .dispatch { event, stop := handlers.length, subscribed := handlers } :: s.stack }

/-- The loop of `dispatch`: the test at its head and, unless it ends there, the next call. -/
def advance (s : Dispatcher E H) : Option (Dispatcher E H) :=
  match s.stack with
  | .dispatch d :: below =>
    if d.valid then
      if d.position = d.stop then some { s with stack := below, ended := s.ended ++ [d] }
      else
        match (s.handlers (getType d.event))[d.position]? with
        | some handler =>
          let d' : Dispatch E H :=
            { d with position := d.position + 1, invoked := d.invoked ++ [(handler, d.event)] }
          some { s with stack := .handler :: .dispatch d' :: below }
        | none => some { s with undefined := true }
    else some { s with undefined := true }
  | _ => none

/-- A handler returns. What it throws before it has a task, `dispatch` keeps in its promise. -/
def finish (s : Dispatcher E H) (threw : Bool) : Option (Dispatcher E H) :=
  match s.stack with
  | .handler :: .dispatch d :: below =>
    if threw then some { s with stack := below, ended := s.ended ++ [d] }
    else some { s with stack := .dispatch d :: below }
  | _ => none

def step (s : Dispatcher E H) (a : Action E H) : Option (Dispatcher E H) :=
  if s.undefined then none
  else match a with
    | .subscribe eventType handler reallocates =>
      if s.outside then some (s.subscribe getType eventType handler reallocates) else none
    | .dispatch event => if s.outside then some (s.dispatch getType event) else none
    | .advance        => s.advance getType
    | .finish threw   => s.finish threw

end Dispatcher

end Mesh
