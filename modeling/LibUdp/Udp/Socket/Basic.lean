import LibUdp.Run.Basic

/-!
# Asynchronous sends and receives

`Socket::send_async` and `Socket::receive_async` on one `io_uring`, run by one thread. A step is
what the thread does between two points at which the kernel can post a completion entry in
between. Task `t` is the coroutine of the `t`-th call, and its operation has the same number.
-/

namespace Udp

/-- A completion queue entry: the operation in its user data, and `res`. -/
structure Cqe where
  op  : ℕ
  res : Int32
  deriving DecidableEq

/-- The coroutine of a call, with the result in its promise. -/
inductive Task where
  | pending
  | done (result : Int32)
  deriving DecidableEq

/-- Where the thread is. -/
inductive Control where
  /-- in the caller -/
  | idle
  /-- in `await_suspend` of the operation of a task, which has been submitted -/
  | submitted (t : ℕ)
  /-- in `Completion_operation::submit` of a task, before `io_uring_wait_cqe` -/
  | waiting (t : ℕ)
  /-- in `await_suspend` of the completion of a task, after the submit -/
  | completed (t : ℕ) (result : Int32)
  /-- `std::terminate`, a failed assertion, or a virtual call of an operation that is gone -/
  | terminated
  deriving DecidableEq

structure Socket where
  tasks    : List Task := []
  /-- submitted operations without a completion entry -/
  inFlight : List ℕ := []
  /-- all entries posted so far -/
  cqes     : List Cqe := []
  /-- the number of entries marked as seen -/
  head     : ℕ := 0
  control  : Control := .idle
  deriving DecidableEq

/-- The calls of the caller, the posts of the kernel, and the thread going on in a call. -/
inductive Action where
  /-- `send_async`, with an address that `inet_pton` accepts or not -/
  | sendAsync (address submit : Bool)
  /-- `receive_async` -/
  | receiveAsync (submit : Bool)
  /-- `Task::resume` -/
  | resume (t : ℕ)
  | post (cqe : Cqe)
  | advance
  deriving DecidableEq

def Action.isCall : Action → Bool
  | .sendAsync _ _ | .receiveAsync _ => true
  | _ => false

namespace Socket

/-- `io_uring_cq_ready`. -/
def cqReady (s : Socket) : ℕ := s.cqes.length - s.head

/-- What `io_uring_wait_cqe` gives: the oldest entry that is not seen. -/
def waitCqe (s : Socket) : Option Cqe := s.cqes[s.head]?

/-- `submit` of a send or receive operation; it throws when `submitted` is false. -/
def submit (s : Socket) (submitted : Bool) : Socket :=
  if submitted then
    { s with
      tasks    := s.tasks ++ [.pending]
      inFlight := s.inFlight ++ [s.tasks.length]
      control  := .submitted s.tasks.length }
  else { s with control := .terminated }

/-- `Socket::send_async` up to `io_uring_submit`. What it throws, `unhandled_exception` turns
into `std::terminate`. -/
def sendAsync (s : Socket) (address submitted : Bool) : Socket :=
  if address then s.submit submitted else { s with control := .terminated }

/-- `Socket::receive_async` up to `io_uring_submit`. -/
def receiveAsync (s : Socket) (submitted : Bool) : Socket := s.submit submitted

/-- `-EAGAIN` or `-EINTR`, which the assertion in `reap` of the operations excludes. -/
def isTransient (res : Int32) : Bool := res = -11 || res = -4

/-- The operation is gone with the other local variables of its coroutine, which has returned. -/
def isGone (s : Socket) (op : ℕ) : Bool :=
  match s.tasks[op]? with
  | some (.done _) => true
  | _              => false

/-- `reap` of the operation that an entry points to does not return. -/
def stops (asserts : Bool) (s : Socket) (cqe : Cqe) : Bool :=
  s.isGone cqe.op || asserts && isTransient cqe.res

/-- `Completion_operation::reap`: `reap` of the operation with its assertion, `complete`,
`io_uring_cqe_seen`. The coroutine that `complete` resumes is the one of the completion itself. -/
def reap (asserts : Bool) (s : Socket) (t : ℕ) (cqe : Cqe) : Socket :=
  if s.stops asserts cqe then { s with control := .terminated }
  else { s with
    tasks   := s.tasks.set t (.done cqe.res)
    head    := s.head + 1
    control := .completed t cqe.res }

/-- The thread goes on inside a call. -/
def advance (asserts : Bool) (s : Socket) : Option Socket :=
  match s.control with
  | .submitted t =>
    if s.cqReady = 0 then some { s with control := .idle }
    else some { s with control := .waiting t }
  | .waiting t => s.waitCqe.map (s.reap asserts t)
  | .completed t result =>
    if s.cqReady = 0 then some { s with control := .idle }
    -- `await_suspend` gives `false`: the coroutine goes on once more and returns again
    else some { s with tasks := s.tasks.set t (.done result), control := .idle }
  | .idle | .terminated => none

/-- `asserts` tells whether the assertions are compiled in. -/
def step (asserts : Bool) (s : Socket) : Action → Option Socket
  | .sendAsync address submitted =>
    if s.control = .idle then some (s.sendAsync address submitted) else none
  | .receiveAsync submitted =>
    if s.control = .idle then some (s.receiveAsync submitted) else none
  | .resume t =>
    if s.control = .idle then
      match s.tasks[t]? with
      | some .pending  => some { s with control := .waiting t }
      | some (.done _) => some s
      | none           => none
    else none
  | .post cqe =>
    if cqe.op ∈ s.inFlight then
      some { s with inFlight := s.inFlight.erase cqe.op, cqes := s.cqes ++ [cqe] }
    else none
  | .advance => s.advance asserts

end Socket

end Udp
