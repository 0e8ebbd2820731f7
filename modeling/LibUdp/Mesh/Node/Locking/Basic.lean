import LibUdp.Mesh.Node.Receive
import LibUdp.Mesh.Node.Reporting

/-!
# Node operations, the peer lock and handlers

The member functions of `Node` as statements that threads execute one at a time. Each thread has a
stack of frames: operations with the scoped lock they hold, dispatches in progress, and handlers.
What a handler does is left open, so it can call any public operation at any time. No `co_await`
of a task suspends or rethrows (the awaiter in `examples/mesh.cc`), so an operation goes on after
what it has called has ended.

A thread that asks for the lock while it holds it gets a `std::system_error` (`EDEADLK` from the
`pthread_rwlock_t` that `std::shared_mutex` is made of). A `Task<Node*>` keeps what is thrown out of
its operation.
-/

namespace Mesh

open Bytes

/-- The ways to take `m_peers_mutex`. -/
inductive LockMode where
  | shared
  | unique
  deriving DecidableEq

inductive Loop where
  | receive
  | healthCheck
  | discovery
  deriving DecidableEq

/-- The local variables of the loops. -/
structure Locals where
  buffer       : Buffer := List.replicate maxPacket 0
  errorMessage : Text := []
  deriving DecidableEq

/-- The member functions of `Node`. -/
inductive Call where
  | start
  | stop
  | sendToPeer (endpoint : Endpoint)
  | broadcast
  | addPeer (endpoint : Endpoint)
  | subscribe (eventType : Text)
  | sleepAsync (duration : Time)
  | runLoop (l : Loop)
  deriving DecidableEq

def Call.isPublic : Call → Bool
  | .runLoop _ => false
  | _          => true

inductive Stmt where
  | lock (mode : LockMode)
  | unlock
  | returnIf (running : Bool)
  | setRunning (running : Bool)
  /-- `while (m_running)` with the body of one of the loops -/
  | loop (l : Loop) (locals : Locals)
  /-- the `catch` block of a loop, and what follows it in the body -/
  | endTry (l : Loop) (locals : Locals)
  /-- the `try` block of `receive_loop`, up to the dispatch -/
  | receive (locals : Locals)
  /-- the sends of `send_to_peer` and `broadcast` -/
  | send
  | insertPeer (endpoint : Endpoint)
  /-- the loop of a health check pass, before it starts -/
  | check
  /-- that loop with the entries it has not visited yet -/
  | expire (now : Time) (order : List Text)
  | erase (id : Text)
  | dispatch (event : Event)
  | subscribe (eventType : Text)
  | call (c : Call)
  deriving DecidableEq

namespace Loop

/-- The body of a loop up to the end of its `try` block. `discovery_loop` declares its
`error_message` in there. -/
def body : Loop → Locals → List Stmt
  | .receive, locals     => [.receive locals]
  | .healthCheck, locals => [.lock .unique, .check, .unlock, .endTry .healthCheck locals]
  | .discovery, locals   =>
    [.call .broadcast, .endTry .discovery { locals with errorMessage := [] }]

/-- What a loop puts in front of `e.what()`. -/
def label : Loop → Text
  | .receive     => "Receive error: ".toList
  | .healthCheck => "Health check error: ".toList
  | .discovery   => "Discovery error: ".toList

/-- The event at the end of the body. -/
def pause : Loop → List Event
  | .receive     => []
  | .healthCheck => [.sleepFor (seconds 5)]
  | .discovery   => [.sleepFor (seconds 30)]

/-- What follows the `try` block. -/
def rest (l : Loop) (locals : Locals) : List Stmt :=
  (Reporting.notify locals.errorMessage ++ l.pause).map .dispatch ++ [.loop l locals]

end Loop

def Call.body : Call → List Stmt
  | .start =>
    [.returnIf true, .setRunning true, .call (.runLoop .receive), .call (.runLoop .healthCheck),
      .call (.runLoop .discovery), .dispatch (.networkStateChanged true "Node started".toList)]
  | .stop =>
    [.returnIf false, .setRunning false,
      .dispatch (.networkStateChanged false "Node stopped".toList)]
  | .sendToPeer _         => [.lock .shared, .send, .unlock]
  | .broadcast            => [.lock .shared, .send, .unlock]
  | .addPeer endpoint     => [.lock .unique, .insertPeer endpoint, .unlock]
  | .subscribe eventType  => [.subscribe eventType]
  | .sleepAsync duration  => [.dispatch (.sleepFor duration)]
  | .runLoop l            => [.loop l {}]

/-- The code that goes on when a statement in front of it throws: that of a `catch` block, or none
where the task keeps the exception. -/
def unwind (what : Text) : List Stmt → List Stmt
  | []                       => []
  | .endTry l locals :: code => .endTry l { locals with errorMessage := l.label ++ what } :: code
  | _ :: code                => unwind what code

/-! ### Threads -/

inductive Frame where
  /-- an operation: what it has still to do, and the lock it holds -/
  | operation (code : List Stmt) (held : Option LockMode)
  /-- a dispatch: the event and how many handlers have still to be called, of those that were
  subscribed when it began -/
  | dispatch (event : Event) (remaining : ℕ)
  | handler
  deriving DecidableEq

def Frame.held : Frame → Option LockMode
  | .operation _ held => held
  | _ => none

/-- A dispatch of an event of the type is in progress. -/
def Frame.dispatches (eventType : Text) : Frame → Bool
  | .dispatch event _ => event.getType = eventType
  | _ => false

/-- How a process ends. -/
inductive Exit where
  /-- by `std::terminate` or a failed assertion -/
  | terminated
  /-- what it does is no longer defined -/
  | undefined
  deriving DecidableEq

/-- The data of a node that its operations share, and how its process has ended. -/
structure Shared where
  peers         : PeerTable := ∅
  /-- the event types subscribed to, once for each handler -/
  subscriptions : List Text := []
  running       : Bool := false
  /-- the last time read from the clock -/
  clock         : Time := 0
  /-- the events dispatched so far -/
  events        : List Event := []
  exit          : Option Exit := none

def Shared.terminate (node : Shared) : Shared := { node with exit := some .terminated }

/-- What the socket does for a statement. -/
inductive Await (α : Type) where
  /-- there is no completion entry to go on with -/
  | waits
  /-- an address or a submission is refused, which `Task<int>` turns into `std::terminate` -/
  | refuses
  | completes (result : α)

/-- What a statement gets from outside: the time, the order of an iteration, how a receive and the
sends end, whether the assertions are compiled in, and whether a vector has to move to grow. -/
structure Env where
  now         : Time := 0
  order       : List Text := []
  receiving   : Await Reception := .waits
  sending     : Await (List Int32) := .completes []
  asserts     : Bool := true
  reallocates : Bool := false

/-- What a thread finds out about the other ones and about itself. -/
structure Context where
  /-- the mutex can be taken -/
  available   : LockMode → Bool
  /-- the thread has it already -/
  owns        : Bool
  /-- a dispatch of an event of the type is in progress -/
  dispatching : Text → Bool

/-- Execute the first statement of an operation. -/
def execute (context : Context) (env : Env) (node : Shared) (code : List Stmt)
    (held : Option LockMode) (below : List Frame) : Stmt → Option (Shared × List Frame)
  | .lock mode =>
    if context.available mode then some (node, .operation code (some mode) :: below)
    else if context.owns then
      some (node, .operation (unwind "Resource deadlock avoided".toList code) held :: below)
    else none
  | .unlock => some (node, .operation code none :: below)
  | .returnIf running =>
    some (node, .operation (if node.running = running then [] else code) held :: below)
  | .setRunning running => some ({ node with running }, .operation code held :: below)
  | .loop l locals =>
    some (node, .operation (if node.running then l.body locals ++ code else code) held :: below)
  | .endTry l locals => some (node, .operation (l.rest locals ++ code) held :: below)
  | .receive locals =>
    match env.receiving with
    | .waits   => none
    | .refuses => some (node.terminate, .operation (.receive locals :: code) held :: below)
    | .completes reception =>
      if reception.aborts env.asserts then
        some (node.terminate, .operation (.receive locals :: code) held :: below)
      else
        let buffer := reception.write locals.buffer
        let after := .endTry .receive { locals with buffer } :: code
        some (node, .operation (.dispatch (.messageReceived buffer []) :: after) held :: below)
  | .send =>
    match env.sending with
    | .waits   => none
    | .refuses => some (node.terminate, .operation (.send :: code) held :: below)
    | .completes results =>
      if env.asserts && results.any Udp.Socket.isTransient then
        some (node.terminate, .operation (.send :: code) held :: below)
      else some (node, .operation code held :: below)
  | .insertPeer endpoint =>
    if node.clock ≤ env.now then
      let (peers, events) := addPeer env.now endpoint node.peers
      some ({ node with peers, clock := env.now },
        .operation (events.map .dispatch ++ code) held :: below)
    else none
  | .check =>
    if node.clock ≤ env.now ∧ IsOrder env.order node.peers then
      some ({ node with clock := env.now },
        .operation (.expire env.now env.order :: code) held :: below)
    else none
  | .expire _ [] => some (node, .operation code held :: below)
  | .expire now (id :: order) =>
    let rest := .expire now order :: code
    match node.peers.lookup id with
    | none      => some (node, .operation rest held :: below)
    | some peer =>
      if peer.isExpired now then
        if peer.isActive then
          some ({ node with peers := node.peers.insert id { peer with isActive := false } },
            .operation (.dispatch (.peerDisconnected id) :: .erase id :: rest) held :: below)
        else some (node, .operation (.erase id :: rest) held :: below)
      else some (node, .operation rest held :: below)
  | .erase id =>
    some ({ node with peers := node.peers.erase id }, .operation code held :: below)
  | .dispatch event =>
    some ({ node with events := node.events ++ [event] },
      .dispatch event (node.subscriptions.count event.getType) :: .operation code held :: below)
  | .subscribe eventType =>
    -- the loop of the dispatch goes on in the vector that has moved
    if context.dispatching eventType && env.reallocates then
      some ({ node with exit := some .undefined },
        .operation (.subscribe eventType :: code) held :: below)
    else
      some ({ node with subscriptions := node.subscriptions ++ [eventType] },
        .operation code held :: below)
  | .call c => some (node, .operation c.body none :: .operation code held :: below)

/-- A step of a thread outside handlers and client code. -/
def advance (context : Context) (env : Env) (node : Shared) :
    List Frame → Option (Shared × List Frame)
  | .operation [] _ :: below              => some (node, below)
  | .operation (stmt :: code) held :: below => execute context env node code held below stmt
  | .dispatch _ 0 :: below                => some (node, below)
  | .dispatch event (n + 1) :: below      => some (node, .handler :: .dispatch event n :: below)
  | .handler :: _ | []                    => none

/-! ### The machine -/

structure Machine where
  node    : Shared := {}
  threads : List (List Frame)

inductive Action where
  /-- client code, or the handler at the top of the stack, calls an operation -/
  | call (thread : ℕ) (c : Call)
  /-- the handler at the top of the stack returns, or throws out of the dispatch -/
  | finish (thread : ℕ) (threw : Bool)
  | run (thread : ℕ) (env : Env)

def Action.thread : Action → ℕ
  | .call thread _ | .finish thread _ | .run thread _ => thread

namespace Machine

/-- A thread can take the mutex. -/
def available (m : Machine) : LockMode → Bool
  | .shared => m.threads.all fun stack => stack.all fun f => f.held ≠ some .unique
  | .unique => m.threads.all fun stack => stack.all fun f => f.held = none

/-- What the thread with the stack finds out. -/
def context (m : Machine) (stack : List Frame) : Context where
  available   := m.available
  owns        := stack.any fun f => f.held = some .unique
  dispatching := fun eventType => m.threads.any fun stack => stack.any (Frame.dispatches eventType)

/-- The node and the stack of the thread after an action of the thread. -/
def stepThread (m : Machine) (stack : List Frame) : Action → Option (Shared × List Frame)
  | .call _ c =>
    if c.isPublic then
      match stack with
      | []                => some (m.node, [.operation c.body none])
      | .handler :: below => some (m.node, .operation c.body none :: .handler :: below)
      | _                 => none
    else none
  | .finish _ threw =>
    match stack with
    | .handler :: .dispatch event n :: below =>
      some (m.node, if threw then below else .dispatch event n :: below)
    | _ => none
  | .run _ env => Mesh.advance (m.context stack) env m.node stack

def step (m : Machine) (a : Action) : Option Machine :=
  if m.node.exit.isSome then none
  else do
    let stack ← m.threads[a.thread]?
    let (node, stack) ← m.stepThread stack a
    return { node, threads := m.threads.set a.thread stack }

/-- A node that nobody uses yet, and threads that are in client code. -/
def init (threads : ℕ) : Machine := { threads := List.replicate threads [] }

end Machine

end Mesh
