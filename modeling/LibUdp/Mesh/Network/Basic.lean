import LibUdp.Mesh.Node.Broadcast
import LibUdp.Mesh.Node.Sending

/-!
# Nodes in a network

Any number of nodes, and the datagrams under way between their sockets. A step is an operation of
one node on its table, a call that sends, an iteration of its `receive_loop`, or something the
network does, which may lose, repeat and reorder datagrams. The loops run in threads of their own,
so that the steps of the nodes, and of the loops of one node, come in any order.
-/

namespace Mesh

open Bytes Coroutine

variable {ι A : Type}

/-- What goes out for a send: the bytes that `iov_len` counts. -/
def Send.wire (s : Send A) : Buffer := s.data.take s.length

lemma Send.length_wire_le {s : Send A} {n : ℕ} (h : s.length ≤ n) : s.wire.length ≤ n :=
  (List.length_take_le _ _).trans h

/-- The sends that a piece of code submits. -/
def sends (e : Execution (Effect A) Text) : List (Send A) :=
  e.effects.filterMap fun
    | .send s     => some s
    | .dispatch _ => none

/-- `Node::send_to_peer`, down to the sends that are submitted. -/
def submitToPeer (inetPton : Text → Option A) (ring : Send A → Handling) (endpoint : Endpoint)
    (buffer : Buffer) (peers : PeerTable) : Execution (Effect A) Text :=
  let execute (call : SendCall) :=
    sendAsync inetPton ring call.address call.port call.data call.n
  let e := sendToPeer (fun call => (execute call).outcome) endpoint buffer peers
  ⟨e.effects.flatMap fun call => (execute call).effects, e.outcome⟩

structure Network (ι A : Type) where
  nodes    : ι → Node := fun _ => {}
  /-- the nodes whose process is gone -/
  exited   : ι → Bool := fun _ => false
  inFlight : List (Send A) := []

namespace Network

inductive Action (ι A : Type) where
  | addPeer (i : ι) (now : Time) (endpoint : Endpoint)
  | healthCheck (i : ι) (now : Time) (order : List Text)
  /-- `ring` is what becomes of each send that the call submits -/
  | sendToPeer (i : ι) (ring : Send A → Handling) (endpoint : Endpoint) (buffer : Buffer)
  /-- a call of `broadcast`, of a client of the node or in `discovery_loop` -/
  | broadcast (i : ι) (ring : Send A → Handling) (order : List Text) (buffer : Buffer)
  | receive (i : ι) (now : Time) (source : Endpoint) (s : Send A)
  /-- a receive that completes with an error -/
  | receiveError (i : ι) (res : Int32) (h : res < 0)
  /-- The process ends for some other reason. -/
  | exit (i : ι)
  | lose (s : Send A)
  | duplicate (s : Send A)

variable [DecidableEq ι] [DecidableEq A]

/-- An operation of a node on its table. -/
def operate (net : Network ι A) (i : ι) (op : Operation) : Option (Network ι A) :=
  if net.exited i then none
  else (net.nodes i |>.step op).map fun node =>
    { net with nodes := Function.update net.nodes i node }

/-- A call of a node that sends. -/
def transmit (net : Network ι A) (i : ι) (e : Execution (Effect A) Text) : Network ι A :=
  { net with
    exited   := Function.update net.exited i (e.outcome = .terminated)
    inFlight := net.inFlight ++ sends e }

/-- `isBound i ip port` tells whether a datagram to this address and port can reach the socket of
the node `i`, and `asserts` whether the assertions are compiled in. -/
def step (asserts : Bool) (inetPton : Text → Option A) (isBound : ι → A → UInt16 → Bool)
    (net : Network ι A) : Action ι A → Option (Network ι A)
  | .addPeer i now endpoint => net.operate i (.addPeer now endpoint)
  | .healthCheck i now order => net.operate i (.healthCheck now order)
  | .sendToPeer i ring endpoint buffer =>
    if net.exited i then none
    else some (net.transmit i (submitToPeer inetPton ring endpoint buffer (net.nodes i).peers))
  | .broadcast i ring order buffer =>
    if net.exited i = false ∧ IsOrder order (net.nodes i).peers then
      some (net.transmit i (Mesh.broadcast inetPton ring buffer order (net.nodes i).peers))
    else none
  | .receive i now source s =>
    -- the network takes no datagram that is longer than a packet
    if h : s.length ≤ maxPacket ∧ s ∈ net.inFlight ∧ isBound i s.address s.port then
      operate { net with inFlight := net.inFlight.erase s } i
        (.receive now ⟨source, s.wire, s.length_wire_le h.1⟩)
    else none
  | .receiveError i res h =>
    if net.exited i then none
    else if (Reception.error res h).aborts asserts then
      some { net with exited := Function.update net.exited i true }
    else
      let node := net.nodes i
      some { net with
        nodes := Function.update net.nodes i
          { node with events := node.events ++ [.messageReceived node.buffer []] } }
  | .exit i =>
    if net.exited i then none
    else some { net with exited := Function.update net.exited i true }
  | .lose s =>
    if s ∈ net.inFlight then some { net with inFlight := net.inFlight.erase s } else none
  | .duplicate s =>
    if s ∈ net.inFlight then some { net with inFlight := s :: net.inFlight } else none

/-! ### The steps -/

/-- The operation on its own table that the node `i` makes. -/
def Action.ownCall (i : ι) : Action ι A → Option Operation
  | .addPeer i' now endpoint  => if i' = i then some (.addPeer now endpoint) else none
  | .healthCheck i' now order => if i' = i then some (.healthCheck now order) else none
  | _                         => none

/-- The datagram that the node `i` receives. -/
def Action.receipt (i : ι) : Action ι A → Option (Send A)
  | .receive i' _ _ s => if i' = i then some s else none
  | _                 => none

/-- What the node `i` does in a call that sends the buffer. -/
inductive Sending (inetPton : Text → Option A) (net : Network ι A) :
    Action ι A → ι → Buffer → Execution (Effect A) Text → Prop
  | sendToPeer (i : ι) (ring : Send A → Handling) (endpoint : Endpoint) (buffer : Buffer) :
      Sending inetPton net (.sendToPeer i ring endpoint buffer) i buffer
        (submitToPeer inetPton ring endpoint buffer (net.nodes i).peers)
  | broadcast (i : ι) (ring : Send A → Handling) (order : List Text) (buffer : Buffer) :
      Sending inetPton net (.broadcast i ring order buffer) i buffer
        (Mesh.broadcast inetPton ring buffer order (net.nodes i).peers)

/-- The steps, by what they do to the nodes and to the datagrams under way. -/
inductive Steps (inetPton : Text → Option A) (isBound : ι → A → UInt16 → Bool)
    (net : Network ι A) : Action ι A → Network ι A → Prop
  | operate {a : Action ι A} {i : ι} {op : Operation} {node : Node}
      (hcall : ∀ j, a.ownCall j = if i = j then some op else none)
      (hstep : (net.nodes i).step op = some node) :
      Steps inetPton isBound net a { net with nodes := Function.update net.nodes i node }
  | transmit {a : Action ι A} {i : ι} {buffer : Buffer} {e : Execution (Effect A) Text}
      (h : Sending inetPton net a i buffer e) : Steps inetPton isBound net a (net.transmit i e)
  | receive {i : ι} {now : Time} {source : Endpoint} {s : Send A} {node : Node}
      (h : s.length ≤ maxPacket) (hmem : s ∈ net.inFlight) (hbound : isBound i s.address s.port)
      (hstep : (net.nodes i).step (.receive now ⟨source, s.wire, s.length_wire_le h⟩) = some node) :
      Steps inetPton isBound net (.receive i now source s)
        { net with
          nodes    := Function.update net.nodes i node
          inFlight := net.inFlight.erase s }
  | receiveError (i : ι) (res : Int32) (h : res < 0) :
      Steps inetPton isBound net (.receiveError i res h)
        { net with
          nodes := Function.update net.nodes i
            { net.nodes i with
              events := (net.nodes i).events ++ [.messageReceived (net.nodes i).buffer []] } }
  /-- the process of a node ends, or the network acts -/
  | other {a : Action ι A} {net' : Network ι A} (hcall : ∀ j, a.ownCall j = none)
      (hreceipt : ∀ j, a.receipt j = none) (hnodes : net'.nodes = net.nodes)
      (hflight : net'.inFlight ⊆ net.inFlight) :
      Steps inetPton isBound net a net'

variable {asserts : Bool} {inetPton : Text → Option A} {isBound : ι → A → UInt16 → Bool}
  {net net' : Network ι A} {a : Action ι A}

omit [DecidableEq A] in
lemma operate_eq_some_iff {i : ι} {op : Operation} : net.operate i op = some net' ↔
    net.exited i = false ∧ ∃ node, (net.nodes i).step op = some node ∧
      { net with nodes := Function.update net.nodes i node } = net' := by
  rw [operate]
  cases net.exited i <;> simp

lemma steps_of_step (h : net.step asserts inetPton isBound a = some net') :
    net.Steps inetPton isBound a net' := by
  cases a with
  | addPeer i now endpoint =>
    obtain ⟨-, node, hstep, rfl⟩ := operate_eq_some_iff.mp h
    exact .operate (fun _ => rfl) hstep
  | healthCheck i now order =>
    obtain ⟨-, node, hstep, rfl⟩ := operate_eq_some_iff.mp h
    exact .operate (fun _ => rfl) hstep
  | sendToPeer i ring endpoint buffer =>
    rw [step] at h
    split_ifs at h
    cases h
    exact .transmit (.sendToPeer i ring endpoint buffer)
  | broadcast i ring order buffer =>
    rw [step] at h
    split_ifs at h
    cases h
    exact .transmit (.broadcast i ring order buffer)
  | receive i now source s =>
    rw [step] at h
    split_ifs at h with hs
    obtain ⟨hlength, hmem, hbound⟩ := hs
    obtain ⟨-, node, hstep, rfl⟩ := operate_eq_some_iff.mp h
    exact .receive hlength hmem hbound hstep
  | receiveError i res hres =>
    rw [step] at h
    split_ifs at h
    · cases h
      exact .other (fun _ => rfl) (fun _ => rfl) rfl (List.Subset.refl _)
    · cases h
      exact .receiveError i res hres
  | exit i =>
    rw [step] at h
    split_ifs at h
    cases h
    exact .other (fun _ => rfl) (fun _ => rfl) rfl (List.Subset.refl _)
  | lose s =>
    rw [step] at h
    split_ifs at h
    cases h
    exact .other (fun _ => rfl) (fun _ => rfl) rfl List.erase_subset
  | duplicate s =>
    rw [step] at h
    split_ifs at h with hs
    cases h
    exact .other (fun _ => rfl) (fun _ => rfl) rfl (List.cons_subset.mpr ⟨hs, List.Subset.refl _⟩)

end Network

end Mesh
