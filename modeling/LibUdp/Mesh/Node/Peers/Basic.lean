import LibUdp.Mesh.Node.Receive
import LibUdp.Run.Basic
import Mathlib.Data.Finmap

/-!
# The peer table

`Node::add_peer` and a pass of `Node::health_check_loop`, each as the table it leaves and the
events it dispatches while it holds the lock of the table. Handlers do not call back into the node.
-/

namespace Mesh

open Bytes

/-- `Node::m_peers`. -/
abbrev PeerTable := Finmap fun _ : Text => Peer

/-- The table after an operation and the events the operation dispatched, in order. -/
abbrev Update := PeerTable × List Event

/-- `Node::add_peer` at the time `now`. -/
def addPeer (now : Time) (endpoint : Endpoint) (peers : PeerTable) : Update :=
  let peerId := endpoint.toPeerId
  if peerId ∈ peers then (peers, [])
  else
    let peer : Peer := { isActive := true, endpoint, lastSeen := now }
    (peers.insert peerId peer, [.peerConnected endpoint])

/-- `now - m_last_seen > std::chrono::seconds(30)`. -/
def Peer.isExpired (now : Time) (peer : Peer) : Bool := seconds 30 < now - peer.lastSeen

/-- One iteration of the loop over the table, at the entry of `id`. -/
def checkPeer (now : Time) (id : Text) (peers : PeerTable) : Update :=
  match peers.lookup id with
  | none      => (peers, [])
  | some peer =>
    if peer.isExpired now then
      let (peers, events) :=
        if peer.isActive then
          (peers.insert id { peer with isActive := false }, [Event.peerDisconnected id])
        else (peers, [])
      (peers.erase id, events)
    else (peers, [])

/-- The loop over the table, whose entries the iterator goes through in the given order. -/
def checkPeers (now : Time) : List Text → PeerTable → Update
  | [], peers          => (peers, [])
  | id :: order, peers =>
    let (peers, events) := checkPeer now id peers
    let (peers, events') := checkPeers now order peers
    (peers, events ++ events')

/-- An order in which an iterator can go through the table. -/
def IsOrder (order : List Text) (peers : PeerTable) : Prop :=
  order.Nodup ∧ ∀ id, id ∈ order ↔ id ∈ peers

instance (order : List Text) (peers : PeerTable) : Decidable (IsOrder order peers) :=
  decidable_of_iff (order.Nodup ∧ order.toFinset = peers.keys) (by
    simp [IsOrder, Finset.ext_iff, Finmap.mem_keys])

/-! ### The three functions on an entry -/

variable {now : Time} {id : Text} {peers : PeerTable}

lemma addPeer_of_mem {endpoint : Endpoint} (h : endpoint.toPeerId ∈ peers) :
    addPeer now endpoint peers = (peers, []) := if_pos h

lemma addPeer_of_not_mem {endpoint : Endpoint} (h : endpoint.toPeerId ∉ peers) :
    addPeer now endpoint peers =
      (peers.insert endpoint.toPeerId { isActive := true, endpoint, lastSeen := now },
        [.peerConnected endpoint]) := if_neg h

lemma lookup_checkPeer_of_ne {id' : Text} (h : id' ≠ id) :
    (checkPeer now id peers).1.lookup id' = peers.lookup id' := by
  rw [checkPeer]
  cases peers.lookup id with
  | none => rfl
  | some peer =>
    dsimp only
    split_ifs
    · simp [Finmap.lookup_erase_ne h, Finmap.lookup_insert_of_ne _ h]
    · simp [Finmap.lookup_erase_ne h]
    · rfl

lemma lookup_checkPeer_self (now : Time) (id : Text) (peers : PeerTable) :
    (checkPeer now id peers).1.lookup id =
      (peers.lookup id).filter fun peer => !peer.isExpired now := by
  rw [checkPeer]
  cases h : peers.lookup id with
  | none => exact h
  | some peer =>
    dsimp only
    split_ifs with hexpired hactive
    · simp [Option.filter, hexpired]
    · simp [Option.filter, hexpired]
    · simpa [Option.filter, hexpired] using h

/-- The entry is one for which a pass dispatches `Peer_disconnected`. -/
def Disconnects (now : Time) (peers : PeerTable) (id : Text) : Prop :=
  ∃ peer, peers.lookup id = some peer ∧ peer.isExpired now ∧ peer.isActive

instance (now : Time) (peers : PeerTable) : DecidablePred (Disconnects now peers) := fun id =>
  decidable_of_iff (∃ peer ∈ peers.lookup id, peer.isExpired now ∧ peer.isActive)
    (by simp [Disconnects])

lemma events_checkPeer (now : Time) (id : Text) (peers : PeerTable) :
    (checkPeer now id peers).2 =
      if Disconnects now peers id then [.peerDisconnected id] else [] := by
  rw [checkPeer]
  cases h : peers.lookup id with
  | none => simp [Disconnects, h]
  | some peer =>
    dsimp only
    split_ifs with hexpired hactive <;> simp_all [Disconnects]

/-! ### Runs -/

/-- The table of a node with the history of the run. -/
structure Node where
  peers     : PeerTable := ∅
  /-- the buffer of `receive_loop` -/
  buffer    : Buffer := List.replicate maxPacket 0
  /-- the time of the last operation -/
  clock     : Time := 0
  /-- the events dispatched so far -/
  events    : List Event := []
  /-- the datagrams received so far, with their time and source -/
  datagrams : List (Time × Endpoint) := []

/-- An operation on the node, with the time it takes place at. -/
inductive Operation where
  | addPeer (now : Time) (endpoint : Endpoint)
  /-- an iteration of `receive_loop` that gets a datagram -/
  | receive (now : Time) (d : Datagram)
  /-- a pass of `health_check_loop` -/
  | healthCheck (now : Time) (order : List Text)

def Operation.time : Operation → Time
  | .addPeer now _ | .receive now _ | .healthCheck now _ => now

namespace Node

/-- The node after an update of its table. -/
def update (node : Node) (now : Time) (update : Update) : Node :=
  { node with peers := update.1, clock := now, events := node.events ++ update.2 }

/-- What an operation does. Time does not go back, and a pass goes through the whole table. -/
def step (node : Node) (op : Operation) : Option Node :=
  if node.clock ≤ op.time then
    match op with
    | .addPeer now endpoint => some (node.update now (Mesh.addPeer now endpoint node.peers))
    | .receive now d =>
      let buffer := (Reception.datagram d).write node.buffer
      some { node with
        buffer
        clock     := now
        events    := node.events ++ [.messageReceived buffer []]
        datagrams := node.datagrams ++ [(now, d.source)] }
    | .healthCheck now order =>
      if IsOrder order node.peers then
        some (node.update now (checkPeers now order node.peers))
      else none
  else none

/-- The steps, by the operation that makes them. -/
inductive Steps (node : Node) : Operation → Node → Prop
  | addPeer {now : Time} (endpoint : Endpoint) (hclock : node.clock ≤ now) :
      Steps node (.addPeer now endpoint) (node.update now (Mesh.addPeer now endpoint node.peers))
  | receive {now : Time} (d : Datagram) (hclock : node.clock ≤ now) :
      Steps node (.receive now d) { node with
        buffer    := (Reception.datagram d).write node.buffer
        clock     := now
        events    := node.events ++ [.messageReceived ((Reception.datagram d).write node.buffer) []]
        datagrams := node.datagrams ++ [(now, d.source)] }
  | healthCheck {now : Time} {order : List Text} (hclock : node.clock ≤ now)
      (horder : IsOrder order node.peers) :
      Steps node (.healthCheck now order) (node.update now (checkPeers now order node.peers))

lemma steps_of_step {node node' : Node} {op : Operation} (h : node.step op = some node') :
    node.Steps op node' := by
  simp only [step, Option.ite_none_right_eq_some] at h
  obtain ⟨hclock, h⟩ := h
  cases op with
  | addPeer now endpoint =>
    cases h
    exact .addPeer endpoint hclock
  | receive now d =>
    cases h
    exact .receive d hclock
  | healthCheck now order =>
    rw [Option.ite_none_right_eq_some] at h
    obtain ⟨horder, h⟩ := h
    cases h
    exact .healthCheck hclock horder

end Node

end Mesh
