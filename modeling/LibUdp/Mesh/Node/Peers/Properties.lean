import LibUdp.Mesh.Node.Peers.Basic
import Mathlib.Data.List.Chain

/-!
# The peer table and the membership events
-/

namespace Mesh

open Bytes Run

variable {now : Time} {id : Text} {peers : PeerTable} {order : List Text}

/-! ### A whole pass -/

lemma lookup_checkPeers (now : Time) (order : List Text) (peers : PeerTable) (id : Text) :
    (checkPeers now order peers).1.lookup id =
      if id ∈ order then (peers.lookup id).filter fun peer => !peer.isExpired now
      else peers.lookup id := by
  induction order generalizing peers with
  | nil => rfl
  | cons id' order ih =>
    simp only [checkPeers, ih]
    by_cases heq : id = id'
    · subst heq
      rw [lookup_checkPeer_self]
      simp [Option.filter_filter]
    · simp [lookup_checkPeer_of_ne heq, heq]

/-- A pass dispatches the disconnections of the table it starts with: the entries that it meets
later are still as they were. -/
lemma events_checkPeers (hnodup : order.Nodup) :
    (checkPeers now order peers).2 =
      (order.filter fun id => Disconnects now peers id).map Event.peerDisconnected := by
  induction order generalizing peers with
  | nil => rfl
  | cons id order ih =>
    obtain ⟨hid, hnodup⟩ := List.nodup_cons.mp hnodup
    have hrest : ∀ id' ∈ order,
        decide (Disconnects now (checkPeer now id peers).1 id') =
          decide (Disconnects now peers id') := by
      intro id' hid'
      have hne : id' ≠ id := by
        rintro rfl
        exact hid hid'
      rw [decide_eq_decide, Disconnects, Disconnects, lookup_checkPeer_of_ne hne]
    simp only [checkPeers, ih hnodup, events_checkPeer, List.filter_congr hrest, List.filter_cons]
    split_ifs with h <;> simp_all

/-! ### Membership histories -/

/-- A history starts with a connection, and connections and disconnections take turns. -/
def Alternating (history : List Bool) : Prop :=
  history.head? ≠ some false ∧ history.IsChain (· ≠ ·)

/-- The history alternates and its last entry tells whether the peer is present. -/
def Tracks (history : List Bool) (present : Prop) : Prop :=
  Alternating history ∧ (present ↔ history.getLast? = some true)

lemma Tracks.concat {history : List Bool} {present : Prop} (h : Tracks history present)
    {b : Bool} (hb : b = true ↔ ¬ present) : Tracks (history ++ [b]) (b = true) := by
  obtain ⟨⟨hhead, hchain⟩, hlast⟩ := h
  rw [hlast] at hb
  refine ⟨⟨?_, hchain.append (List.isChain_singleton b) ?_⟩, by simp⟩
  · cases history with
    | nil => simp [hb.mpr]
    | cons c history => simpa using hhead
  · intro c hc b' hb'
    obtain rfl : b = b' := by simpa using hb'
    rw [Option.mem_def.mp hc, Option.some.injEq] at hb
    rintro rfl
    cases c <;> simp at hb

/-- What an event says about the peer `id`: that it connected, that it disconnected, or nothing. -/
def Event.membership (id : Text) : Event → Option Bool
  | .peerConnected endpoint => if endpoint.toPeerId = id then some true else none
  | .peerDisconnected id'   => if id' = id then some false else none
  | _ => none

/-- The connections and disconnections of the peer `id` among the events. -/
def history (id : Text) (events : List Event) : List Bool :=
  events.filterMap (Event.membership id)

lemma history_append (id : Text) (events events' : List Event) :
    history id (events ++ events') = history id events ++ history id events' :=
  List.filterMap_append

lemma history_disconnected (hnodup : order.Nodup) (p : Text → Bool) (id : Text) :
    history id ((order.filter p).map Event.peerDisconnected) =
      if id ∈ order ∧ p id then [false] else [] := by
  induction order with
  | nil => rfl
  | cons id' order ih =>
    obtain ⟨hid, hnodup⟩ := List.nodup_cons.mp hnodup
    have hrest := ih hnodup
    by_cases heq : id' = id
    · subst heq
      cases hp : p id' <;> simp_all [history, Event.membership]
    · have hne : id ≠ id' := Ne.symm heq
      cases hp : p id' <;> simp_all [history, Event.membership]

lemma Tracks.congr {history : List Bool} {p q : Prop} (h : Tracks history p) (hpq : p ↔ q) :
    Tracks history q := ⟨h.1, hpq.symm.trans h.2⟩

/-! ### Runs -/

/-- The table and the events dispatched so far agree. -/
structure Consistent (node : Node) : Prop where
  entry : ∀ {id peer}, node.peers.lookup id = some peer →
    peer.isActive = true ∧ peer.endpoint.toPeerId = id
  tracks : ∀ id, Tracks (history id node.events) (id ∈ node.peers)

/-- What a pass at the time `now` does: it removes the entries that have expired and dispatches
one `Peer_disconnected` for each. -/
structure Passes (now : Time) (node node' : Node) : Prop where
  lookup_peers : ∀ id, node'.peers.lookup id =
    (node.peers.lookup id).filter fun peer => !peer.isExpired now
  events : ∃ events, node'.events = node.events ++ events ∧ events.Nodup ∧
    ∀ event, event ∈ events ↔ ∃ id peer, node.peers.lookup id = some peer ∧
      peer.isExpired now ∧ event = .peerDisconnected id

namespace Consistent

variable {node node' : Node}

lemma init : Consistent {} where
  entry h := by simp at h
  tracks id := by simp [history, Tracks, Alternating, Finmap.notMem_empty]

lemma addPeer (h : Consistent node) (now : Time) (endpoint : Endpoint) :
    Consistent (node.update now (Mesh.addPeer now endpoint node.peers)) := by
  by_cases hmem : endpoint.toPeerId ∈ node.peers
  · rw [addPeer_of_mem hmem]
    refine ⟨h.entry, ?_⟩
    intro id
    simpa [Node.update] using h.tracks id
  · rw [addPeer_of_not_mem hmem]
    constructor
    · intro id peer hpeer
      by_cases hid : id = endpoint.toPeerId
      · subst hid
        simp only [Node.update, Finmap.lookup_insert, Option.some.injEq] at hpeer
        subst hpeer
        exact ⟨rfl, rfl⟩
      · simp only [Node.update, Finmap.lookup_insert_of_ne _ hid] at hpeer
        exact h.entry hpeer
    · intro id
      have htracks := h.tracks id
      rw [Node.update, history_append]
      by_cases hid : endpoint.toPeerId = id
      · subst hid
        have hconnected : history endpoint.toPeerId [.peerConnected endpoint] = [true] := by
          simp [history, Event.membership]
        rw [hconnected]
        exact (htracks.concat (iff_of_true rfl hmem)).congr (by simp)
      · have hnone : history id [.peerConnected endpoint] = [] := by
          simp [history, Event.membership, hid]
        rw [hnone, List.append_nil]
        exact htracks.congr (by simp [Finmap.mem_insert, Ne.symm hid])

/-- All entries are active, so a pass disconnects those that have expired. -/
lemma disconnects_iff (h : Consistent node) (now : Time) (id : Text) :
    Disconnects now node.peers id ↔
      ∃ peer, node.peers.lookup id = some peer ∧ peer.isExpired now := by
  constructor
  · rintro ⟨peer, hpeer, hexpired, -⟩
    exact ⟨peer, hpeer, hexpired⟩
  · rintro ⟨peer, hpeer, hexpired⟩
    exact ⟨peer, hpeer, hexpired, (h.entry hpeer).1⟩

lemma passes (h : Consistent node) (horder : IsOrder order node.peers) (now : Time) :
    Passes now node (node.update now (checkPeers now order node.peers)) := by
  constructor
  · intro id
    rw [Node.update, lookup_checkPeers]
    split_ifs with hid
    · rfl
    · have hnone := Finmap.lookup_eq_none.mpr fun hmem => hid ((horder.2 id).mpr hmem)
      rw [hnone, Option.filter_none]
  · refine ⟨_, rfl, ?_, ?_⟩
    · rw [events_checkPeers horder.1]
      refine List.Nodup.map ?_ (horder.1.filter _)
      intro id id' hid
      exact Event.peerDisconnected.inj hid
    · intro event
      rw [events_checkPeers horder.1]
      simp only [List.mem_map, List.mem_filter, decide_eq_true_eq, h.disconnects_iff]
      constructor
      · rintro ⟨id, ⟨-, peer, hpeer, hexpired⟩, rfl⟩
        exact ⟨id, peer, hpeer, hexpired, rfl⟩
      · rintro ⟨id, peer, hpeer, hexpired, rfl⟩
        exact ⟨id, ⟨(horder.2 id).mpr (Finmap.mem_of_lookup_eq_some hpeer), peer, hpeer,
          hexpired⟩, rfl⟩

lemma healthCheck (h : Consistent node) (horder : IsOrder order node.peers) (now : Time) :
    Consistent (node.update now (checkPeers now order node.peers)) := by
  have hlookup := (h.passes horder now).lookup_peers
  have hmem : ∀ id, id ∈ (node.update now (checkPeers now order node.peers)).peers ↔
      id ∈ node.peers ∧ ¬ Disconnects now node.peers id := by
    intro id
    rw [← Finmap.lookup_isSome, hlookup, h.disconnects_iff, ← Finmap.lookup_isSome]
    cases node.peers.lookup id with
    | none => simp
    | some peer => cases hexpired : peer.isExpired now <;> simp [Option.filter, hexpired]
  constructor
  · intro id peer hpeer
    rw [hlookup, Option.filter_eq_some_iff] at hpeer
    exact h.entry hpeer.1
  · intro id
    have htracks := h.tracks id
    rw [Node.update, history_append, events_checkPeers horder.1,
      history_disconnected horder.1]
    by_cases hdisc : Disconnects now node.peers id
    · have hpresent : id ∈ node.peers := by
        obtain ⟨peer, hpeer, -⟩ := hdisc
        exact Finmap.mem_of_lookup_eq_some hpeer
      rw [if_pos ⟨(horder.2 id).mpr hpresent, by simpa using hdisc⟩]
      have hconcat := htracks.concat (b := false) (by simpa using hpresent)
      refine hconcat.congr (iff_of_false (by simp) ?_)
      intro hnew
      exact ((hmem id).mp hnew).2 hdisc
    · rw [if_neg (by simp [hdisc]), List.append_nil]
      refine htracks.congr ?_
      exact ((hmem id).trans (and_iff_left hdisc)).symm

/-- Every operation keeps the table and the events in agreement. -/
lemma step (h : Consistent node) {op : Operation} (hstep : node.step op = some node') :
    Consistent node' := by
  cases Node.steps_of_step hstep with
  | addPeer endpoint _ => exact h.addPeer _ endpoint
  | receive d _ =>
    refine ⟨h.entry, fun id => ?_⟩
    have hnone :
        history id [.messageReceived ((Reception.datagram d).write node.buffer) []] = [] := rfl
    rw [history_append, hnone, List.append_nil]
    exact h.tracks id
  | healthCheck _ horder => exact h.healthCheck horder _

lemma visits {ops : List Operation} (h : Visits Node.step {} ops node) : Consistent node :=
  h.invariant (fun _ _ _ hnode hstep => hnode.step hstep) init

lemma passes_of_takes {ops : List Operation}
    (htakes : Takes Node.step {} ops node (.healthCheck now order))
    (hstep : node.step (.healthCheck now order) = some node') : Passes now node node' := by
  cases Node.steps_of_step hstep with
  | healthCheck _ horder => exact (visits htakes.visits_source).passes horder now

end Consistent

/-- In every run the table and the membership events agree in each state, and each pass removes
exactly the expired entries with one event for each. -/
theorem peers_and_events_agree (ops : List Operation) :
    (∀ node, Visits Node.step {} ops node →
      (∀ id, Alternating (history id node.events) ∧
        (id ∈ node.peers ↔ (history id node.events).getLast? = some true)) ∧
      ∀ id peer, node.peers.lookup id = some peer →
        peer.isActive = true ∧ peer.endpoint.toPeerId = id) ∧
    ∀ node now order node', Takes Node.step {} ops node (.healthCheck now order) →
      node.step (.healthCheck now order) = some node' → Passes now node node' := by
  constructor
  · intro node hvisits
    have h := Consistent.visits hvisits
    exact ⟨h.tracks, fun _ _ => h.entry⟩
  · intro node now order node' htakes hstep
    exact Consistent.passes_of_takes htakes hstep

end Mesh
