import LibUdp.Coroutine.Basic
import LibUdp.Mesh.Node.Liveness

/-!
# Sending to one peer

`Node::send_to_peer` after a run of the node. How the send and the `resume` after it end is a
parameter.
-/

namespace Mesh

open Bytes Coroutine Execution Run

/-- The arguments of a call of `Socket::send_async`. -/
structure SendCall where
  address : Text
  port    : UInt16
  data    : Buffer
  n       : Int32
  deriving DecidableEq

/-- `Node::send_to_peer`, with the calls of `send_async` as its effects. -/
def sendToPeer (ends : SendCall → Outcome Text) (endpoint : Endpoint) (buffer : Buffer)
    (peers : PeerTable) : Execution SendCall Text :=
  match peers.lookup endpoint.toPeerId with
  | none      => done
  | some peer =>
    if peer.isActive then
      let call : SendCall :=
        ⟨peer.endpoint.address, peer.endpoint.port, buffer, .ofNat buffer.length⟩
      swallowing ⟨[call], ends call⟩
    else done

/-- An `add_peer` of the endpoint put in an entry that no pass has removed since. -/
def Present (ops : List Operation) (e : Endpoint) : Prop := ∃ time, AddedAt ops time e

variable {ops : List Operation} {node : Node} {e : Endpoint}

/-- After a run the table has an entry for the endpoint just when the endpoint is present. -/
lemma mem_peers_iff_present (h : exec Node.step {} ops = some node) :
    e.toPeerId ∈ node.peers ↔ Present ops e := by
  simp [Present, addedAt_iff h, Finmap.mem_iff]

/-- Different endpoints have different ids. After a run `send_to_peer` calls `send_async` just when
the endpoint is present, and then once, with its address and port. -/
theorem sendToPeer_iff_present :
    Function.Injective Endpoint.toPeerId ∧
      ∀ ops node, exec Node.step {} ops = some node → ∀ ends e buffer,
        ((sendToPeer ends e buffer node.peers).effects ≠ [] ↔ Present ops e) ∧
        ((sendToPeer ends e buffer node.peers).effects ≠ [] →
          (sendToPeer ends e buffer node.peers).effects =
            [⟨e.address, e.port, buffer, .ofNat buffer.length⟩]) := by
  refine ⟨Endpoint.toPeerId_injective, ?_⟩
  intro ops node hexec ends e buffer
  have hconsistent := Consistent.visits ⟨ops, List.prefix_rfl, hexec⟩
  rw [← mem_peers_iff_present hexec, ← Finmap.lookup_isSome]
  cases hpeer : node.peers.lookup e.toPeerId with
  | none => simp [sendToPeer, hpeer, done]
  | some peer =>
    obtain ⟨hactive, hid⟩ := hconsistent.entry hpeer
    obtain rfl : peer.endpoint = e := Endpoint.toPeerId_injective hid
    have hcall : (sendToPeer ends peer.endpoint buffer node.peers).effects =
        [⟨peer.endpoint.address, peer.endpoint.port, buffer, .ofNat buffer.length⟩] := by
      simp only [sendToPeer, hpeer, hactive, if_true]
      exact effects_swallowing _
    simp [hcall]

theorem sendToPeer_iff_present_added :
    ∃ node, exec Node.step {} [.addPeer 0 ⟨"127.0.0.1".toList, 8081⟩] = some node ∧
      ((sendToPeer (fun _ => .returned) ⟨"127.0.0.1".toList, 8081⟩ [72, 105] node.peers).effects
          ≠ [] ↔
        Present [.addPeer 0 ⟨"127.0.0.1".toList, 8081⟩] ⟨"127.0.0.1".toList, 8081⟩) ∧
      ((sendToPeer (fun _ => .returned) ⟨"127.0.0.1".toList, 8081⟩ [72, 105] node.peers).effects
          ≠ [] →
        (sendToPeer (fun _ => .returned) ⟨"127.0.0.1".toList, 8081⟩ [72, 105] node.peers).effects =
          [⟨"127.0.0.1".toList, 8081, [72, 105], 2⟩]) :=
  ⟨_, rfl, sendToPeer_iff_present.2 [.addPeer 0 ⟨"127.0.0.1".toList, 8081⟩] _ rfl
    (fun _ => .returned) ⟨"127.0.0.1".toList, 8081⟩ [72, 105]⟩

end Mesh
