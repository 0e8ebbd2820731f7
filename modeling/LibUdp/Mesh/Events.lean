import LibUdp.Bytes.Buffer
import LibUdp.Mesh.Peer

/-!
# Events
-/

namespace Mesh

open Bytes

/-- The events a node dispatches, with their fields. -/
inductive Event where
  | peerConnected (endpoint : Endpoint)
  | peerDisconnected (peerId : Text)
  | messageReceived (data : Buffer) (fromPeer : Text)
  | networkStateChanged (isHealthy : Bool) (status : Text)
  | sleepFor (duration : Time)
  deriving DecidableEq

/-- `Event::get_type`. -/
def Event.getType : Event → Text
  | .peerConnected _         => "Peer_connected".toList
  | .peerDisconnected _      => "Peer_disconnected".toList
  | .messageReceived _ _     => "Message_received".toList
  | .networkStateChanged _ _ => "Network_state_changed".toList
  | .sleepFor _              => "Sleep_for".toList

end Mesh
