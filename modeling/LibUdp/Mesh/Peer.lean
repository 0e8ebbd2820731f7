import LibUdp.Text.Join
import LibUdp.Text.Printing
import Mathlib.Data.UInt

/-!
# Endpoints and peers
-/

namespace Mesh

/-- A `steady_clock` time point or duration, in nanoseconds. -/
abbrev Time := ℤ

def seconds (n : ℤ) : Time := n * 1000000000

structure Endpoint where
  address : Text := []
  port    : UInt16 := 0
  deriving DecidableEq

namespace Endpoint

/-- `Endpoint::to_peer_id`. -/
def toPeerId (e : Endpoint) : Text := e.address ++ ":".toList ++ Text.decimal e.port.toNat

/-- `Endpoint::from_peer_id`. The number is cut down to 16 bits. -/
def fromPeerId (peerId : Text) : Endpoint :=
  if ':' ∈ peerId then
    let numberPart := Text.after ':' peerId
    match Text.stoi numberPart with
    | .ok (number, _) => ⟨Text.before ':' peerId, .ofInt number.toInt⟩
    | .error _        => ⟨[], 0⟩
  else ⟨[], 0⟩

lemma toPeerId_eq (e : Endpoint) :
    e.toPeerId = e.address ++ ':' :: Text.decimal e.port.toNat :=
  List.append_assoc e.address [':'] _

/-- The last colon tells the address from the port, whatever the address is. -/
lemma toPeerId_injective : Function.Injective toPeerId := by
  have hcolon : ∀ n : ℕ, ':' ∉ Text.decimal n := by
    intro n h
    cases Text.isDigit_of_mem_decimal h
  intro e e' h
  rw [toPeerId_eq, toPeerId_eq] at h
  obtain ⟨haddress, hport⟩ := Text.append_sep_inj (hcolon _) (hcolon _) h
  have hport' := UInt16.toNat_inj.mp (Text.decimal_injective hport)
  cases e
  cases e'
  cases haddress
  cases hport'
  rfl

end Endpoint

/-- `Peer`, without the round trip time, which nothing reads. -/
structure Peer where
  isActive : Bool := false
  endpoint : Endpoint := {}
  lastSeen : Time := 0
  deriving DecidableEq

end Mesh
