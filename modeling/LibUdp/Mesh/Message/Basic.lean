import LibUdp.Bytes.Buffer

/-!
# Mesh messages and their wire format

`serialize` and `deserialize` follow the two function objects of `mesh.cc` field by field, on a
little-endian host. `deserialize` walks the buffer with a running offset and checks nothing
itself: it is `none` when one of its accesses would leave the buffer.
-/

namespace Mesh

open Bytes

/-- The values of `enum class Message_type : uint8_t`. A cast from a byte without an enumerator
gives a value of the type all the same. -/
inductive MessageType where
  | none
  | discovery
  | discoveryResponse
  | peerList
  | data
  | heartbeat
  | other (byte : UInt8) (h : 5 < byte)
  deriving DecidableEq

def MessageType.toByte : MessageType → UInt8
  | .none              => 0
  | .discovery         => 1
  | .discoveryResponse => 2
  | .peerList          => 3
  | .data              => 4
  | .heartbeat         => 5
  | .other byte _      => byte

def MessageType.ofByte (byte : UInt8) : MessageType :=
  if h : 5 < byte then .other byte h
  else match byte.toNat with
    | 1 => .discovery
    | 2 => .discoveryResponse
    | 3 => .peerList
    | 4 => .data
    | 5 => .heartbeat
    | _ => .none

structure MessageHeader where
  type      : MessageType
  messageId : UInt64
  /-- the bytes of a `std::string` -/
  sourceId  : List UInt8
  ttl       : UInt16
  deriving DecidableEq

structure Message where
  header  : MessageHeader
  payload : Buffer
  deriving DecidableEq

/-- `Serialize::operator()`. -/
def serialize (message : Message) : Buffer :=
  let header := message.header
  let peerId := header.sourceId
  let idLengthBytes := UInt16.ofNat peerId.length
  let result : Buffer := [header.type.toByte]
  let result := result ++ toLE 8 header.messageId.toNat
  -- `insert(end, id_length_bytes, id_length_bytes + sizeof(id_length_bytes))` has arguments
  -- of two integer types, so it is the overload `insert(pos, count, value)`
  let result := result ++ List.replicate idLengthBytes.toNat (UInt8.ofNat (idLengthBytes.toNat + 2))
  let result := result ++ peerId
  let result := result ++ toLE 2 header.ttl.toNat
  result ++ message.payload

/-- `Deserialize::operator()`. -/
def deserialize (data : Buffer) : Option Message := do
  let type ← data[0]?
  let pos := 1
  let messageId ← load data pos 8
  let pos := pos + 8
  let idLength ← load data pos 2
  let pos := pos + 2
  let sourceId ← slice data pos (pos + idLength)
  let pos := pos + idLength
  let ttl ← load data pos 2
  let pos := pos + 2
  let payload ← slice data pos data.length
  return {
    header := {
      type := .ofByte type
      messageId := .ofNat messageId
      sourceId
      ttl := .ofNat ttl }
    payload }

/-- The length field of a buffer, the 16-bit value at offset 9. -/
def idLength (data : Buffer) : ℕ := ofLE ((data.drop 9).take 2)

lemma idLength_lt (data : Buffer) : idLength data < 65536 := by
  have h := ofLE_lt ((data.drop 9).take 2)
  have hlen : ((data.drop 9).take 2).length ≤ 2 := by simp
  have hpow : (256 : ℕ) ^ ((data.drop 9).take 2).length ≤ 256 ^ 2 :=
    Nat.pow_le_pow_right (by norm_num) hlen
  unfold idLength
  omega

/-- What `deserialize` reads: it stays in bounds when the buffer holds the fixed fields and the
announced source id, and the five fields are then the consecutive pieces of the buffer. -/
lemma deserialize_eq (data : Buffer) :
    deserialize data =
      if h : 11 ≤ data.length ∧ 13 + idLength data ≤ data.length then
        some {
          header := {
            type := .ofByte (data[0])
            messageId := .ofNat (ofLE ((data.drop 1).take 8))
            sourceId := (data.drop 11).take (idLength data)
            ttl := .ofNat (ofLE ((data.drop (11 + idLength data)).take 2)) }
          payload := data.drop (13 + idLength data) }
      else none := by
  by_cases h11 : 11 ≤ data.length
  · have h0 : data[0]? = some (data[0]) := List.getElem?_eq_getElem _
    have hid : load data 1 8 = some (ofLE ((data.drop 1).take 8)) := load_of_le (by omega)
    have hlen : load data 9 2 = some (idLength data) := load_of_le (by omega)
    by_cases hsrc : 11 + idLength data ≤ data.length
    · have hslice : slice data 11 (11 + idLength data) =
          some ((data.drop 11).take (idLength data)) := by
        rw [slice_of_le (by omega) hsrc, Nat.add_sub_cancel_left]
      by_cases hall : 13 + idLength data ≤ data.length
      · have httl : load data (11 + idLength data) 2 =
            some (ofLE ((data.drop (11 + idLength data)).take 2)) := load_of_le (by omega)
        have hpay : slice data (11 + idLength data + 2) data.length =
            some (data.drop (13 + idLength data)) := by
          rw [slice_of_le (by omega) le_rfl, List.take_of_length_le (by simp)]
          congr 2
          omega
        rw [dif_pos ⟨h11, hall⟩]
        simp [deserialize, h0, hid, hlen, hslice, httl, hpay]
      · have httl : load data (11 + idLength data) 2 = none := load_of_lt (by omega)
        rw [dif_neg (by omega)]
        simp [deserialize, h0, hid, hlen, hslice, httl]
    · have hslice : slice data 11 (11 + idLength data) = none := slice_of_lt (by omega)
      rw [dif_neg (by omega)]
      simp [deserialize, h0, hid, hlen, hslice]
  · rw [dif_neg (by omega)]
    by_cases h9 : 9 ≤ data.length
    · have hlen : load data 9 2 = none := load_of_lt (by omega)
      cases h0 : data[0]? <;> cases hid : load data 1 8 <;>
        simp [deserialize, h0, hid, hlen]
    · have hid : load data 1 8 = none := load_of_lt (by omega)
      cases h0 : data[0]? <;> simp [deserialize, h0, hid]

end Mesh
