import LibUdp.Mesh.Message.Basic
import Mathlib.Tactic.IntervalCases

/-!
# What the decoder reads

The buffers on which `deserialize` stays in bounds, and which bytes become which field.
-/

namespace Mesh

open Bytes

/-- The buffer holds the fixed fields, the announced source id and the two bytes after it. -/
def HoldsMessage (data : Buffer) : Prop := 11 ≤ data.length ∧ 13 + idLength data ≤ data.length

instance (data : Buffer) : Decidable (HoldsMessage data) :=
  inferInstanceAs (Decidable (11 ≤ data.length ∧ 13 + idLength data ≤ data.length))

/-- The message has its fields from the places in the buffer where they belong, and the fields are,
with the length of the source id, all the buffer consists of. -/
structure ReadFrom (data : Buffer) (m : Message) : Prop where
  type      : data[0]? = some m.header.type.toByte
  messageId : m.header.messageId.toNat = ofLE ((data.drop 1).take 8)
  sourceId  : m.header.sourceId = (data.drop 11).take (idLength data)
  ttl       : m.header.ttl.toNat = ofLE ((data.drop (11 + idLength data)).take 2)
  payload   : m.payload = data.drop (13 + idLength data)
  partition : data = [m.header.type.toByte] ++ toLE 8 m.header.messageId.toNat ++
    toLE 2 (idLength data) ++ m.header.sourceId ++ toLE 2 m.header.ttl.toNat ++ m.payload

lemma MessageType.toByte_ofByte (byte : UInt8) : (MessageType.ofByte byte).toByte = byte := by
  rw [ofByte]
  split_ifs with h
  · rfl
  · have hlt : byte.toNat < 6 := by
      rw [UInt8.lt_iff_toNat_lt] at h
      exact Nat.lt_succ_of_le (not_lt.mp h)
    apply UInt8.toNat_inj.mp
    generalize byte.toNat = n at hlt
    interval_cases n <;> rfl

/-- The bytes of a field are the little-endian form of what it is read as. -/
lemma toLE_ofLE_take {data : Buffer} {pos w : ℕ} (h : pos + w ≤ data.length) :
    toLE w (ofLE ((data.drop pos).take w)) = (data.drop pos).take w := by
  have hlen : ((data.drop pos).take w).length = w := by
    rw [List.length_take, List.length_drop]
    omega
  have hbytes := toLE_ofLE ((data.drop pos).take w)
  rwa [hlen] at hbytes

lemma ofLE_take_lt (data : Buffer) (pos w : ℕ) : ofLE ((data.drop pos).take w) < 256 ^ w :=
  (ofLE_lt _).trans_le (Nat.pow_le_pow_right (by norm_num) (List.length_take_le _ _))

/-- A buffer is cut into consecutive pieces. -/
lemma append_pieces (data : Buffer) :
    data = (data.drop 0).take 1 ++ (data.drop 1).take 8 ++ (data.drop 9).take 2 ++
      (data.drop 11).take (idLength data) ++ (data.drop (11 + idLength data)).take 2 ++
      data.drop (13 + idLength data) := by
  have hcut : ∀ pos w, data.drop pos = (data.drop pos).take w ++ data.drop (pos + w) := by
    intro pos w
    rw [← List.drop_drop, List.take_append_drop]
  have h13 : 11 + idLength data + 2 = 13 + idLength data := by omega
  simp only [List.append_assoc]
  rw [← h13, ← hcut, ← hcut, ← hcut, ← hcut, ← hcut, List.drop_zero]

/-- `deserialize` stays in bounds just on the buffers that hold a message, and the fields it reads
there make up the whole buffer. -/
theorem deserialize_isSome_iff (data : Buffer) :
    ((deserialize data).isSome ↔ HoldsMessage data) ∧
      ∀ m ∈ deserialize data, ReadFrom data m := by
  rw [deserialize_eq]
  constructor
  · split_ifs with h
    · exact iff_of_true rfl h
    · exact iff_of_false Bool.false_ne_true h
  · intro m hm
    split_ifs at hm with h
    · obtain rfl := Option.some.inj hm
      have hid : (UInt64.ofNat (ofLE ((data.drop 1).take 8))).toNat = ofLE ((data.drop 1).take 8) :=
        UInt64.toNat_ofNat_of_lt (ofLE_take_lt data 1 8)
      have httl : (UInt16.ofNat (ofLE ((data.drop (11 + idLength data)).take 2))).toNat =
          ofLE ((data.drop (11 + idLength data)).take 2) :=
        UInt16.toNat_ofNat_of_lt (ofLE_take_lt data _ 2)
      refine ⟨?_, hid, rfl, httl, rfl, ?_⟩
      · rw [MessageType.toByte_ofByte]
        exact List.getElem?_eq_getElem _
      · simp only [MessageType.toByte_ofByte, hid, httl]
        rw [toLE_ofLE_take (by omega), toLE_ofLE_take (by omega)]
        have hlen : toLE 2 (idLength data) = (data.drop 9).take 2 := toLE_ofLE_take (by omega)
        have htype : [data[0]] = (data.drop 0).take 1 := by
          rw [List.drop_zero, List.take_one, List.head?_eq_getElem?, List.getElem?_eq_getElem]
          rfl
        rw [hlen, htype]
        exact append_pieces data
    · cases hm

end Mesh
