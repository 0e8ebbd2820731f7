import LibUdp.Mesh.Message.Basic

/-!
# Decoding and encoding do not fit together

The encoder puts copies of one byte where the decoder looks for the length of the source id, so
neither of them undoes the other, whatever the message or the buffer.
-/

namespace Mesh

open Bytes

lemma length_serialize (m : Message) :
    (serialize m).length =
      11 + m.header.sourceId.length % 65536 + m.header.sourceId.length + m.payload.length := by
  simp [serialize]
  omega

/-- With a two-byte source id the encoder puts `2 + 2` twice where the decoder looks for the
length. -/
lemma idLength_serialize_of_length_eq_two {m : Message} (h : m.header.sourceId.length = 2) :
    idLength (serialize m) = 1028 := by
  simp [idLength, serialize, h, List.replicate]

/-- The lengths of the pieces a successful decoding cuts a buffer into. -/
lemma length_of_deserialize_eq_some {data : Buffer} {m : Message}
    (h : deserialize data = some m) :
    m.header.sourceId.length = idLength data ∧
      m.payload.length + (13 + idLength data) = data.length := by
  rw [deserialize_eq] at h
  split_ifs at h with hb
  simp only [Option.some.injEq] at h
  subst h
  simp only [List.length_take, List.length_drop]
  omega

/-- The encoder does not write the bytes that a message was decoded from: a buffer of the same
length would need a source id of two bytes, and there the length field reads 1028. -/
lemma serialize_ne_of_deserialize {data : Buffer} {m : Message} (h : deserialize data = some m) :
    serialize m ≠ data := by
  intro heq
  obtain ⟨hsrc, hpay⟩ := length_of_deserialize_eq_some h
  have hlt := idLength_lt data
  have hlength := length_serialize m
  rw [heq, Nat.mod_eq_of_lt (by omega)] at hlength
  have htwo : m.header.sourceId.length = 2 := by omega
  have hid := idLength_serialize_of_length_eq_two htwo
  rw [heq] at hid
  omega

/-- Decoding what `serialize` wrote never gives the message back: the length of the source id
is not on the wire. -/
theorem deserialize_serialize_ne (m : Message) : deserialize (serialize m) ≠ some m := by
  intro h
  exact serialize_ne_of_deserialize h rfl

/-- A data message without source id and payload loses its length field altogether, and the
decoder runs past the end of the eleven bytes. -/
theorem deserialize_serialize_empty :
    deserialize (serialize ⟨⟨.data, 1, [], 3⟩, []⟩) = none ∧
      ¬ ∀ m : Message, m.header.sourceId.length ≤ 65535 →
        deserialize (serialize m) = some m := by
  have hnone : deserialize (serialize ⟨⟨.data, 1, [], 3⟩, []⟩) = none := rfl
  refine ⟨hnone, fun h => ?_⟩
  have hsome := h ⟨⟨.data, 1, [], 3⟩, []⟩ (by decide)
  rw [hnone] at hsome
  cases hsome

/-- Encoding what was decoded from a buffer never gives the buffer back. -/
theorem serialize_deserialize_ne (data : Buffer) (h : 11 ≤ data.length)
    (hid : 13 + idLength data ≤ data.length) :
    ∃ m, deserialize data = some m ∧ serialize m ≠ data := by
  have hsome := deserialize_eq data
  rw [dif_pos ⟨h, hid⟩] at hsome
  exact ⟨_, hsome, serialize_ne_of_deserialize hsome⟩

/-- A data message from `ab`, where the encoder writes as many bytes as there were. -/
theorem serialize_deserialize_ne_data :
    ∃ m, deserialize [4, 7, 0, 0, 0, 0, 0, 0, 0, 2, 0, 97, 98, 3, 0, 72, 105] = some m ∧
      serialize m ≠ [4, 7, 0, 0, 0, 0, 0, 0, 0, 2, 0, 97, 98, 3, 0, 72, 105] :=
  serialize_deserialize_ne [4, 7, 0, 0, 0, 0, 0, 0, 0, 2, 0, 97, 98, 3, 0, 72, 105] (by decide)
    (by decide)

/-- Thirteen zeros decode to a message without source id and payload, for which the encoder writes
eleven bytes. -/
theorem serialize_deserialize_zeros :
    deserialize (List.replicate 13 0) = some ⟨⟨.none, 0, [], 0⟩, []⟩ ∧
      serialize ⟨⟨.none, 0, [], 0⟩, []⟩ = List.replicate 11 0 ∧
      ¬ ∀ data : Buffer, 11 ≤ data.length → 13 + idLength data ≤ data.length →
        (deserialize data).map serialize = some data := by
  refine ⟨rfl, rfl, ?_⟩
  intro h
  have hzeros := h (List.replicate 13 0) (by decide) (by decide)
  exact absurd hzeros (by decide)

end Mesh
