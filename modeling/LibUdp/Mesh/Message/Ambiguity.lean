import LibUdp.Mesh.Message.Decoding
import LibUdp.Mesh.Message.Properties

/-!
# What the bytes tell of a message

`serialize` puts copies of one byte where the length of the source id should be, so the bytes tell
of a message only what can be told without that length. They can be cut in as many ways as there
are lengths whose copies they have in the right place.
-/

namespace Mesh

open Bytes

/-- The number of copies for a source id of `n` bytes. -/
def copies (n : ℕ) : ℕ := n % 65536

/-- The copies for a source id of `n` bytes. -/
def lengthField (n : ℕ) : Buffer := List.replicate (copies n) (UInt8.ofNat (copies n + 2))

/-- The bytes can be cut into the fields of a message with a source id of `n` bytes. -/
structure Fits (n : ℕ) (data : Buffer) : Prop where
  length : 11 + copies n + n ≤ data.length
  field : (data.drop 9).take (copies n) = lengthField n

/-- The message with a source id of `n` bytes that the bytes are cut into. -/
def readAs (n : ℕ) (data : Buffer) (h : 0 < data.length) : Message where
  header := {
    type := .ofByte data[0]
    messageId := .ofNat (ofLE ((data.drop 1).take 8))
    sourceId := (data.drop (9 + copies n)).take n
    ttl := .ofNat (ofLE ((data.drop (9 + copies n + n)).take 2)) }
  payload := data.drop (11 + copies n + n)

variable {m m' : Message} {data : Buffer} {n : ℕ}

lemma MessageType.toByte_injective : Function.Injective MessageType.toByte := by
  apply Function.LeftInverse.injective (g := MessageType.ofByte)
  intro type
  cases type with
  | other byte h => exact dif_pos h
  | _ => rfl

lemma length_lengthField (n : ℕ) : (lengthField n).length = copies n := List.length_replicate

lemma serialize_eq (m : Message) : serialize m =
    [m.header.type.toByte] ++ toLE 8 m.header.messageId.toNat ++
      lengthField m.header.sourceId.length ++ m.header.sourceId ++ toLE 2 m.header.ttl.toNat ++
      m.payload := by
  have hcopies : (UInt16.ofNat m.header.sourceId.length).toNat = copies m.header.sourceId.length :=
    UInt16.toNat_ofNat'
  rw [lengthField, ← hcopies]
  rfl

lemma toLE_injective_of_lt {w a b : ℕ} (ha : a < 256 ^ w) (hb : b < 256 ^ w)
    (h : toLE w a = toLE w b) : a = b := by
  have hread := congrArg ofLE h
  rwa [ofLE_toLE, ofLE_toLE, Nat.mod_eq_of_lt ha, Nat.mod_eq_of_lt hb] at hread

/-- Once the length of the source id is known, the bytes tell the message. -/
lemma eq_of_serialize_eq (hlength : m.header.sourceId.length = m'.header.sourceId.length)
    (h : serialize m = serialize m') : m = m' := by
  rw [serialize_eq, serialize_eq, hlength] at h
  obtain ⟨h, hpayload⟩ := List.append_inj h (by simp [hlength])
  obtain ⟨h, httl⟩ := List.append_inj h (by simp [hlength])
  obtain ⟨h, hsource⟩ := List.append_inj h (by simp)
  obtain ⟨h, -⟩ := List.append_inj h (by simp)
  obtain ⟨htype, hid⟩ := List.append_inj h (by simp)
  have htype := MessageType.toByte_injective (List.singleton_inj.mp htype)
  have hid := UInt64.toNat_inj.mp
    (toLE_injective_of_lt m.header.messageId.toNat_lt m'.header.messageId.toNat_lt hid)
  have httl := UInt16.toNat_inj.mp
    (toLE_injective_of_lt m.header.ttl.toNat_lt m'.header.ttl.toNat_lt httl)
  obtain ⟨⟨type, messageId, sourceId, ttl⟩, payload⟩ := m
  obtain ⟨⟨type', messageId', sourceId', ttl'⟩, payload'⟩ := m'
  cases htype
  cases hid
  cases hsource
  cases httl
  cases hpayload
  rfl

lemma fits_serialize (m : Message) : Fits m.header.sourceId.length (serialize m) where
  length := by
    rw [length_serialize, copies]
    omega
  field := by
    have hhead : ([m.header.type.toByte] ++ toLE 8 m.header.messageId.toNat).length = 9 := by simp
    rw [serialize_eq]
    simp only [List.append_assoc]
    rw [← List.append_assoc, List.drop_left' hhead, List.take_left' (length_lengthField _)]

/-- Any way to cut the bytes gives a message with these bytes. -/
lemma serialize_readAs (h : Fits n data) (hpos : 0 < data.length) :
    (readAs n data hpos).header.sourceId.length = n ∧ serialize (readAs n data hpos) = data := by
  have hfits := h.length
  have hlength : (readAs n data hpos).header.sourceId.length = n := by
    rw [readAs, List.length_take, List.length_drop]
    omega
  refine ⟨hlength, ?_⟩
  have htype : [(readAs n data hpos).header.type.toByte] = (data.drop 0).take 1 := by
    rw [readAs, MessageType.toByte_ofByte, List.drop_zero, List.take_one, List.head?_eq_getElem?,
      List.getElem?_eq_getElem hpos]
    rfl
  have hid : toLE 8 (readAs n data hpos).header.messageId.toNat = (data.drop 1).take 8 :=
    (congrArg (toLE 8) (UInt64.toNat_ofNat_of_lt (ofLE_take_lt data 1 8))).trans
      (toLE_ofLE_take (by omega))
  have httl : toLE 2 (readAs n data hpos).header.ttl.toNat =
      (data.drop (9 + copies n + n)).take 2 :=
    (congrArg (toLE 2) (UInt16.toNat_ofNat_of_lt (ofLE_take_lt data _ 2))).trans
      (toLE_ofLE_take (by omega))
  have hcut : ∀ pos w, data.drop pos = (data.drop pos).take w ++ data.drop (pos + w) := by
    intro pos w
    rw [← List.drop_drop, List.take_append_drop]
  have hpayload : 9 + copies n + n + 2 = 11 + copies n + n := by omega
  rw [serialize_eq, hlength, htype, hid, httl, ← h.field, readAs]
  simp only [List.append_assoc]
  rw [← hpayload, ← hcut, ← hcut, ← hcut, ← hcut, ← hcut, List.drop_zero]

/-- A message is the only one with its bytes just when they fit no other length. -/
lemma serialize_unique_iff_fits : (∀ m', serialize m' = serialize m → m' = m) ↔
    ∀ n, Fits n (serialize m) → n = m.header.sourceId.length := by
  constructor
  · intro h n hn
    have hpos : 0 < (serialize m).length := by
      rw [length_serialize]
      omega
    obtain ⟨hlength, hbytes⟩ := serialize_readAs hn hpos
    rw [← h _ hbytes, hlength]
  · intro h m' hm'
    have hfits := fits_serialize m'
    rw [hm'] at hfits
    exact eq_of_serialize_eq (h _ hfits) hm'

lemma copies_of_lt (h : n < 65536) : copies n = n := Nat.mod_eq_of_lt h

lemma fits_serialize_iff (h : m.header.sourceId = []) : Fits n (serialize m) ↔
    copies n + n ≤ m.payload.length ∧
      lengthField n <+: toLE 2 m.header.ttl.toNat ++ m.payload := by
  have hlength : (serialize m).length = 11 + m.payload.length := by rw [length_serialize, h]; rfl
  have hdrop : (serialize m).drop 9 = toLE 2 m.header.ttl.toNat ++ m.payload := by
    have hhead : ([m.header.type.toByte] ++ toLE 8 m.header.messageId.toNat).length = 9 := by simp
    have hnone : lengthField 0 = [] := rfl
    rw [serialize_eq, h, List.length_nil, hnone, List.append_nil, List.append_nil,
      List.append_assoc, List.drop_left' hhead]
  constructor
  · rintro ⟨hle, hfield⟩
    rw [hdrop] at hfield
    refine ⟨by omega, ?_⟩
    rw [← hfield]
    exact List.take_prefix _ _
  · rintro ⟨hle, hfield⟩
    refine ⟨by omega, ?_⟩
    rw [hdrop, ← length_lengthField]
    exact (List.prefix_iff_eq_take.mp hfield).symm

/-- A message is the only one with its bytes just when it has no source id, its payload is shorter
than 65536 bytes, and behind the message id there are no copies that stand for a source id that has
room in the payload. -/
theorem serialize_unique_iff (m : Message) : (∀ m', serialize m' = serialize m → m' = m) ↔
    m.header.sourceId = [] ∧ m.payload.length < 65536 ∧
      ∀ n, 0 < n → 2 * n ≤ m.payload.length →
        ¬ List.replicate n (UInt8.ofNat (n + 2)) <+: toLE 2 m.header.ttl.toNat ++ m.payload := by
  rw [serialize_unique_iff_fits]
  constructor
  · intro h
    have hfits : Fits 0 (serialize m) := by
      refine ⟨?_, rfl⟩
      rw [length_serialize, copies]
      omega
    have hempty : m.header.sourceId = [] := List.length_eq_zero_iff.mp (h 0 hfits).symm
    have hnone : ∀ n, 0 < n → ¬ Fits n (serialize m) := by
      intro n hpos hn
      rw [h n hn, hempty] at hpos
      exact lt_irrefl 0 hpos
    have hshort : m.payload.length < 65536 := by
      -- a source id of 65536 bytes has no copies in front of it
      by_contra hlong
      refine hnone 65536 (by norm_num) ((fits_serialize_iff hempty).mpr ⟨?_, List.nil_prefix⟩)
      exact not_lt.mp hlong
    refine ⟨hempty, hshort, fun n hpos hn hcopies => hnone n hpos ?_⟩
    rw [fits_serialize_iff hempty, lengthField, copies_of_lt (by omega)]
    exact ⟨by omega, hcopies⟩
  · rintro ⟨hempty, hshort, hcopies⟩ n hn
    rw [hempty, List.length_nil]
    obtain ⟨hlength, hfield⟩ := (fits_serialize_iff hempty).mp hn
    have hsame : copies n = n := copies_of_lt (by omega)
    rw [lengthField, hsame] at hfield
    rw [hsame] at hlength
    by_contra hne
    exact hcopies n (Nat.pos_of_ne_zero hne) (by omega) hfield

end Mesh
