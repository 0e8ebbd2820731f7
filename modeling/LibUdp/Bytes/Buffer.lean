import LibUdp.Bytes.LittleEndian

/-!
# Byte buffers with checked access

A buffer is a list of bytes. Reading outside it has no result, so a decoder written with these
reads answers `none` exactly when one of its accesses leaves the buffer.
-/

namespace Bytes

abbrev Buffer := List UInt8

/-- The word of `w` bytes at offset `pos`, read through a cast pointer on a little-endian host. -/
def load (data : Buffer) (pos w : ℕ) : Option ℕ :=
  if pos + w ≤ data.length then some (ofLE ((data.drop pos).take w)) else none

/-- The bytes between two iterators, `lo` included and `hi` excluded. -/
def slice (data : Buffer) (lo hi : ℕ) : Option Buffer :=
  if lo ≤ hi ∧ hi ≤ data.length then some ((data.drop lo).take (hi - lo)) else none

/-- Write `bytes` over the start of a buffer, the rest of which keeps its contents. -/
def overwrite (buffer bytes : Buffer) : Buffer := bytes ++ buffer.drop bytes.length

lemma load_of_le {data : Buffer} {pos w : ℕ} (h : pos + w ≤ data.length) :
    load data pos w = some (ofLE ((data.drop pos).take w)) := if_pos h

lemma load_of_lt {data : Buffer} {pos w : ℕ} (h : data.length < pos + w) :
    load data pos w = none := if_neg (by omega)

lemma slice_of_le {data : Buffer} {lo hi : ℕ} (h₁ : lo ≤ hi) (h₂ : hi ≤ data.length) :
    slice data lo hi = some ((data.drop lo).take (hi - lo)) := if_pos ⟨h₁, h₂⟩

lemma slice_of_lt {data : Buffer} {lo hi : ℕ} (h : data.length < hi) :
    slice data lo hi = none := if_neg (by omega)

lemma length_overwrite {buffer bytes : Buffer} (h : bytes.length ≤ buffer.length) :
    (overwrite buffer bytes).length = buffer.length := by
  simp [overwrite]
  omega

/-- A write leaves nothing of the buffer just when it fills it. -/
lemma overwrite_eq_iff {buffer bytes : Buffer} :
    overwrite buffer bytes = bytes ↔ buffer.length ≤ bytes.length := by
  rw [overwrite, List.append_right_eq_self, List.drop_eq_nil_iff]

end Bytes
