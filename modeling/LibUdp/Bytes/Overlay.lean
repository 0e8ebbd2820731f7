import LibUdp.Bytes.Buffer

/-!
# Many writes over the start of one buffer

A place of the buffer holds what the last write that reached it put there, however many shorter
writes came after that one.
-/

namespace Bytes

/-- The byte that the last write that reaches the place `i` puts there. -/
def lastWrite (i : ℕ) : List Buffer → Option UInt8
  | []             => none
  | bytes :: later => (lastWrite i later).or bytes[i]?

variable {bytes : Buffer} {writes : List Buffer} {i : ℕ}

/-- No write reaches the place. -/
lemma lastWrite_eq_none_iff : lastWrite i writes = none ↔ ∀ bytes ∈ writes, bytes.length ≤ i := by
  induction writes with
  | nil => exact iff_of_true rfl (List.forall_mem_nil _)
  | cons bytes later ih =>
    rw [lastWrite, Option.or_eq_none_iff, ih, List.getElem?_eq_none_iff, List.forall_mem_cons,
      and_comm]

lemma getElem?_overwrite (buffer bytes : Buffer) (i : ℕ) :
    (overwrite buffer bytes)[i]? = bytes[i]?.or buffer[i]? := by
  rw [overwrite]
  rcases lt_or_ge i bytes.length with h | h
  · rw [List.getElem?_append_left h, List.getElem?_eq_getElem h, Option.some_or]
  · rw [List.getElem?_append_right h, List.getElem?_drop, Nat.add_sub_cancel' h,
      List.getElem?_eq_none h, Option.none_or]

lemma getElem?_foldl_overwrite (writes : List Buffer) (buffer : Buffer) (i : ℕ) :
    (writes.foldl overwrite buffer)[i]? = (lastWrite i writes).or buffer[i]? := by
  induction writes generalizing buffer with
  | nil => rw [List.foldl_nil, lastWrite, Option.none_or]
  | cons bytes writes ih =>
    rw [List.foldl_cons, ih, getElem?_overwrite, lastWrite, Option.or_assoc]

/-- The contents of a buffer of `n` zeros after the writes. -/
def contents (n : ℕ) (writes : List Buffer) : Buffer :=
  (List.range n).map fun i => (lastWrite i writes).getD 0

lemma foldl_overwrite (n : ℕ) (h : ∀ bytes ∈ writes, bytes.length ≤ n) :
    writes.foldl overwrite (List.replicate n 0) = contents n writes := by
  apply List.ext_getElem?
  intro i
  rw [getElem?_foldl_overwrite, contents, List.getElem?_map]
  rcases lt_or_ge i n with hi | hi
  · rw [List.getElem?_range hi, List.getElem?_replicate_of_lt hi, Option.map_some]
    cases lastWrite i writes <;> rfl
  · have hnone : lastWrite i writes = none :=
      lastWrite_eq_none_iff.mpr fun bytes hbytes => (h bytes hbytes).trans hi
    rw [hnone, List.getElem?_eq_none (by simpa using hi), List.getElem?_eq_none (by simpa using hi)]
    rfl

lemma contents_nil (n : ℕ) : contents n [] = List.replicate n 0 :=
  (foldl_overwrite n (List.forall_mem_nil _)).symm

lemma contents_concat {n : ℕ} (h : ∀ bytes ∈ writes, bytes.length ≤ n) (hle : bytes.length ≤ n) :
    contents n (writes ++ [bytes]) = overwrite (contents n writes) bytes := by
  have hall : ∀ bytes' ∈ writes ++ [bytes], bytes'.length ≤ n := by
    rw [List.forall_mem_append, List.forall_mem_singleton]
    exact ⟨h, hle⟩
  rw [← foldl_overwrite n hall, ← foldl_overwrite n h, List.foldl_append]
  rfl

end Bytes
