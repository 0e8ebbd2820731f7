import Mathlib.Data.Finset.Basic
import Mathlib.Data.Set.Lattice

/-!
# Resources and their owners

A resource that is live has at most one owner, and what is owned is live. What is live and has no
owner is leaked. An owner may get new resources, give up all it has, or give all it has to another.
-/

namespace Ledger

open Function

variable {ι ρ : Type*}

structure Owned (live : Finset ρ) (own : ι → Set ρ) : Prop where
  mem_live : ∀ i, ∀ r ∈ own i, r ∈ live
  unique   : ∀ i j r, r ∈ own i → r ∈ own j → i = j

/-- What is live and nobody owns. -/
def leaked (live : Finset ρ) (own : ι → Set ρ) : Set ρ := {r | r ∈ live ∧ ∀ i, r ∉ own i}

variable {live R : Finset ρ} {own : ι → Set ρ} {i dst src : ι}

/-- When nobody owns anything, all that is live is leaked. -/
lemma live_eq_empty_iff (h : ∀ i, own i = ∅) : live = ∅ ↔ leaked live own = ∅ := by
  have hall : leaked live own = {r | r ∈ live} := by
    ext r
    simp [leaked, h]
  rw [hall, Finset.eq_empty_iff_forall_notMem, Set.eq_empty_iff_forall_notMem]
  rfl

namespace Owned

lemma empty : Owned (∅ : Finset ρ) (fun _ : ι => ∅) where
  mem_live i r hr := by cases hr
  unique i j r hr _ := by cases hr

variable [DecidableEq ι]

lemma mem_update {S : Set ρ} {j : ι} {r : ρ} :
    r ∈ update own i S j ↔ j = i ∧ r ∈ S ∨ j ≠ i ∧ r ∈ own j := by
  by_cases hj : j = i
  · subst hj
    simp
  · simp [hj]

/-! ### An owner gives all it has to another -/

lemma mem_move (hne : dst ≠ src) {j : ι} {r : ρ} :
    r ∈ update (update own dst (own src)) src ∅ j ↔
      j = dst ∧ r ∈ own src ∨ j ≠ dst ∧ j ≠ src ∧ r ∈ own j := by
  rw [mem_update, mem_update]
  by_cases hj : j = src
  · simp [hj, hne.symm]
  · simp [hj]

lemma move (h : Owned live own) (hne : dst ≠ src) :
    Owned live (update (update own dst (own src)) src ∅) := by
  constructor
  · intro j r hr
    rcases (mem_move hne).mp hr with ⟨-, hr⟩ | ⟨-, -, hr⟩
    · exact h.mem_live src r hr
    · exact h.mem_live j r hr
  · intro j k r hj hk
    rcases (mem_move hne).mp hj with ⟨rfl, hj'⟩ | ⟨-, hjs, hj'⟩
    · rcases (mem_move hne).mp hk with ⟨rfl, -⟩ | ⟨-, hks, hk'⟩
      · rfl
      · exact absurd (h.unique k src r hk' hj') hks
    · rcases (mem_move hne).mp hk with ⟨rfl, hk'⟩ | ⟨-, -, hk'⟩
      · exact absurd (h.unique j src r hj' hk') hjs
      · exact h.unique j k r hj' hk'

/-- What the other had before is leaked. -/
lemma leaked_move (h : Owned live own) (hne : dst ≠ src) :
    leaked live (update (update own dst (own src)) src ∅) = leaked live own ∪ own dst := by
  ext r
  simp only [leaked, Set.mem_union, Set.mem_ofPred_eq, mem_move hne, not_or, not_and]
  constructor
  · rintro ⟨hr, hnone⟩
    by_cases hdst : r ∈ own dst
    · exact .inr hdst
    · refine .inl ⟨hr, fun j hj => ?_⟩
      by_cases hjd : j = dst
      · exact hdst (hjd ▸ hj)
      · by_cases hjs : j = src
        · exact (hnone dst).1 rfl (hjs ▸ hj)
        · exact (hnone j).2 hjd hjs hj
  · rintro (⟨hr, hnone⟩ | hr)
    · exact ⟨hr, fun j => ⟨fun _ => hnone src, fun _ _ => hnone j⟩⟩
    · refine ⟨h.mem_live dst r hr, fun j => ⟨fun _ hs => ?_, fun hj _ hjr => ?_⟩⟩
      · exact hne (h.unique dst src r hr hs)
      · exact hj (h.unique j dst r hjr hr)

variable [DecidableEq ρ]

/-! ### An owner gets new resources -/

lemma acquire (h : Owned live own) (hR : ∀ r ∈ R, r ∉ live) :
    Owned (R ∪ live) (update own i R) := by
  constructor
  · intro j r hr
    rw [Finset.mem_union]
    rcases mem_update.mp hr with ⟨-, hr⟩ | ⟨-, hr⟩
    · exact .inl hr
    · exact .inr (h.mem_live j r hr)
  · intro j k r hj hk
    rcases mem_update.mp hj with ⟨rfl, hj'⟩ | ⟨-, hj'⟩
    · rcases mem_update.mp hk with ⟨rfl, -⟩ | ⟨-, hk'⟩
      · rfl
      · exact absurd (h.mem_live k r hk') (hR r hj')
    · rcases mem_update.mp hk with ⟨rfl, hk'⟩ | ⟨-, hk'⟩
      · exact absurd (h.mem_live j r hj') (hR r hk')
      · exact h.unique j k r hj' hk'

lemma leaked_acquire (hR : ∀ r ∈ R, r ∉ live) (hi : own i = ∅) :
    leaked (R ∪ live) (update own i R) = leaked live own := by
  ext r
  simp only [leaked, Set.mem_ofPred_eq, Finset.mem_union, mem_update, not_or, not_and]
  constructor
  · rintro ⟨hr, hnone⟩
    have hnew : r ∉ R := (hnone i).1 rfl
    refine ⟨hr.resolve_left hnew, fun j hj => ?_⟩
    by_cases hji : j = i
    · rw [hji, hi] at hj
      exact hj
    · exact (hnone j).2 hji hj
  · rintro ⟨hr, hnone⟩
    exact ⟨.inr hr, fun j => ⟨fun _ hnew => hR r hnew hr, fun _ => hnone j⟩⟩

/-! ### An owner gives up all it has -/

lemma release (h : Owned live own) (hi : own i = R) :
    Owned (live \ R) (update own i ∅) := by
  have hkeep : ∀ j r, r ∈ update own i ∅ j → j ≠ i ∧ r ∈ own j := by
    intro j r hr
    rcases mem_update.mp hr with ⟨-, hr⟩ | hr
    · cases hr
    · exact hr
  constructor
  · intro j r hr
    obtain ⟨hji, hj⟩ := hkeep j r hr
    refine Finset.mem_sdiff.mpr ⟨h.mem_live j r hj, fun hrR => ?_⟩
    exact hji (h.unique j i r hj (hi ▸ hrR))
  · intro j k r hj hk
    exact h.unique j k r (hkeep j r hj).2 (hkeep k r hk).2

lemma leaked_release (hi : own i = R) :
    leaked (live \ R) (update own i ∅) = leaked live own := by
  ext r
  have hiff : r ∈ own i ↔ r ∈ R := by rw [hi, Finset.mem_coe]
  simp only [leaked, Set.mem_ofPred_eq, Finset.mem_sdiff, mem_update, not_or, not_and]
  constructor
  · rintro ⟨⟨hr, hrR⟩, hnone⟩
    refine ⟨hr, fun j hj => ?_⟩
    by_cases hji : j = i
    · exact hrR (hiff.mp (hji ▸ hj))
    · exact (hnone j).2 hji hj
  · rintro ⟨hr, hnone⟩
    exact ⟨⟨hr, fun hrR => hnone i (hiff.mpr hrR)⟩, fun j => ⟨fun _ => id, fun _ => hnone j⟩⟩

end Owned

end Ledger
