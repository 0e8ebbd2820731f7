import LibUdp.Run.Basic
import Mathlib.Data.Finset.Basic

/-!
# Ledgers of resources

A ledger lists in their order the acquisitions and the releases of resources. A resource can be
acquired again once it has been released.
-/

namespace Ledger

open Run

inductive Entry (ρ : Type*) where
  | acquire (r : ρ)
  | release (r : ρ)
  deriving DecidableEq

variable {ρ : Type*}

def Entry.resource : Entry ρ → ρ
  | .acquire r => r
  | .release r => r

private lemma flatten_replicate_succ (r : ρ) (n : ℕ) :
    (List.replicate (n + 1) [Entry.acquire r, .release r]).flatten =
      .acquire r :: .release r :: (List.replicate n [.acquire r, .release r]).flatten := rfl

private lemma release_ne_flatten (r : ρ) (n : ℕ) (rest : List (Entry ρ)) :
    .release r :: rest ≠ (List.replicate n [Entry.acquire r, .release r]).flatten := by
  cases n with
  | zero => exact List.cons_ne_nil _ _
  | succ n =>
    rw [flatten_replicate_succ]
    intro h
    cases (List.cons.inj h).1

variable [DecidableEq ρ]

/-- Every resource is released exactly once each time it has been acquired, and not otherwise. -/
def ReleasedOnce (es : List (Entry ρ)) : Prop :=
  ∀ r, ∃ n, es.filter (·.resource = r) = (List.replicate n [.acquire r, .release r]).flatten

/-- The effect of an entry on the resources that are held. -/
def apply (live : Finset ρ) : Entry ρ → Finset ρ
  | .acquire r => insert r live
  | .release r => live.erase r

/-- The resources that are held after a ledger. -/
def live (es : List (Entry ρ)) : Finset ρ := es.foldl apply ∅

/-- The same, undefined where a resource is acquired twice or released twice. -/
def step (live : Finset ρ) : Entry ρ → Option (Finset ρ)
  | .acquire r => if r ∈ live then none else some (insert r live)
  | .release r => if r ∈ live then some (live.erase r) else none

variable {held : Finset ρ} {es es' : List (Entry ρ)} {r : ρ}

@[simp] lemma live_nil : live ([] : List (Entry ρ)) = ∅ := rfl

lemma live_append (es es' : List (Entry ρ)) : live (es ++ es') = es'.foldl apply (live es) :=
  List.foldl_append

/-- No entry of the ledger acquires what is held or releases what is not. -/
def Sound (es : List (Entry ρ)) : Prop := exec step ∅ es = some (live es)

lemma Sound.nil : Sound ([] : List (Entry ρ)) := rfl

lemma Sound.append (h : Sound es) (hexec : exec step (live es) es' = some held)
    (hlive : live (es ++ es') = held) : Sound (es ++ es') := by
  rw [Sound, exec_append, h, Option.bind_some, hexec, hlive]

lemma live_acquire (es : List (Entry ρ)) (r : ρ) :
    live (es ++ [.acquire r]) = insert r (live es) := live_append es _

lemma live_release (es : List (Entry ρ)) (r : ρ) :
    live (es ++ [.release r]) = (live es).erase r := live_append es _

lemma Sound.acquire (h : Sound es) (hr : r ∉ live es) : Sound (es ++ [.acquire r]) := by
  refine h.append ?_ (live_acquire es r)
  rw [exec_cons, step, if_neg hr]
  rfl

lemma Sound.release (h : Sound es) (hr : r ∈ live es) : Sound (es ++ [.release r]) := by
  refine h.append ?_ (live_release es r)
  rw [exec_cons, step, if_pos hr]
  rfl

lemma exec_releases {rs : List ρ} (hnodup : rs.Nodup) (hheld : ∀ r ∈ rs, r ∈ held) :
    exec step held (rs.map .release) = some (held \ rs.toFinset) := by
  induction rs generalizing held with
  | nil => simp
  | cons r rs ih =>
    obtain ⟨hr, hrs⟩ := List.nodup_cons.mp hnodup
    have herase : ∀ r' ∈ rs, r' ∈ held.erase r := by
      intro r' hr'
      refine Finset.mem_erase.mpr ⟨?_, hheld r' (List.mem_cons_of_mem _ hr')⟩
      rintro rfl
      exact hr hr'
    rw [List.map_cons, exec_cons, step, if_pos (hheld r List.mem_cons_self), Option.bind_some,
      ih hrs herase, List.toFinset_cons, Finset.sdiff_insert, Finset.erase_sdiff_comm]

lemma foldl_apply_releases (rs : List ρ) (held : Finset ρ) :
    (rs.map Entry.release).foldl apply held = held \ rs.toFinset := by
  induction rs generalizing held with
  | nil => simp
  | cons r rs ih =>
    rw [List.map_cons, List.foldl_cons, ih, apply, List.toFinset_cons, Finset.sdiff_insert,
      Finset.erase_sdiff_comm]

/-! ### Turns of one resource -/

/-- Nothing is held in the end just when the entries of each resource take turns, beginning with a
release where it is held at first. -/
lemma exec_eq_empty_iff :
    exec step held es = some ∅ ↔ ∀ r, ∃ n, es.filter (·.resource = r) =
      (if r ∈ held then [.release r] else []) ++
        (List.replicate n [.acquire r, .release r]).flatten := by
  induction es generalizing held with
  | nil =>
    rw [exec_nil, Option.some.injEq, Finset.eq_empty_iff_forall_notMem]
    refine forall_congr' fun r => ⟨fun hr => ⟨0, by simp [hr]⟩, ?_⟩
    rintro ⟨n, hn⟩ hr
    simp [hr] at hn
  | cons e es ih =>
    rw [exec_cons]
    cases e with
    | acquire a =>
      by_cases ha : a ∈ held
      · simp only [step, ha, if_true, Option.bind_none, reduceCtorEq, false_iff]
        intro h
        obtain ⟨n, hn⟩ := h a
        simp [ha, Entry.resource] at hn
      · rw [step, if_neg ha, Option.bind_some, ih]
        refine forall_congr' fun r => ?_
        by_cases hr : r = a
        · subst hr
          simp only [Finset.mem_insert_self, if_true, ha, if_false, List.nil_append,
            List.singleton_append, List.filter_cons, Entry.resource, decide_true]
          constructor
          · rintro ⟨n, hn⟩
            exact ⟨n + 1, by rw [flatten_replicate_succ, hn]⟩
          · rintro ⟨n, hn⟩
            cases n with
            | zero => cases hn
            | succ n => exact ⟨n, (List.cons.inj hn).2⟩
        · simp [Finset.mem_insert, hr, Entry.resource, Ne.symm hr]
    | release a =>
      by_cases ha : a ∈ held
      · rw [step, if_pos ha, Option.bind_some, ih]
        refine forall_congr' fun r => ?_
        by_cases hr : r = a
        · subst hr
          simp [ha, Entry.resource]
        · simp [Finset.mem_erase, hr, Entry.resource, Ne.symm hr]
      · simp only [step, ha, if_false, Option.bind_none, reduceCtorEq, false_iff]
        intro h
        obtain ⟨n, hn⟩ := h a
        simp only [List.filter_cons, Entry.resource, decide_true, if_true, ha, if_false,
          List.nil_append] at hn
        exact release_ne_flatten a n _ hn

theorem releasedOnce_iff_exec : ReleasedOnce es ↔ exec step ∅ es = some ∅ := by
  simp [ReleasedOnce, exec_eq_empty_iff]

lemma ReleasedOnce.count_eq (h : ReleasedOnce es) (r : ρ) :
    es.count (.acquire r) = es.count (.release r) := by
  obtain ⟨n, hn⟩ := h r
  have hturns : ∀ n, (List.replicate n [Entry.acquire r, .release r]).flatten.count (.acquire r) =
      (List.replicate n [Entry.acquire r, .release r]).flatten.count (.release r) := by
    intro n
    induction n with
    | zero => rfl
    | succ n ih => simp [flatten_replicate_succ, ih]
  have hfilter : ∀ e : Entry ρ, e.resource = r → (es.filter (·.resource = r)).count e = es.count e :=
    fun e he => List.count_filter (by simpa using he)
  rw [← hfilter (.acquire r) rfl, ← hfilter (.release r) rfl, hn]
  exact hturns n

/-- In a sound ledger it is enough that nothing is held in the end. -/
theorem Sound.releasedOnce_iff_live (h : Sound es) : ReleasedOnce es ↔ live es = ∅ := by
  rw [releasedOnce_iff_exec, h, Option.some.injEq]

end Ledger
