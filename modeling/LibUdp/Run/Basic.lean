import Mathlib.Data.List.Basic
import Mathlib.Data.List.Infix

/-!
# Runs of a step function

A system is given by a step function, which tells what an action makes of a state, and that is
undefined where the action is not possible. A run is a list of actions. `Visits` are the states
it goes through and `Takes` the actions it takes in them.
-/

namespace Run

variable {σ α : Type*} (step : σ → α → Option σ)

/-- The state after a list of actions, if each of them is possible in its turn. -/
def exec (s : σ) (as : List α) : Option σ := as.foldlM step s

/-- The run `as` from `s` goes through `t`. -/
def Visits (s : σ) (as : List α) (t : σ) : Prop := ∃ pre, pre <+: as ∧ exec step s pre = some t

/-- The run `as` from `s` takes the action `a` in the state `t`, and it is possible there. -/
def Takes (s : σ) (as : List α) (t : σ) (a : α) : Prop :=
  ∃ pre, pre ++ [a] <+: as ∧ exec step s pre = some t ∧ (step t a).isSome

variable {step} {s t u : σ} {as bs : List α} {a : α}

@[simp] lemma exec_nil (s : σ) : exec step s [] = some s := rfl

lemma exec_cons (s : σ) (a : α) (as : List α) :
    exec step s (a :: as) = (step s a).bind (exec step · as) := List.foldlM_cons

lemma exec_append (s : σ) (as bs : List α) :
    exec step s (as ++ bs) = (exec step s as).bind (exec step · bs) := List.foldlM_append

lemma exec_concat (s : σ) (as : List α) (a : α) :
    exec step s (as ++ [a]) = (exec step s as).bind (step · a) := by
  rw [exec_append]
  congr
  funext t
  simp [exec]

lemma exec_concat_eq_some_iff :
    exec step s (as ++ [a]) = some u ↔ ∃ t, exec step s as = some t ∧ step t a = some u := by
  rw [exec_concat, Option.bind_eq_some_iff]

lemma Visits.refl (s : σ) (as : List α) : Visits step s as s := ⟨[], List.nil_prefix, rfl⟩

/-- What a step taken by a run leads to is visited by it. -/
lemma Takes.visits (h : Takes step s as t a) (hstep : step t a = some u) :
    Visits step s as u := by
  obtain ⟨pre, hpre, hexec, -⟩ := h
  exact ⟨pre ++ [a], hpre, exec_concat_eq_some_iff.mpr ⟨t, hexec, hstep⟩⟩

lemma takes_concat_iff {b : α} (h : exec step s as = some t) :
    Takes step s (as ++ [a]) u b ↔ Takes step s as u b ∨ u = t ∧ b = a ∧ (step t a).isSome := by
  constructor
  · rintro ⟨pre, hpre, hexec, hpossible⟩
    rcases List.prefix_concat_iff.mp hpre with heq | hpre
    · obtain ⟨rfl, hb⟩ := List.append_inj' heq rfl
      cases hb
      cases h.symm.trans hexec
      exact .inr ⟨rfl, rfl, hpossible⟩
    · exact .inl ⟨pre, hpre, hexec, hpossible⟩
  · rintro (⟨pre, hpre, hexec, hpossible⟩ | ⟨rfl, rfl, hpossible⟩)
    · exact ⟨pre, hpre.trans (List.prefix_append as [a]), hexec, hpossible⟩
    · exact ⟨as, List.prefix_rfl, h, hpossible⟩

@[simp] lemma not_takes_nil : ¬ Takes step s [] t a := by
  rintro ⟨pre, hpre, -⟩
  simp at hpre

/-- A run takes its first action, or goes on from what that leads to. -/
lemma takes_cons_iff {b : α} : Takes step s (a :: as) t b ↔
    t = s ∧ b = a ∧ (step s a).isSome ∨ ∃ u, step s a = some u ∧ Takes step u as t b := by
  constructor
  · rintro ⟨pre, hpre, hexec, hpossible⟩
    cases pre with
    | nil =>
      cases hexec
      obtain ⟨rfl, -⟩ := List.cons_prefix_cons.mp hpre
      exact .inl ⟨rfl, rfl, hpossible⟩
    | cons a' pre =>
      rw [List.cons_append, List.cons_prefix_cons] at hpre
      obtain ⟨rfl, hpre⟩ := hpre
      rw [exec_cons, Option.bind_eq_some_iff] at hexec
      obtain ⟨u, hu, hexec⟩ := hexec
      exact .inr ⟨u, hu, pre, hpre, hexec, hpossible⟩
  · rintro (⟨rfl, rfl, hpossible⟩ | ⟨u, hu, pre, hpre, hexec, hpossible⟩)
    · exact ⟨[], by simp, rfl, hpossible⟩
    · exact ⟨a :: pre, by simpa using hpre, by rw [exec_cons, hu]; exact hexec, hpossible⟩

/-- What holds at each step of a run, shown step by step. -/
lemma forall_takes_cons {P : σ → α → Prop} (hstep : step s a = some u) (hs : P s a)
    (h : ∀ t b, Takes step u as t b → P t b) : ∀ t b, Takes step s (a :: as) t b → P t b := by
  intro t b htakes
  rcases takes_cons_iff.mp htakes with ⟨rfl, rfl, -⟩ | ⟨v, hv, htakes⟩
  · exact hs
  · rw [hstep, Option.some.injEq] at hv
    subst hv
    exact h t b htakes

lemma Takes.exists_step (h : Takes step s as t a) : ∃ u, step t a = some u := by
  obtain ⟨-, -, -, hpossible⟩ := h
  exact Option.isSome_iff_exists.mp hpossible

lemma Takes.mem (h : Takes step s as t a) : a ∈ as := by
  obtain ⟨pre, hpre, -⟩ := h
  exact hpre.subset (by simp)

lemma Takes.visits_source (h : Takes step s as t a) : Visits step s as t := by
  obtain ⟨pre, hpre, hexec, -⟩ := h
  exact ⟨pre, (List.prefix_append pre [a]).trans hpre, hexec⟩

/-- Induction along a run: what holds at first and is kept by each step the run takes holds in
every state it visits. -/
theorem Visits.induction {P : σ → Prop} (hinit : P s)
    (hstep : ∀ t a u, Takes step s as t a → P t → step t a = some u → P u)
    (h : Visits step s as t) : P t := by
  obtain ⟨pre, hpre, hexec⟩ := h
  induction pre using List.reverseRecOn generalizing t with
  | nil =>
    cases hexec
    exact hinit
  | append_singleton pre a ih =>
    obtain ⟨u, hu, ha⟩ := exec_concat_eq_some_iff.mp hexec
    have hprefix := (List.prefix_append pre [a]).trans hpre
    exact hstep u a t ⟨pre, hpre, hu, by rw [ha]; rfl⟩ (ih hprefix hu) ha

/-- What every step keeps holds in every state of every run. -/
theorem Visits.invariant {P : σ → Prop} (hstep : ∀ t a u, P t → step t a = some u → P u)
    (hinit : P s) (h : Visits step s as t) : P t :=
  h.induction hinit fun t a u _ => hstep t a u

/-- Forward simulation: where each step of a run is matched by one step or none of another system,
every state the run visits is matched by one that the other system can be in. -/
theorem Visits.simulation {τ β : Type*} {step' : τ → β → Option τ} {x : τ} {R : σ → τ → Prop}
    (hinit : R s x)
    (hstep : ∀ t a u y, Takes step s as t a → step t a = some u → R t y →
      ∃ z, R u z ∧ (z = y ∨ ∃ b, step' y b = some z))
    (h : Visits step s as t) : ∃ bs y, exec step' x bs = some y ∧ R t y := by
  apply h.induction (P := fun t => ∃ bs y, exec step' x bs = some y ∧ R t y)
  · exact ⟨[], x, rfl, hinit⟩
  · rintro t a u htakes ⟨bs, y, hexec, hR⟩ ha
    obtain ⟨z, hz, rfl | ⟨b, hb⟩⟩ := hstep t a u y htakes ha hR
    · exact ⟨bs, z, hexec, hz⟩
    · exact ⟨bs ++ [b], z, exec_concat_eq_some_iff.mpr ⟨y, hexec, hb⟩, hz⟩

/-- A run that goes on from where another one ends. -/
lemma Visits.append (hs : exec step s as = some t) (h : Visits step t bs u) :
    Visits step s (as ++ bs) u := by
  obtain ⟨pre, hpre, hexec⟩ := h
  refine ⟨as ++ pre, (List.prefix_append_right_inj as).mpr hpre, ?_⟩
  rw [exec_append, hs]
  exact hexec

/-! ### What a run shows -/

/-- What is kept of a run, one step longer. -/
lemma filterMap_concat {β : Type*} (f : α → Option β) (as : List α) (a : α) :
    (as ++ [a]).filterMap f = as.filterMap f ++ (f a).toList := by
  rw [List.filterMap_append, List.filterMap_eq_flatMap_toList f [a], List.flatMap_singleton]

/-- An action of which nothing is kept. -/
lemma filterMap_concat_of_none {β : Type*} {f : α → Option β} (h : f a = none) (as : List α) :
    (as ++ [a]).filterMap f = as.filterMap f := by
  rw [filterMap_concat, h, Option.toList_none, List.append_nil]

section record

variable {β : Type*} (step) (f : σ → α → List β)

/-- The system together with what its steps have shown to an observer so far. -/
def record (p : σ × List β) (a : α) : Option (σ × List β) :=
  (step p.1 a).map fun t => (t, p.2 ++ f p.1 a)

variable {step f} {p q : σ × List β}

lemma record_eq_some_iff :
    record step f p a = some q ↔ ∃ t, step p.1 a = some t ∧ (t, p.2 ++ f p.1 a) = q :=
  Option.map_eq_some_iff

lemma exec_record (as : List α) (p : σ × List β) :
    (exec (record step f) p as).map Prod.fst = exec step p.1 as := by
  induction as generalizing p with
  | nil => rfl
  | cons a as ih =>
    rw [exec_cons, exec_cons, record]
    cases step p.1 a with
    | none => rfl
    | some t => exact ih _

/-- An observer does not disturb the run. -/
lemma takes_record_iff : (∃ hist, Takes (record step f) (s, []) as (t, hist) a) ↔
    Takes step s as t a := by
  constructor
  · rintro ⟨hist, pre, hpre, hexec, hpossible⟩
    refine ⟨pre, hpre, ?_, by simpa [record] using hpossible⟩
    rw [← exec_record (f := f) pre (s, []), hexec]
    rfl
  · rintro ⟨pre, hpre, hexec, hpossible⟩
    rw [← exec_record (f := f) pre (s, []), Option.map_eq_some_iff] at hexec
    obtain ⟨⟨t', hist⟩, hexec, rfl⟩ := hexec
    exact ⟨hist, pre, hpre, hexec, by simpa [record] using hpossible⟩

end record

end Run
