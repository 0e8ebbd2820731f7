import LibUdp.Udp.Socket.Basic
import Mathlib.Data.List.Perm.Basic
import Mathlib.Data.List.Range

/-!
# Whose result a task gets

The completion awaitable of a task takes the oldest entry of the ring, whichever operation the
entry belongs to. The result is the task's own as long as the entries are taken in the order in
which they were posted.
-/

namespace Udp

namespace Socket

open Run

variable {asserts : Bool} {s s' : Socket} {a : Action}

/-- Every finished task holds the result in the entry of its own operation. -/
def OwnResults (s : Socket) : Prop :=
  ∀ t result, s.tasks[t]? = some (.done result) → ⟨t, result⟩ ∈ s.cqes

/-- A task about to take an entry finds its own result there: the entry of its own operation has
been posted, with the `res` of the oldest entry that is not seen. -/
def TakesOwn (asserts : Bool) (s : Socket) : Prop :=
  ∀ t cqe, s.control = .waiting t → s.waitCqe = some cqe →
    s.stops asserts cqe = false → ⟨t, cqe.res⟩ ∈ s.cqes

/-! ### What a step does -/

/-- What holds of the ring and the coroutines whatever the order of events. -/
structure WellFormed (s : Socket) : Prop where
  /-- each operation is in flight or has exactly one entry -/
  ops : (s.cqes.map Cqe.op ++ s.inFlight).Perm (List.range s.tasks.length)
  head_le : s.head ≤ s.cqes.length
  /-- the coroutine that the thread is in has not returned -/
  pending : ∀ t, s.control = .submitted t ∨ s.control = .waiting t → s.tasks[t]? = some .pending
  completed : ∀ t result, s.control = .completed t result → s.tasks[t]? = some (.done result)

lemma wellFormed_init : WellFormed {} where
  ops := by simp
  head_le := le_rfl
  pending := by simp
  completed := by simp

/-- The cases of a step, guards included. -/
inductive Stepped (asserts : Bool) (s : Socket) : Action → Socket → Prop where
  | terminate {a : Action} (hidle : s.control = .idle) (ha : a.isCall) :
      Stepped asserts s a { s with control := .terminated }
  | submit {a : Action} (hidle : s.control = .idle) (ha : a.isCall) :
      Stepped asserts s a (s.submit true)
  | resume {t : ℕ} (hidle : s.control = .idle) (ht : s.tasks[t]? = some .pending) :
      Stepped asserts s (.resume t) { s with control := .waiting t }
  | noop {t : ℕ} (hidle : s.control = .idle) : Stepped asserts s (.resume t) s
  | post {cqe : Cqe} (hop : cqe.op ∈ s.inFlight) :
      Stepped asserts s (.post cqe)
        { s with inFlight := s.inFlight.erase cqe.op, cqes := s.cqes ++ [cqe] }
  | suspend {t : ℕ} (hcontrol : s.control = .submitted t) (hready : s.cqReady = 0) :
      Stepped asserts s .advance { s with control := .idle }
  | wait {t : ℕ} (hcontrol : s.control = .submitted t) (hready : s.cqReady ≠ 0) :
      Stepped asserts s .advance { s with control := .waiting t }
  | abort {t : ℕ} {cqe : Cqe} (hcontrol : s.control = .waiting t) (hcqe : s.waitCqe = some cqe)
      (hstops : s.stops asserts cqe = true) :
      Stepped asserts s .advance { s with control := .terminated }
  | take {t : ℕ} {cqe : Cqe} (hcontrol : s.control = .waiting t) (hcqe : s.waitCqe = some cqe)
      (hstops : s.stops asserts cqe = false) :
      Stepped asserts s .advance { s with
        tasks   := s.tasks.set t (.done cqe.res)
        head    := s.head + 1
        control := .completed t cqe.res }
  | finish {t : ℕ} {result : Int32} (hcontrol : s.control = .completed t result) :
      Stepped asserts s .advance
        { s with tasks := s.tasks.set t (.done result), control := .idle }
  | finishSuspended {t : ℕ} {result : Int32} (hcontrol : s.control = .completed t result) :
      Stepped asserts s .advance { s with control := .idle }

lemma stepped (h : step asserts s a = some s') : Stepped asserts s a s' := by
  cases a with
  | sendAsync address submitted =>
    simp only [step, Option.ite_none_right_eq_some, Option.some.injEq] at h
    obtain ⟨hidle, rfl⟩ := h
    cases address with
    | false => exact .terminate hidle rfl
    | true =>
      cases submitted with
      | false => exact .terminate hidle rfl
      | true => exact .submit hidle rfl
  | receiveAsync submitted =>
    simp only [step, Option.ite_none_right_eq_some, Option.some.injEq] at h
    obtain ⟨hidle, rfl⟩ := h
    cases submitted with
    | false => exact .terminate hidle rfl
    | true => exact .submit hidle rfl
  | resume t =>
    simp only [step, Option.ite_none_right_eq_some] at h
    obtain ⟨hidle, h⟩ := h
    cases ht : s.tasks[t]? with
    | none => simp [ht] at h
    | some task =>
      cases task with
      | pending =>
        simp only [ht, Option.some.injEq] at h
        exact h ▸ .resume hidle ht
      | done result =>
        simp only [ht, Option.some.injEq] at h
        exact h ▸ .noop hidle
  | post cqe =>
    simp only [step, Option.ite_none_right_eq_some, Option.some.injEq] at h
    obtain ⟨hop, rfl⟩ := h
    exact .post hop
  | advance =>
    simp only [step, advance] at h
    cases hcontrol : s.control with
    | idle => simp [hcontrol] at h
    | terminated => simp [hcontrol] at h
    | submitted t =>
      simp only [hcontrol] at h
      split_ifs at h with hready
      · cases h
        exact .suspend hcontrol hready
      · cases h
        exact .wait hcontrol hready
    | waiting t =>
      simp only [hcontrol, Option.map_eq_some_iff] at h
      obtain ⟨cqe, hcqe, rfl⟩ := h
      cases hstops : s.stops asserts cqe with
      | true =>
        rw [reap, if_pos hstops]
        exact .abort hcontrol hcqe hstops
      | false =>
        rw [reap, if_neg (by simp [hstops])]
        exact .take hcontrol hcqe hstops
    | completed t result =>
      simp only [hcontrol] at h
      split_ifs at h with hready
      · cases h
        exact .finishSuspended hcontrol
      · cases h
        exact .finish hcontrol

namespace WellFormed

lemma step (hs : WellFormed s) (h : step asserts s a = some s') : WellFormed s' := by
  cases stepped h with
  | terminate _ _ => exact ⟨hs.ops, hs.head_le, by simp, by simp⟩
  | submit _ _ =>
    refine ⟨?_, hs.head_le, ?_, by simp [Socket.submit]⟩
    · have h := hs.ops.append_right [s.tasks.length]
      simpa [Socket.submit, List.range_succ] using h
    · intro t ht
      simp only [Socket.submit, if_true, Control.submitted.injEq, reduceCtorEq, or_false] at ht ⊢
      subst ht
      simp
  | resume _ ht =>
    refine ⟨hs.ops, hs.head_le, ?_, by simp⟩
    intro t' ht'
    simp only [reduceCtorEq, Control.waiting.injEq, false_or] at ht'
    exact ht' ▸ ht
  | noop _ => exact hs
  | post hop =>
    refine ⟨?_, hs.head_le.trans (by simp), hs.pending, hs.completed⟩
    refine List.Perm.trans ?_ hs.ops
    simp only [List.map_append, List.map_cons, List.map_nil, List.append_assoc]
    exact (List.perm_cons_erase hop).symm.append_left _
  | suspend hcontrol _ => exact ⟨hs.ops, hs.head_le, by simp, by simp⟩
  | wait hcontrol _ =>
    refine ⟨hs.ops, hs.head_le, ?_, by simp⟩
    intro t' ht'
    simp only [reduceCtorEq, Control.waiting.injEq, false_or] at ht'
    exact ht' ▸ hs.pending _ (.inl hcontrol)
  | abort _ _ _ => exact ⟨hs.ops, hs.head_le, by simp, by simp⟩
  | take hcontrol hcqe _ =>
    have ht := hs.pending _ (.inr hcontrol)
    have hhead : s.head < s.cqes.length := (List.getElem?_eq_some_iff.mp hcqe).1
    refine ⟨by simpa using hs.ops, hhead, by simp, ?_⟩
    intro t' result' ht'
    simp only [Control.completed.injEq] at ht'
    obtain ⟨rfl, rfl⟩ := ht'
    have hlt := (List.getElem?_eq_some_iff.mp ht).1
    simp [hlt]
  | finish _ => exact ⟨by simpa using hs.ops, hs.head_le, by simp, by simp⟩
  | finishSuspended _ => exact ⟨hs.ops, hs.head_le, by simp, by simp⟩

/-- The second return of a coroutine stores what it has stored before. -/
lemma set_completed (hs : WellFormed s) {t : ℕ} {result : Int32}
    (hcontrol : s.control = .completed t result) : s.tasks.set t (.done result) = s.tasks := by
  obtain ⟨hlt, hget⟩ := List.getElem?_eq_some_iff.mp (hs.completed t result hcontrol)
  rw [← hget, List.set_getElem_self]

lemma visits {as : List Action} (h : Visits (Socket.step asserts) {} as s) : WellFormed s :=
  h.invariant (fun _ _ _ hs hstep => hs.step hstep) wellFormed_init

end WellFormed

lemma cqes_subset_step (h : step asserts s a = some s') : s.cqes ⊆ s'.cqes := by
  cases stepped h with
  | post _ => exact List.subset_append_left _ _
  | _ => exact List.Subset.refl _

/-- The only step that gives a task a result is the one that takes an entry. -/
lemma done_of_step (hs : WellFormed s) (h : step asserts s a = some s') {t : ℕ} {result : Int32}
    (ht : s'.tasks[t]? = some (.done result)) :
    s.tasks[t]? = some (.done result) ∨ a = .advance ∧ s.control = .waiting t ∧
      ∃ cqe, s.waitCqe = some cqe ∧ s.stops asserts cqe = false ∧ cqe.res = result := by
  cases stepped h with
  | submit _ _ =>
    left
    by_cases hlt : t < s.tasks.length
    · simpa [Socket.submit, List.getElem?_append_left hlt] using ht
    · simp [Socket.submit, List.getElem?_append_right (not_lt.mp hlt),
        List.getElem?_singleton] at ht
  | @take t' cqe hcontrol hcqe hstops =>
    by_cases heq : t' = t
    · subst heq
      right
      refine ⟨rfl, hcontrol, cqe, hcqe, hstops, ?_⟩
      have hlt := (List.getElem?_eq_some_iff.mp (hs.pending _ (.inr hcontrol))).1
      simpa [hlt] using ht
    · left
      simpa [List.getElem?_set_ne heq] using ht
  | finish hcontrol =>
    left
    simpa only [hs.set_completed hcontrol] using ht
  | _ => exact .inl ht

/-! ### The exact condition -/

lemma OwnResults.step (hs : WellFormed s) (hown : s.OwnResults)
    (htakes : a = .advance → s.TakesOwn asserts) (h : step asserts s a = some s') :
    s'.OwnResults := by
  intro t result ht
  apply cqes_subset_step h
  rcases done_of_step hs h ht with ht | ⟨ha, hcontrol, cqe, hcqe, hstops, rfl⟩
  · exact hown t result ht
  · exact htakes ha t cqe hcontrol hcqe hstops

lemma takesOwn_of_step (hs : WellFormed s)
    (h : ∀ s', step asserts s .advance = some s' → s'.OwnResults) : s.TakesOwn asserts := by
  intro t cqe hcontrol hcqe hstops
  have hstep : step asserts s .advance = some (s.reap asserts t cqe) := by
    simp [Socket.step, advance, hcontrol, hcqe]
  have hlt := (List.getElem?_eq_some_iff.mp (hs.pending _ (.inr hcontrol))).1
  have hown := h _ hstep t cqe.res
  simp only [reap, hstops, Bool.false_eq_true, if_false, List.getElem?_set_self hlt] at hown
  exact hown trivial

/-- In all states of a run every finished task holds the result of its own operation, just when
every step of the run that takes an entry finds that result there. -/
theorem ownResults_iff (asserts : Bool) (as : List Action) :
    (∀ s, Visits (step asserts) {} as s → s.OwnResults) ↔
      ∀ s, Takes (step asserts) {} as s .advance → s.TakesOwn asserts := by
  constructor
  · intro h s htakes
    apply takesOwn_of_step (WellFormed.visits htakes.visits_source)
    intro s' hstep
    exact h s' (htakes.visits hstep)
  · intro h s hs
    apply hs.induction
    · intro t result ht
      simp at ht
    · intro s a s' htakes hown hstep
      apply hown.step (WellFormed.visits htakes.visits_source) _ hstep
      rintro rfl
      exact h s htakes

/-- A receive and a send are outstanding, and only the send has completed. The caller resumes the
task of the receive, which then holds the result of the send. -/
theorem not_ownResults_receive_send :
    ¬ ∀ s, Visits (step true) {} [.receiveAsync true, .advance, .sendAsync true true, .advance,
      .post ⟨1, 5⟩, .resume 0, .advance] s → s.OwnResults := by
  intro h
  have hvisits : Visits (step true) {} [.receiveAsync true, .advance, .sendAsync true true,
      .advance, .post ⟨1, 5⟩, .resume 0, .advance]
      { tasks := [.done 5, .pending], inFlight := [0], cqes := [⟨1, 5⟩], head := 1,
        control := .completed 0 5 } := ⟨_, List.prefix_refl _, rfl⟩
  exact absurd (h _ hvisits 0 5 rfl) (by decide)

end Socket

end Udp
