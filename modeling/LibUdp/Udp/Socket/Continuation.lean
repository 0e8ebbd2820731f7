import LibUdp.Udp.Socket.Properties

/-!
# How often a coroutine continues

A coroutine awaits its operation and then the completion. The submit of the completion resumes the
coroutine, which returns, and `await_suspend` then looks at the queue: when it finds a further
entry there, the coroutine goes on a second time.
-/

namespace Udp

namespace Socket

open Run

/-- What a coroutine awaits. -/
inductive Await where
  | operation
  | completion
  deriving DecidableEq

/-- The coroutine that a step lets go on after an `await`: `Task::resume` and an `await_suspend`
that gives `false` do, and so does `complete` in the submit of a completion. -/
def continues (asserts : Bool) (s : Socket) : Action → List (ℕ × Await)
  | .resume t =>
    if s.control = .idle ∧ s.tasks[t]? = some .pending then [(t, .operation)] else []
  | .advance =>
    match s.control with
    | .submitted t => if s.cqReady = 0 then [] else [(t, .operation)]
    | .waiting t =>
      match s.waitCqe with
      | some cqe => if s.stops asserts cqe then [] else [(t, .completion)]
      | none     => []
    | .completed t _ => if s.cqReady = 0 then [] else [(t, .completion)]
    | .idle | .terminated => []
  | _ => []

/-- No coroutine goes on twice from one `await`, or from its final suspend point. -/
structure ContinuesOnce (asserts : Bool) (as : List Action) : Prop where
  once : ∀ s hist, Visits (record (step asserts) (continues asserts)) ({}, []) as (s, hist) →
    ∀ t await, hist.count (t, await) ≤ 1
  live : ∀ s a, Takes (step asserts) {} as s a → ∀ t await, (t, await) ∈ continues asserts s a →
    s.tasks[t]? = some .pending

variable {asserts : Bool} {s s' : Socket} {a : Action} {hist : List (ℕ × Await)}

/-- How far the coroutines have come, told by what they have gone on from. -/
structure Records (s : Socket) (hist : List (ℕ × Await)) : Prop where
  count_le : ∀ t await, hist.count (t, await) ≤ 1
  operation : ∀ t, (t, .operation) ∈ hist → s.tasks[t]? = some .pending →
    s.control = .waiting t ∨ s.control = .terminated
  completion : ∀ t, (t, .completion) ∈ hist → s.tasks[t]? ≠ some .pending
  lt : ∀ t await, (t, await) ∈ hist → t < s.tasks.length

namespace Records

lemma init : Records {} [] where
  count_le := by simp
  operation := by simp
  completion := by simp
  lt := by simp

/-- A step in which no coroutine goes on. -/
lemma congr (h : Records s hist) (hlength : s.tasks.length ≤ s'.tasks.length)
    (hpending : ∀ t < s.tasks.length, s'.tasks[t]? = some .pending → s.tasks[t]? = some .pending)
    (hcontrol : ∀ t, s.control = .waiting t ∨ s.control = .terminated →
      s'.control = .waiting t ∨ s'.control = .terminated) : Records s' hist where
  count_le := h.count_le
  operation t ht hp := hcontrol t (h.operation t ht (hpending t (h.lt _ _ ht) hp))
  completion t ht hp := h.completion t ht (hpending t (h.lt _ _ ht) hp)
  lt t await ht := (h.lt t await ht).trans_le hlength

lemma count_concat (h : Records s hist) {t : ℕ} {await : Await} (hnew : (t, await) ∉ hist)
    (t' : ℕ) (await' : Await) : (hist ++ [(t, await)]).count (t', await') ≤ 1 := by
  rw [List.count_append, List.count_singleton]
  by_cases heq : (t, await) = (t', await')
  · rw [← heq, List.count_eq_zero_of_not_mem hnew]
    simp
  · simpa [heq] using h.count_le t' await'

/-- A pending coroutine goes on from its operation. -/
lemma goOn (h : Records s hist) {t : ℕ} (hpending : s.tasks[t]? = some .pending)
    (hcontrol : s.control = .idle ∨ s.control = .submitted t) :
    Records { s with control := .waiting t } (hist ++ [(t, .operation)]) := by
  have hnew : ∀ t', (t', .operation) ∈ hist → s.tasks[t']? ≠ some .pending := by
    intro t' ht' hp
    rcases hcontrol with hcontrol | hcontrol
    · simpa [hcontrol] using h.operation t' ht' hp
    · simpa [hcontrol] using h.operation t' ht' hp
  refine ⟨h.count_concat fun ht => hnew t ht hpending, ?_, ?_, ?_⟩
  · intro t' ht' hp
    rcases List.mem_append.mp ht' with ht' | ht'
    · exact absurd hp (hnew t' ht')
    · obtain ⟨rfl, -⟩ := Prod.mk.inj (List.mem_singleton.mp ht')
      exact .inl rfl
  · intro t' ht'
    rcases List.mem_append.mp ht' with ht' | ht'
    · exact h.completion t' ht'
    · cases List.mem_singleton.mp ht'
  · intro t' await ht'
    rcases List.mem_append.mp ht' with ht' | ht'
    · exact h.lt t' await ht'
    · obtain ⟨rfl, -⟩ := Prod.mk.inj (List.mem_singleton.mp ht')
      exact (List.getElem?_eq_some_iff.mp hpending).1

/-- The coroutine that waits for an entry goes on from its completion and returns. -/
lemma complete (h : Records s hist) {t : ℕ} {result : Int32} {head : ℕ}
    (hpending : s.tasks[t]? = some .pending) (hcontrol : s.control = .waiting t) :
    Records { s with tasks := s.tasks.set t (.done result), head, control := .completed t result }
      (hist ++ [(t, .completion)]) := by
  have hlt := (List.getElem?_eq_some_iff.mp hpending).1
  refine ⟨h.count_concat fun ht => h.completion t ht hpending, ?_, ?_, ?_⟩
  · intro t' ht' hp
    rcases List.mem_append.mp ht' with ht' | ht'
    · -- the only pending task that has gone on is the one that completes now
      have hne : t ≠ t' := by
        rintro rfl
        simp [hlt] at hp
      have hp' : s.tasks[t']? = some .pending := by simpa [List.getElem?_set_ne hne] using hp
      rcases h.operation t' ht' hp' with hwaiting | hterminated
      · rw [hcontrol] at hwaiting
        exact absurd (Control.waiting.inj hwaiting) hne
      · rw [hcontrol] at hterminated
        cases hterminated
    · cases List.mem_singleton.mp ht'
  · intro t' ht' hp
    rcases List.mem_append.mp ht' with ht' | ht'
    · have hne : t ≠ t' := by
        rintro rfl
        simp [hlt] at hp
      exact h.completion t' ht' (by simpa [List.getElem?_set_ne hne] using hp)
    · obtain ⟨rfl, -⟩ := Prod.mk.inj (List.mem_singleton.mp ht')
      simp [hlt] at hp
  · intro t' await ht'
    rcases List.mem_append.mp ht' with ht' | ht'
    · simpa using h.lt t' await ht'
    · obtain ⟨rfl, -⟩ := Prod.mk.inj (List.mem_singleton.mp ht')
      simpa using hlt

lemma step (hs : WellFormed s) (h : Records s hist)
    (hempty : a = .advance → ∀ t result, s.control = .completed t result → s.cqReady = 0)
    (hstep : step asserts s a = some s') : Records s' (hist ++ continues asserts s a) := by
  cases stepped hstep with
  | terminate hidle ha =>
    have hnone : continues asserts s a = [] := by cases a <;> first | rfl | cases ha
    rw [hnone, List.append_nil]
    exact h.congr le_rfl (fun _ _ hp => hp) fun _ _ => .inr rfl
  | submit hidle ha =>
    have hnone : continues asserts s a = [] := by cases a <;> first | rfl | cases ha
    rw [hnone, List.append_nil]
    refine h.congr (by simp [Socket.submit]) ?_ (by simp [hidle])
    intro t ht hp
    simpa [Socket.submit, List.getElem?_append_left ht] using hp
  | @resume t hidle ht =>
    have hone : continues asserts s (.resume t) = [(t, .operation)] := if_pos ⟨hidle, ht⟩
    rw [hone]
    exact h.goOn ht (.inl hidle)
  | @noop t hidle =>
    have hdone : s.tasks[t]? ≠ some .pending := by
      intro hp
      simp only [Socket.step, hidle, hp, if_true, Option.some.injEq] at hstep
      have hcontrol := congrArg Socket.control hstep
      rw [hidle] at hcontrol
      cases hcontrol
    have hnone : continues asserts s (.resume t) = [] := if_neg fun hp => hdone hp.2
    rw [hnone, List.append_nil]
    exact h
  | post _ =>
    exact (List.append_nil hist).symm ▸ h.congr le_rfl (fun _ _ hp => hp) fun _ hc => hc
  | suspend hcontrol hready =>
    have hnone : continues asserts s .advance = [] := by simp [continues, hcontrol, hready]
    rw [hnone, List.append_nil]
    exact h.congr le_rfl (fun _ _ hp => hp) (by simp [hcontrol])
  | @wait t hcontrol hready =>
    have hone : continues asserts s .advance = [(t, .operation)] := by
      simp [continues, hcontrol, hready]
    rw [hone]
    exact h.goOn (hs.pending t (.inl hcontrol)) (.inr hcontrol)
  | abort hcontrol hcqe hstops =>
    have hnone : continues asserts s .advance = [] := by simp [continues, hcontrol, hcqe, hstops]
    rw [hnone, List.append_nil]
    exact h.congr le_rfl (fun _ _ hp => hp) fun _ _ => .inr rfl
  | @take t _ hcontrol hcqe hstops =>
    have hone : continues asserts s .advance = [(t, .completion)] := by
      simp [continues, hcontrol, hcqe, hstops]
    rw [hone]
    exact h.complete (hs.pending t (.inr hcontrol)) hcontrol
  | finish hcontrol =>
    have hnone : continues asserts s .advance = [] := by
      simp [continues, hcontrol, hempty rfl _ _ hcontrol]
    rw [hnone, List.append_nil, hs.set_completed hcontrol]
    exact h.congr le_rfl (fun _ _ hp => hp) (by simp [hcontrol])
  | finishSuspended hcontrol =>
    have hnone : continues asserts s .advance = [] := by
      simp [continues, hcontrol, hempty rfl _ _ hcontrol]
    rw [hnone, List.append_nil]
    exact h.congr le_rfl (fun _ _ hp => hp) (by simp [hcontrol])

end Records

/-- Who goes on is pending, unless a completion has found a further entry. -/
lemma pending_of_continues (hs : WellFormed s)
    (hempty : a = .advance → ∀ t result, s.control = .completed t result → s.cqReady = 0)
    {t : ℕ} {await : Await} (h : (t, await) ∈ continues asserts s a) :
    s.tasks[t]? = some .pending := by
  cases a with
  | resume t' =>
    rw [continues] at h
    split_ifs at h with hp
    · obtain ⟨rfl, -⟩ := Prod.mk.inj (List.mem_singleton.mp h)
      exact hp.2
    · cases h
  | advance =>
    rw [continues] at h
    cases hcontrol : s.control with
    | submitted t' =>
      simp only [hcontrol] at h
      split_ifs at h
      · cases h
      · obtain ⟨rfl, -⟩ := Prod.mk.inj (List.mem_singleton.mp h)
        exact hs.pending t (.inl hcontrol)
    | waiting t' =>
      simp only [hcontrol] at h
      split at h
      · split_ifs at h
        · cases h
        · obtain ⟨rfl, -⟩ := Prod.mk.inj (List.mem_singleton.mp h)
          exact hs.pending t (.inr hcontrol)
      · cases h
    | completed t' result =>
      simp [hcontrol, hempty rfl t' result hcontrol] at h
    | idle => simp [hcontrol] at h
    | terminated => simp [hcontrol] at h
  | _ => cases h

/-- In a run every coroutine goes on at most once from each `await` and never from its final
suspend point, just when no completion finds a further entry in the queue after its submit. -/
theorem continuesOnce_iff (asserts : Bool) (as : List Action) :
    ContinuesOnce asserts as ↔ ∀ s t result, Takes (step asserts) {} as s .advance →
      s.control = .completed t result → s.cqReady = 0 := by
  constructor
  · intro h s t result htakes hcontrol
    by_contra hready
    have hmem : (t, .completion) ∈ continues asserts s .advance := by
      simp [continues, hcontrol, hready]
    have hpending := h.live s .advance htakes t .completion hmem
    rw [(WellFormed.visits htakes.visits_source).completed t result hcontrol] at hpending
    cases hpending
  · intro hempty
    have hstate : ∀ p, Visits (record (step asserts) (continues asserts)) ({}, []) as p →
        Records p.1 p.2 := by
      intro p hp
      apply hp.induction (P := fun p => Records p.1 p.2) Records.init
      rintro ⟨s, hist⟩ a q htakes h hstep
      have htakes' := takes_record_iff.mp ⟨hist, htakes⟩
      obtain ⟨s', hs', rfl⟩ := record_eq_some_iff.mp hstep
      refine Records.step (WellFormed.visits htakes'.visits_source) h ?_ hs'
      rintro rfl t result
      exact hempty s t result htakes'
    constructor
    · intro s hist hvisits
      exact (hstate _ hvisits).count_le
    · intro s a htakes t await hmem
      refine pending_of_continues (WellFormed.visits htakes.visits_source) ?_ hmem
      rintro rfl t result
      exact hempty s t result htakes

/-- Both operations have completed when the first task takes an entry, so the coroutine returns
twice. -/
theorem not_continuesOnce_receive_send :
    ¬ ContinuesOnce true [.receiveAsync true, .advance, .sendAsync true true, .advance,
      .post ⟨0, 5⟩, .post ⟨1, 2⟩, .resume 0, .advance, .advance] := by
  intro h
  have hpending := h.live
    { tasks := [.done 5, .pending], cqes := [⟨0, 5⟩, ⟨1, 2⟩], head := 1,
      control := .completed 0 5 } .advance
    ⟨[_, _, _, _, _, _, _, _], List.prefix_refl _, rfl, rfl⟩ 0 .completion (by decide)
  cases hpending

end Socket

end Udp
