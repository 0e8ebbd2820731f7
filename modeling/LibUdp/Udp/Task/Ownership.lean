import LibUdp.Resource.Owner
import LibUdp.Udp.Task.Basic
import Mathlib.Data.Finset.Lattice.Lemmas

/-!
# What a task owns

A frame has one handle, and one `Task` has it until it destroys the frame. That is all there is to
the life of a frame whose coroutine suspends at its end. Where it does not, the runtime destroys
the frame while a `Task` still has the handle.
-/

namespace Udp.Frames

open Run Ledger

/-- What becomes of the frames in a run: none is destroyed twice or used after it is destroyed, and
all of them are destroyed once there are no tasks. -/
structure DestroyedOnce (p : PromiseType) (as : List Action) : Prop where
  sound    : ∀ s, Visits (step p) {} as s → Sound s.ledger
  released : ∀ s, Visits (step p) {} as s → (∀ i, s.tasks i = none) → ReleasedOnce s.ledger
  live     : ∀ s a f, Takes (step p) {} as s a → a.uses s = some f → f ∈ live s.ledger

/-! ### Handles -/

/-- What happens to the handle of a frame, which outlives the frame that the runtime destroys. -/
def Event.handleEntry : Event → Option (Entry ℕ)
  | .created f            => some (.acquire f)
  | .destroyedByTask f    => some (.release f)
  | .destroyedByRuntime _ => none

/-- The ledger of the handles. -/
def State.handles (s : State) : List (Entry ℕ) := s.history.filterMap Event.handleEntry

variable {p : PromiseType} {s s' : State} {a : Action} {as : List Action} {i dst src f : ℕ}

/-- What the task at a place owns. -/
def State.own (s : State) (i : ℕ) : Set ℕ := {f | s.handle i = some f}

/-- Every handle that was not used to destroy its frame is in one task. -/
structure Consistent (s : State) : Prop where
  sound : Sound s.handles
  owned : Owned (live s.handles) s.own
  kept  : leaked (live s.handles) s.own = ∅
  fresh : ∀ f ∈ live s.handles, f < s.statuses.length

lemma handle_put (s : State) (i : ℕ) (task : Option (Option ℕ)) :
    (s.put i task).handle = Function.update s.handle i task.join := by
  funext j
  by_cases hj : j = i
  · subst hj
    simp [State.handle, State.put]
  · simp [State.handle, State.put, hj]

lemma own_put (s : State) (i : ℕ) (task : Option (Option ℕ)) :
    (s.put i task).own = Function.update s.own i {f | task.join = some f} := by
  funext j
  rw [State.own, handle_put]
  by_cases hj : j = i
  · subst hj
    simp
  · simp [State.own, hj]

lemma own_takeHandle (s : State) (dst src : ℕ) : (s.takeHandle dst src).own =
    Function.update (Function.update s.own dst (s.own src)) src ∅ := by
  rw [State.takeHandle, own_put, own_put]
  simp [State.own]

lemma own_create (p : PromiseType) (s : State) (i : ℕ) :
    (create p s i).own = Function.update s.own i ({s.statuses.length} : Finset ℕ) := by
  have hput : (create p s i).own = (s.put i (some (some s.statuses.length))).own := rfl
  have hframe : {f | (some (some s.statuses.length)).join = some f} =
      (({s.statuses.length} : Finset ℕ) : Set ℕ) := by
    ext f
    simp [eq_comm]
  rw [hput, own_put, hframe]

lemma own_init : State.own {} = fun _ => ∅ := by
  funext i
  simp [State.own, State.handle]

lemma own_eq_singleton (h : s.handle i = some f) : s.own i = ({f} : Finset ℕ) := by
  ext f'
  simp [State.own, h, eq_comm]

lemma own_eq_empty (h : s.handle i = none) : s.own i = ∅ := by
  simp [State.own, h]

lemma handles_create (p : PromiseType) (s : State) (i : ℕ) :
    (create p s i).handles = s.handles ++ [.acquire s.statuses.length] :=
  List.filterMap_append

lemma handles_destroyHandle_some (s : State) (f : ℕ) :
    (s.destroyHandle (some f)).handles = s.handles ++ [.release f] :=
  List.filterMap_append

namespace Consistent

lemma init : Consistent {} where
  sound := Sound.nil
  owned := own_init ▸ Owned.empty
  kept := (live_eq_empty_iff fun i => congrFun own_init i).mp rfl
  fresh f hf := absurd hf (Finset.notMem_empty f)

lemma create (h : Consistent s) (hi : s.handle i = none) : Consistent (create p s i) := by
  have hnew : ∀ f ∈ ({s.statuses.length} : Finset ℕ), f ∉ live s.handles := by
    intro f hf hmem
    rw [Finset.mem_singleton] at hf
    exact absurd (h.fresh f hmem) (hf ▸ lt_irrefl _)
  have hlive : live (Frames.create p s i).handles = {s.statuses.length} ∪ live s.handles := by
    rw [handles_create, live_acquire, Finset.insert_eq]
  constructor
  · rw [handles_create]
    exact h.sound.acquire (hnew _ (Finset.mem_singleton_self _))
  · rw [hlive, own_create]
    exact h.owned.acquire hnew
  · rw [hlive, own_create, Owned.leaked_acquire hnew (own_eq_empty hi), h.kept]
  · intro f hf
    have hlength : (Frames.create p s i).statuses.length = s.statuses.length + 1 :=
      List.length_append
    rw [hlive, Finset.mem_union, Finset.mem_singleton] at hf
    rw [hlength]
    rcases hf with rfl | hf
    · exact Nat.lt_succ_self _
    · exact Nat.lt_succ_of_lt (h.fresh f hf)

lemma congr (h : Consistent s) (hhandles : s'.handles = s.handles) (hown : s'.own = s.own)
    (hlength : s'.statuses.length = s.statuses.length) : Consistent s' := by
  constructor
  · rw [hhandles]
    exact h.sound
  · rw [hhandles, hown]
    exact h.owned
  · rw [hhandles, hown]
    exact h.kept
  · rw [hhandles, hlength]
    exact h.fresh

/-- A place whose task has no handle may get another task without one, or none. -/
lemma put (h : Consistent s) (hi : s.handle i = none) {task : Option (Option ℕ)}
    (htask : task.join = none) : Consistent (s.put i task) := by
  refine h.congr rfl ?_ rfl
  have hempty : {f | task.join = some f} = s.own i := by simp [State.own, htask, hi]
  rw [own_put, hempty, Function.update_eq_self]

/-- The task at a place is gone or has given up its handle, and the frame is destroyed. -/
lemma destroy (h : Consistent s) (i : ℕ) {task : Option (Option ℕ)} (htask : task.join = none) :
    Consistent ((s.destroyHandle (s.handle i)).put i task) := by
  cases hi : s.handle i with
  | none => exact h.put hi htask
  | some f =>
    have hhandles : ((s.destroyHandle (some f)).put i task).handles = s.handles ++ [.release f] :=
      handles_destroyHandle_some s f
    have hlive : live ((s.destroyHandle (some f)).put i task).handles = live s.handles \ {f} := by
      rw [hhandles, live_release, Finset.sdiff_singleton_eq_erase]
    have hown : ((s.destroyHandle (some f)).put i task).own = Function.update s.own i ∅ := by
      have hempty : {f | task.join = some f} = ∅ := by simp [htask]
      rw [own_put, hempty]
      rfl
    have hi' := own_eq_singleton hi
    refine ⟨?_, ?_, ?_, ?_⟩
    · rw [hhandles]
      exact h.sound.release (h.owned.mem_live i f hi)
    · rw [hlive, hown]
      exact h.owned.release hi'
    · rw [hlive, hown, Owned.leaked_release hi', h.kept]
    · intro f' hf'
      rw [hlive, Finset.mem_sdiff] at hf'
      exact (h.fresh f' hf'.1).trans_eq List.length_set.symm

lemma takeHandle (h : Consistent s) (hne : dst ≠ src) (hdst : s.handle dst = none) :
    Consistent (s.takeHandle dst src) := by
  refine ⟨h.sound, ?_, ?_, h.fresh⟩
  · rw [own_takeHandle]
    exact h.owned.move hne
  · have hleaked := h.owned.leaked_move hne
    rw [h.kept, own_eq_empty hdst, Set.union_empty, ← own_takeHandle] at hleaked
    exact hleaked

end Consistent

/-! ### Steps -/

/-- The steps, by what they do to frames and handles. -/
inductive Steps (p : PromiseType) (s : State) : Action → State → Prop
  | create {i : ℕ} (hi : s.handle i = none) : Steps p s (.create i) (create p s i)
  | construct {i : ℕ} (hi : s.handle i = none) :
      Steps p s (.construct i) (s.put i (some none))
  | takeHandle {dst src : ℕ} (hne : dst ≠ src) (hdst : s.handle dst = none) :
      Steps p s (.moveConstruct dst src) (s.takeHandle dst src)
  | moveAssign {dst src : ℕ} (hne : dst ≠ src) :
      Steps p s (.moveAssign dst src) ((s.destroyHandle (s.handle dst)).takeHandle dst src)
  | destroy {i : ℕ} :
      Steps p s (.destroy i) ((s.destroyHandle (s.handle i)).put i none)
  /-- the runtime destroys the frame -/
  | complete {f : ℕ} (hnever : p.finalSuspend = .never) :
      Steps p s (.complete f) { s with
        statuses := s.statuses.set f .destroyed
        history  := s.history ++ [.destroyedByRuntime f] }
  /-- at most the status of a coroutine changes -/
  | goOn {a : Action} {statuses : List Status} (hlength : statuses.length = s.statuses.length)
      (ha : ∀ f, a = .complete f → p.finalSuspend = .always) :
      Steps p s a { s with statuses }

lemma handle_eq_none (h : (s.tasks i).isNone) : s.handle i = none := by
  rw [State.handle, Option.isNone_iff_eq_none.mp h]
  rfl

lemma goOn_eq_some {old new : Status} (h : s.goOn f old new = some s') :
    s' = { s with statuses := s.statuses.set f new } := by
  rw [State.goOn, Option.ite_none_right_eq_some] at h
  exact (Option.some.inj h.2).symm

lemma Steps.of_goOn {old new : Status} (h : s.goOn f old new = some s')
    (ha : ∀ f, a = .complete f → p.finalSuspend = .always) : Steps p s a s' := by
  rw [goOn_eq_some h]
  exact .goOn List.length_set ha

lemma Steps.refl (ha : ∀ f, a = .complete f → p.finalSuspend = .always) : Steps p s a s :=
  .goOn rfl ha

lemma steps_of_step (h : step p s a = some s') : Steps p s a s' := by
  cases a with
  | create i =>
    rw [step, Option.ite_none_right_eq_some] at h
    obtain ⟨hi, h⟩ := h
    cases h
    exact .create (handle_eq_none hi)
  | construct i =>
    rw [step, Option.ite_none_right_eq_some] at h
    obtain ⟨hi, h⟩ := h
    cases h
    exact .construct (handle_eq_none hi)
  | suspend f => exact .of_goOn h nofun
  | wake f => exact .of_goOn h nofun
  | complete f =>
    cases hfinal : p.finalSuspend with
    | always =>
      rw [step, complete, hfinal] at h
      exact .of_goOn h fun _ _ => hfinal
    | never =>
      rw [step, complete, hfinal] at h
      obtain ⟨t, ht, rfl⟩ := Option.map_eq_some_iff.mp h
      rw [goOn_eq_some ht]
      exact .complete hfinal
  | moveConstruct dst src =>
    rw [step, Option.ite_none_right_eq_some] at h
    obtain ⟨⟨hdst, hsrc⟩, h⟩ := h
    cases h
    refine .takeHandle ?_ (handle_eq_none hdst)
    rintro rfl
    rw [Option.isNone_iff_eq_none.mp hdst] at hsrc
    cases hsrc
  | moveAssign dst src =>
    rw [step, Option.ite_none_right_eq_some] at h
    obtain ⟨-, h⟩ := h
    split_ifs at h with heq
    · cases h
      exact .refl nofun
    · cases h
      exact .moveAssign heq
  | destroy i =>
    rw [step, Option.ite_none_right_eq_some] at h
    obtain ⟨-, h⟩ := h
    cases h
    exact .destroy
  | resume i =>
    rw [step, Option.ite_none_right_eq_some] at h
    obtain ⟨-, h⟩ := h
    cases h
    cases s.handle i with
    | none => exact .refl nofun
    | some f =>
      rw [Option.elim_some]
      cases hgoOn : s.goOn f .suspended .running with
      | none => exact .refl nofun
      | some t => exact .of_goOn hgoOn nofun
  | query i =>
    rw [step, Option.ite_none_right_eq_some] at h
    obtain ⟨-, h⟩ := h
    cases h
    exact .refl nofun

/-- A move assignment destroys the frame of the target, which then takes the other handle. -/
lemma takeHandle_destroyHandle (hne : dst ≠ src) :
    (s.destroyHandle (s.handle dst)).takeHandle dst src =
      ((s.destroyHandle (s.handle dst)).put dst (some none)).takeHandle dst src := by
  have hsrc : ∀ t : State, (t.put dst (some none)).handle src = t.handle src := by
    intro t
    rw [handle_put, Function.update_of_ne hne.symm]
  have hput : ∀ (t : State) (task : Option (Option ℕ)),
      (t.put dst (some none)).put dst task = t.put dst task := by
    intro t task
    simp [State.put]
  rw [State.takeHandle, State.takeHandle, hsrc, hput]

/-- Every step keeps every handle in one task. -/
lemma Consistent.step (h : Consistent s) (hstep : step p s a = some s') : Consistent s' := by
  cases steps_of_step hstep with
  | create hi => exact h.create hi
  | construct hi => exact h.put hi rfl
  | takeHandle hne hdst => exact h.takeHandle hne hdst
  | moveAssign hne =>
    rw [takeHandle_destroyHandle hne]
    refine (h.destroy _ rfl).takeHandle hne ?_
    rw [handle_put, Function.update_self]
    rfl
  | destroy => exact h.destroy _ rfl
  | complete hnever =>
    exact h.congr (List.filterMap_append.trans (List.append_nil _)) rfl List.length_set
  | goOn hlength ha => exact h.congr rfl rfl hlength

/-! ### The two ledgers -/

/-- The runtime destroys the frames of the coroutines that get to their end without suspending. -/
lemma history_of_step (h : step p s a = some s') : ∃ events, s'.history = s.history ++ events ∧
    ∀ f, .destroyedByRuntime f ∈ events ↔ p.finalSuspend = .never ∧ a = .complete f := by
  have hdestroy : ∀ o : Option ℕ, (s.destroyHandle o).history =
      s.history ++ o.toList.map .destroyedByTask := by
    intro o
    cases o with
    | none => exact (List.append_nil _).symm
    | some f => rfl
  cases steps_of_step h with
  | create hi => exact ⟨[.created s.statuses.length], rfl, by simp⟩
  | construct hi => exact ⟨[], (List.append_nil _).symm, by simp⟩
  | takeHandle hne hdst => exact ⟨[], (List.append_nil _).symm, by simp⟩
  | @moveAssign dst src hne =>
    exact ⟨(s.handle dst).toList.map .destroyedByTask, hdestroy _, by simp⟩
  | @destroy i => exact ⟨(s.handle i).toList.map .destroyedByTask, hdestroy _, by simp⟩
  | @complete f hnever => exact ⟨[.destroyedByRuntime f], rfl, by simp [hnever, eq_comm]⟩
  | goOn hlength ha =>
    refine ⟨[], (List.append_nil _).symm, fun f => ⟨nofun, ?_⟩⟩
    rintro ⟨hnever, rfl⟩
    rw [ha f rfl] at hnever
    cases hnever

lemma mem_history_iff (h : exec (step p) {} as = some s) (f : ℕ) :
    .destroyedByRuntime f ∈ s.history ↔ p.finalSuspend = .never ∧ .complete f ∈ as := by
  induction as using List.reverseRecOn generalizing s with
  | nil =>
    cases h
    simp
  | append_singleton as a ih =>
    obtain ⟨t, ht, hstep⟩ := exec_concat_eq_some_iff.mp h
    obtain ⟨events, hevents, hmem⟩ := history_of_step hstep
    rw [hevents, List.mem_append, ih ht, hmem, List.mem_append, List.mem_singleton, ← and_or_left,
      eq_comm (a := a)]

/-- Where the runtime does not destroy frames, a frame lives as long as its handle. -/
lemma ledger_eq_handles (h : ∀ f, .destroyedByRuntime f ∉ s.history) : s.ledger = s.handles := by
  have hentry : ∀ e ∈ s.history, e.handleEntry = some e.entry := by
    intro e he
    cases e with
    | created f => rfl
    | destroyedByTask f => rfl
    | destroyedByRuntime f => exact absurd he (h f)
  rw [State.handles, List.filterMap_congr hentry]
  exact List.filterMap_eq_map.symm ▸ rfl

lemma count_acquire (s : State) (f : ℕ) :
    s.ledger.count (.acquire f) = s.handles.count (.acquire f) := by
  rw [State.ledger, State.handles]
  induction s.history with
  | nil => rfl
  | cons e history ih =>
    cases e <;> simp [Event.entry, Event.handleEntry, List.count_cons, List.filterMap_cons, ih]

lemma count_release (s : State) (f : ℕ) : s.ledger.count (.release f) =
    s.handles.count (.release f) + s.history.count (.destroyedByRuntime f) := by
  rw [State.ledger, State.handles]
  induction s.history with
  | nil => rfl
  | cons e history ih =>
    cases e <;> simp [Event.entry, Event.handleEntry, List.count_cons, List.filterMap_cons, ih] <;>
      omega

/-! ### Runs -/

lemma consistent_of_visits (h : Visits (step p) {} as s) : Consistent s :=
  h.invariant (fun _ _ _ hs hstep => hs.step hstep) Consistent.init

/-- The handles of all tasks have been used when there are no tasks. -/
lemma Consistent.releasedOnce (h : Consistent s) (hnone : ∀ i, s.tasks i = none) :
    ReleasedOnce s.handles := by
  rw [h.sound.releasedOnce_iff_live]
  refine (live_eq_empty_iff fun i => own_eq_empty ?_).mpr h.kept
  rw [State.handle, hnone i]
  rfl

lemma ledger_eq_handles_of_visits (h : p.finalSuspend = .always ∨ ∀ f, .complete f ∉ as)
    (hvisits : Visits (step p) {} as s) : s.ledger = s.handles := by
  obtain ⟨pre, hpre, hexec⟩ := hvisits
  refine ledger_eq_handles fun f hf => ?_
  obtain ⟨hnever, hcomplete⟩ := (mem_history_iff hexec f).mp hf
  rcases h with halways | hnone
  · rw [halways] at hnever
    cases hnever
  · exact hnone f (hpre.subset hcomplete)

lemma handle_of_uses (h : a.uses s = some f) : ∃ i, s.handle i = some f := by
  cases a with
  | destroy i => exact ⟨i, h⟩
  | resume i => exact ⟨i, h⟩
  | query i => exact ⟨i, h⟩
  | moveAssign dst src =>
    rw [Action.uses] at h
    split_ifs at h
    exact ⟨dst, h⟩
  | _ => cases h

lemma destroyedOnce_of (h : p.finalSuspend = .always ∨ ∀ f, .complete f ∉ as) :
    DestroyedOnce p as := by
  constructor
  · intro s hvisits
    rw [ledger_eq_handles_of_visits h hvisits]
    exact (consistent_of_visits hvisits).sound
  · intro s hvisits hnone
    rw [ledger_eq_handles_of_visits h hvisits]
    exact (consistent_of_visits hvisits).releasedOnce hnone
  · intro s a f htakes huses
    have hvisits := htakes.visits_source
    obtain ⟨i, hi⟩ := handle_of_uses huses
    rw [ledger_eq_handles_of_visits h hvisits]
    exact (consistent_of_visits hvisits).owned.mem_live i f hi

/-- A frame that the runtime destroys is destroyed by a task as well, once there are none. -/
lemma not_releasedOnce (hnever : p.finalSuspend = .never) (hexec : exec (step p) {} as = some s)
    (hnone : ∀ i, s.tasks i = none) (hcomplete : .complete f ∈ as) : ¬ ReleasedOnce s.ledger := by
  intro h
  have hs : Consistent s := consistent_of_visits ⟨as, List.prefix_rfl, hexec⟩
  have hhandles := (hs.releasedOnce hnone).count_eq f
  have hledger := h.count_eq f
  have hmem : .destroyedByRuntime f ∈ s.history :=
    (mem_history_iff hexec f).mpr ⟨hnever, hcomplete⟩
  have hpos := List.count_pos_iff.mpr hmem
  rw [count_acquire, count_release] at hledger
  omega

/-- The frames of `Task<T>` and `Task<mesh::Node*>` are destroyed once in every run. Those of
`Task<std::any>` are as long as no coroutine gets to its end, and not in any run where one does
and that leaves no tasks behind. -/
theorem destroyedOnce_iff (as : List Action) :
    DestroyedOnce .task as ∧ DestroyedOnce .nodeTask as ∧
      ((∀ f, .complete f ∉ as) → DestroyedOnce .anyTask as) ∧
      ∀ s, exec (step .anyTask) {} as = some s → (∀ i, s.tasks i = none) →
        (DestroyedOnce .anyTask as ↔ ∀ f, .complete f ∉ as) := by
  refine ⟨destroyedOnce_of (.inl rfl), destroyedOnce_of (.inl rfl),
    fun h => destroyedOnce_of (.inr h), fun s hexec hnone => ?_⟩
  refine ⟨fun h f hcomplete => ?_, fun h => destroyedOnce_of (.inr h)⟩
  exact not_releasedOnce rfl hexec hnone hcomplete
    (h.released s ⟨as, List.prefix_rfl, hexec⟩ hnone)

theorem destroyedOnce_of_suspended :
    (∀ f, .complete f ∉ [Action.create 0, .suspend 0, .moveConstruct 1 0, .destroy 1]) ∧
      DestroyedOnce .anyTask [.create 0, .suspend 0, .moveConstruct 1 0, .destroy 1] :=
  ⟨by simp, (destroyedOnce_iff _).2.2.1 (by simp)⟩

/-- A coroutine that returns `Task<std::any>` gets to its end, and then its task is destroyed. -/
theorem not_destroyedOnce_anyTask :
    ((exec (step .anyTask) {} [.create 0, .complete 0, .destroy 0]).map State.history =
      some [.created 0, .destroyedByRuntime 0, .destroyedByTask 0]) ∧
    ¬ ∀ p ∈ [PromiseType.task, .nodeTask, .anyTask], ∀ as, DestroyedOnce p as := by
  refine ⟨rfl, ?_⟩
  intro h
  have hrun := h .anyTask (by simp) [.create 0, .complete 0, .destroy 0]
  have htakes : Takes (step .anyTask) {} [.create 0, .complete 0, .destroy 0] _ (.destroy 0) :=
    ⟨[.create 0, .complete 0], List.prefix_rfl, rfl, rfl⟩
  have hlive := hrun.live _ _ 0 htakes rfl
  exact absurd hlive (by decide)

end Udp.Frames
