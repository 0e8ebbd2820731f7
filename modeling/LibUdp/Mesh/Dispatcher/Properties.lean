import LibUdp.Mesh.Dispatcher.Basic

/-!
# Which handlers a dispatch calls
-/

namespace Mesh

open Run

variable {E H : Type} {getType : E → Text}

namespace Dispatch

/-- The dispatch has called the handlers that were subscribed when it began, with its event. -/
def IsExact (d : Dispatch E H) : Prop := d.invoked = d.subscribed.map (·, d.event)

/-- What a dispatch keeps, whatever its handlers do. -/
structure Counted (d : Dispatch E H) : Prop where
  position : d.invoked.length = d.position
  stop     : d.subscribed.length = d.stop

/-- The loop of a dispatch whose handlers are `handlers`. -/
structure Iterates (handlers : List H) (d : Dispatch E H) : Prop where
  valid      : d.valid = true
  subscribed : d.subscribed = handlers
  le         : d.position ≤ d.stop
  invoked    : d.invoked = (d.subscribed.take d.position).map (·, d.event)

end Dispatch

/-- The predicate holds of all dispatches in progress. -/
def DispatchFrame.AllDispatches (P : Dispatch E H → Prop) (stack : List (DispatchFrame E H)) :
    Prop :=
  ∀ d, .dispatch d ∈ stack → P d

namespace Dispatcher

variable {s s' : Dispatcher E H} {a : Action E H} {P : Dispatch E H → Prop}
  {below stack : List (DispatchFrame E H)} {d : Dispatch E H}

open DispatchFrame

@[simp] lemma allDispatches_nil : AllDispatches P [] := by simp [AllDispatches]

@[simp] lemma allDispatches_handler :
    AllDispatches P (.handler :: stack) ↔ AllDispatches P stack := by
  simp [AllDispatches]

@[simp] lemma allDispatches_dispatch :
    AllDispatches P (.dispatch d :: stack) ↔ P d ∧ AllDispatches P stack := by
  simp [AllDispatches]

/-! ### Steps -/

/-- What a step can do. -/
inductive Stepped (getType : E → Text) (s : Dispatcher E H) :
    Action E H → Dispatcher E H → Prop where
  | subscribe {eventType : Text} {handler : H} {reallocates : Bool} :
      Stepped getType s (.subscribe eventType handler reallocates)
        (s.subscribe getType eventType handler reallocates)
  | dispatch {event : E} : Stepped getType s (.dispatch event) (s.dispatch getType event)
  | leave {d : Dispatch E H} {below : List (DispatchFrame E H)}
      (hstack : s.stack = .dispatch d :: below)
      (hstop : d.position = d.stop) :
      Stepped getType s .advance { s with stack := below, ended := s.ended ++ [d] }
  | invoke {d : Dispatch E H} {below : List (DispatchFrame E H)} {handler : H}
      (hstack : s.stack = .dispatch d :: below) (hstop : d.position ≠ d.stop)
      (hhandler : (s.handlers (getType d.event))[d.position]? = some handler) :
      Stepped getType s .advance { s with
        stack := .handler :: .dispatch { d with
          position := d.position + 1
          invoked  := d.invoked ++ [(handler, d.event)] } :: below }
  | derail {d : Dispatch E H} {below : List (DispatchFrame E H)}
      (hstack : s.stack = .dispatch d :: below)
      (hbad : d.valid = false ∨
        d.position ≠ d.stop ∧ (s.handlers (getType d.event))[d.position]? = none) :
      Stepped getType s .advance { s with undefined := true }
  | back {d : Dispatch E H} {below : List (DispatchFrame E H)}
      (hstack : s.stack = .handler :: .dispatch d :: below) :
      Stepped getType s (.finish false) { s with stack := .dispatch d :: below }
  | throw {d : Dispatch E H} {below : List (DispatchFrame E H)}
      (hstack : s.stack = .handler :: .dispatch d :: below) :
      Stepped getType s (.finish true) { s with stack := below, ended := s.ended ++ [d] }

lemma stepped (h : step getType s a = some s') : Stepped getType s a s' := by
  obtain ⟨-, h⟩ := Option.ite_none_left_eq_some.mp h
  cases a with
  | subscribe eventType handler reallocates =>
    obtain ⟨-, h⟩ := Option.ite_none_right_eq_some.mp h
    cases h
    exact .subscribe
  | dispatch event =>
    obtain ⟨-, h⟩ := Option.ite_none_right_eq_some.mp h
    cases h
    exact .dispatch
  | advance =>
    simp only [advance] at h
    split at h
    · rename_i d below hstack
      split_ifs at h with hvalid hstop
      · cases h
        exact .leave hstack hstop
      · split at h
        · rename_i handler hhandler
          cases h
          exact .invoke hstack hstop hhandler
        · rename_i hnone
          cases h
          exact .derail hstack (.inr ⟨hstop, hnone⟩)
      · cases h
        exact .derail hstack (.inl (Bool.eq_false_iff.mpr hvalid))
    · cases h
  | finish threw =>
    simp only [finish] at h
    split at h
    · rename_i d below hstack
      cases threw with
      | true =>
        cases h
        exact .throw hstack
      | false =>
        cases h
        exact .back hstack
    · cases h

/-! ### Counting -/

structure Counted (s : Dispatcher E H) : Prop where
  stack : AllDispatches Dispatch.Counted s.stack
  ended : ∀ d ∈ s.ended, d.Counted

lemma allDispatches_invalidate {eventType : Text} (h : AllDispatches Dispatch.Counted stack) :
    AllDispatches Dispatch.Counted (stack.map (DispatchFrame.invalidate getType eventType)) := by
  intro d hd
  obtain ⟨f, hf, heq⟩ := List.mem_map.mp hd
  cases f with
  | handler => cases heq
  | dispatch d' =>
    cases heq
    obtain ⟨hposition, hstop⟩ := h d' hf
    rw [Dispatch.invalidate]
    split_ifs
    · exact ⟨hposition, hstop⟩
    · exact ⟨hposition, hstop⟩

namespace Counted

lemma init : Counted ({} : Dispatcher E H) where
  stack := allDispatches_nil
  ended _ hd := by cases hd

lemma leave (h : Counted s) (hd : d.Counted) (hbelow : AllDispatches Dispatch.Counted below) :
    Counted { s with stack := below, ended := s.ended ++ [d] } where
  stack := hbelow
  ended := List.forall_mem_append.mpr ⟨h.ended, List.forall_mem_singleton.mpr hd⟩

lemma step (h : Counted s) (hstep : step getType s a = some s') : Counted s' := by
  have hstack := h.stack
  cases stepped hstep with
  | subscribe =>
    refine ⟨?_, h.ended⟩
    rw [Dispatcher.subscribe]
    split_ifs
    · exact allDispatches_invalidate hstack
    · exact hstack
  | dispatch => exact ⟨allDispatches_dispatch.mpr ⟨⟨rfl, rfl⟩, hstack⟩, h.ended⟩
  | leave heq _ =>
    rw [heq, allDispatches_dispatch] at hstack
    exact h.leave hstack.1 hstack.2
  | invoke heq _ _ =>
    rw [heq, allDispatches_dispatch] at hstack
    obtain ⟨⟨hposition, hstop⟩, hbelow⟩ := hstack
    refine ⟨?_, h.ended⟩
    rw [allDispatches_handler, allDispatches_dispatch]
    exact ⟨⟨by simp [hposition], hstop⟩, hbelow⟩
  | derail _ _ => exact ⟨hstack, h.ended⟩
  | back heq =>
    rw [heq, allDispatches_handler] at hstack
    exact ⟨hstack, h.ended⟩
  | throw heq =>
    rw [heq, allDispatches_handler, allDispatches_dispatch] at hstack
    exact h.leave hstack.1 hstack.2

lemma visits {as : List (Action E H)} (h : Visits (Dispatcher.step getType) {} as s) : Counted s :=
  h.invariant (fun _ _ _ hs hstep => hs.step hstep) init

end Counted

/-! ### Iterations that nothing disturbs -/

/-- The step subscribes to no type of which a dispatch is in progress, and ends no dispatch that
has still handlers to call. -/
structure Undisturbed (getType : E → Text) (s : Dispatcher E H) (a : Action E H) : Prop where
  subscribe : ∀ eventType handler reallocates, a = .subscribe eventType handler reallocates →
    ∀ d, .dispatch d ∈ s.stack → getType d.event ≠ eventType
  finish : ∀ d below, a = .finish true → s.stack = .handler :: .dispatch d :: below →
    d.position = d.stop

/-- A loop goes on. -/
lemma Undisturbed.advance (s : Dispatcher E H) : Undisturbed getType s .advance where
  subscribe _ _ _ ha := by cases ha
  finish _ _ ha := by cases ha

/-- A handler returns. -/
lemma Undisturbed.back (s : Dispatcher E H) : Undisturbed getType s (.finish false) where
  subscribe _ _ _ ha := by cases ha
  finish _ _ ha := by cases ha

/-- All loops are where they should be. -/
structure Orderly (getType : E → Text) (s : Dispatcher E H) : Prop where
  stack   : AllDispatches (fun d => d.Iterates (s.handlers (getType d.event))) s.stack
  ended   : ∀ d ∈ s.ended, d.IsExact
  defined : s.undefined = false

/-- A loop that has come to its end has called everybody. -/
lemma isExact_of_stop {handlers : List H} (h : d.Iterates handlers) (hcounted : d.Counted)
    (hstop : d.position = d.stop) : d.IsExact := by
  rw [Dispatch.IsExact, h.invoked, hstop, ← hcounted.stop, List.take_length]

lemma map_invalidate {eventType : Text}
    (h : AllDispatches (fun d => getType d.event ≠ eventType) stack) :
    stack.map (DispatchFrame.invalidate getType eventType) = stack := by
  refine (List.map_congr_left fun f hf => ?_).trans (List.map_id stack)
  cases f with
  | handler => rfl
  | dispatch d =>
    rw [DispatchFrame.invalidate, Dispatch.invalidate, if_neg (h d hf)]
    rfl

namespace Orderly

lemma init : Orderly getType ({} : Dispatcher E H) where
  stack := allDispatches_nil
  ended _ hd := by cases hd
  defined := rfl

lemma leave (h : Orderly getType s) (hd : d.IsExact)
    (hbelow : AllDispatches (fun d => d.Iterates (s.handlers (getType d.event))) below) :
    Orderly getType { s with stack := below, ended := s.ended ++ [d] } where
  stack := hbelow
  ended := List.forall_mem_append.mpr ⟨h.ended, List.forall_mem_singleton.mpr hd⟩
  defined := h.defined

lemma subscribe (h : Orderly getType s) {eventType : Text}
    (hnone : AllDispatches (fun d => getType d.event ≠ eventType) s.stack) (handler : H)
    (reallocates : Bool) :
    Orderly getType (s.subscribe getType eventType handler reallocates) := by
  refine ⟨?_, h.ended, h.defined⟩
  simp only [Dispatcher.subscribe, map_invalidate hnone, ite_self]
  intro d hd
  rw [Function.update_of_ne (hnone d hd)]
  exact h.stack d hd

lemma dispatch (h : Orderly getType s) (event : E) : Orderly getType (s.dispatch getType event) :=
  ⟨allDispatches_dispatch.mpr ⟨⟨rfl, rfl, Nat.zero_le _, rfl⟩, h.stack⟩, h.ended, h.defined⟩

lemma step (h : Orderly getType s) (hcounted : Counted s) (ha : Undisturbed getType s a)
    (hstep : step getType s a = some s') : Orderly getType s' := by
  have hstack := h.stack
  have hcount := hcounted.stack
  cases stepped hstep with
  | @subscribe eventType handler reallocates =>
    exact h.subscribe (ha.subscribe eventType handler reallocates rfl) handler reallocates
  | @dispatch event => exact h.dispatch event
  | leave heq hstop =>
    rw [heq, allDispatches_dispatch] at hstack hcount
    exact h.leave (isExact_of_stop hstack.1 hcount.1 hstop) hstack.2
  | @invoke d below handler heq hstop hhandler =>
    rw [heq, allDispatches_dispatch] at hstack
    obtain ⟨⟨hvalid, hsubscribed, hle, hinvoked⟩, hbelow⟩ := hstack
    refine ⟨?_, h.ended, h.defined⟩
    rw [allDispatches_handler, allDispatches_dispatch]
    refine ⟨⟨hvalid, hsubscribed, hle.lt_of_ne hstop, ?_⟩, hbelow⟩
    rw [← hsubscribed] at hhandler
    simp [hinvoked, List.take_add_one, hhandler]
  | derail heq hbad =>
    -- the iterators are valid and not at the end, so there is a handler
    rw [heq, allDispatches_dispatch] at hstack hcount
    obtain ⟨⟨hvalid, hsubscribed, hle, -⟩, -⟩ := hstack
    rcases hbad with hbad | ⟨hstop, hnone⟩
    · rw [hvalid] at hbad
      cases hbad
    · rw [← hsubscribed, List.getElem?_eq_none_iff, hcount.1.stop] at hnone
      exact absurd (hle.antisymm hnone) hstop
  | back heq =>
    rw [heq, allDispatches_handler] at hstack
    exact ⟨hstack, h.ended, h.defined⟩
  | @throw d below heq =>
    rw [heq, allDispatches_handler, allDispatches_dispatch] at hstack hcount
    exact h.leave (isExact_of_stop hstack.1 hcount.1 (ha.finish d below rfl heq)) hstack.2

end Orderly

/-! ### Loops that come to their end -/

/-- A loop calls `n` more handlers, which return, and ends. -/
def finishing : ℕ → List (Action E H)
  | 0     => [.advance]
  | n + 1 => .advance :: .finish false :: finishing n

/-- From the state, the dispatch at the top of the stack comes to its end when its handlers return,
and has then called all of them. -/
def Completes (getType : E → Text) (s : Dispatcher E H) (d : Dispatch E H)
    (below : List (DispatchFrame E H)) : Prop :=
  ∃ s' d', exec (step getType) s (finishing (d.subscribed.length - d.invoked.length)) = some s' ∧
    s'.stack = below ∧ s'.ended = s.ended ++ [d'] ∧ s'.undefined = false ∧
    d'.event = d.event ∧ d'.subscribed = d.subscribed ∧ d'.IsExact

namespace Orderly

lemma advance_of_stop (h : Orderly getType s) (hstack : s.stack = .dispatch d :: below)
    (hstop : d.position = d.stop) :
    Dispatcher.step getType s .advance =
      some { s with stack := below, ended := s.ended ++ [d] } := by
  have hvalid := (h.stack d (by simp [hstack])).valid
  simp [Dispatcher.step, advance, h.defined, hstack, hvalid, hstop]

/-- The iterators are valid, so the loop calls the next handler. -/
lemma advance_of_ne (h : Orderly getType s) (hcounted : Counted s)
    (hstack : s.stack = .dispatch d :: below) (hstop : d.position ≠ d.stop) :
    ∃ handler, Dispatcher.step getType s .advance = some { s with
      stack := .handler :: .dispatch { d with
        position := d.position + 1
        invoked  := d.invoked ++ [(handler, d.event)] } :: below } := by
  have hd := h.stack d (by simp [hstack])
  have hlt : d.position < (s.handlers (getType d.event)).length := by
    rw [← hd.subscribed, (hcounted.stack d (by simp [hstack])).stop]
    exact hd.le.lt_of_ne hstop
  refine ⟨(s.handlers (getType d.event))[d.position], ?_⟩
  simp [Dispatcher.step, advance, h.defined, hstack, hd.valid, hstop, List.getElem?_eq_getElem hlt]

/-- The next handler is called and returns. -/
lemma exists_next (h : Orderly getType s) (hcounted : Counted s)
    (hstack : s.stack = .dispatch d :: below) (hstop : d.position ≠ d.stop) :
    ∃ s' d', exec (Dispatcher.step getType) s [.advance, .finish false] = some s' ∧
      Orderly getType s' ∧ Counted s' ∧ s'.stack = .dispatch d' :: below ∧ s'.ended = s.ended ∧
      d'.event = d.event ∧ d'.subscribed = d.subscribed ∧ d'.position = d.position + 1 ∧
      d'.stop = d.stop := by
  obtain ⟨handler, hadvance⟩ := h.advance_of_ne hcounted hstack hstop
  have hcalled := h.step hcounted (.advance s) hadvance
  have hcounted' := hcounted.step hadvance
  let d' : Dispatch E H :=
    { d with position := d.position + 1, invoked := d.invoked ++ [(handler, d.event)] }
  have hfinish : Dispatcher.step getType { s with stack := .handler :: .dispatch d' :: below }
      (.finish false) = some { s with stack := .dispatch d' :: below } := by
    simp [Dispatcher.step, finish, h.defined]
  have hreturned := hcalled.step hcounted' (.back _) hfinish
  refine ⟨{ s with stack := .dispatch d' :: below }, d', ?_, hreturned, hcounted'.step hfinish, rfl,
    rfl, rfl, rfl, rfl, rfl⟩
  rw [exec_cons, hadvance, Option.bind_some, exec_cons, hfinish]
  rfl

/-- By induction on the number of handlers that are left. -/
lemma completes (h : Orderly getType s) (hcounted : Counted s)
    (hstack : s.stack = .dispatch d :: below) : Completes getType s d below := by
  obtain ⟨hposition, hstop⟩ := hcounted.stack d (by simp [hstack])
  have hle := (h.stack d (by simp [hstack])).le
  obtain ⟨n, hn⟩ : ∃ n, d.subscribed.length - d.invoked.length = n := ⟨_, rfl⟩
  rw [Completes, hn]
  rw [hposition, hstop] at hn
  induction n generalizing s d with
  | zero =>
    have heq : d.position = d.stop := by omega
    refine ⟨{ s with stack := below, ended := s.ended ++ [d] }, d, ?_, rfl, rfl, h.defined, rfl,
      rfl, isExact_of_stop (h.stack d (by simp [hstack])) ⟨hposition, hstop⟩ heq⟩
    rw [finishing, exec_cons, h.advance_of_stop hstack heq]
    rfl
  | succ n ih =>
    obtain ⟨s₁, d₁, hexec, h₁, hcounted₁, hstack₁, hended₁, hevent, hsubscribed, hnext, hend⟩ :=
      h.exists_next hcounted hstack (by omega)
    obtain ⟨hposition₁, hstop₁⟩ := hcounted₁.stack d₁ (by simp [hstack₁])
    have hle₁ := (h₁.stack d₁ (by simp [hstack₁])).le
    obtain ⟨s', d', hrest, hbelow, hended, hdefined, hevent', hsubscribed', hexact⟩ :=
      ih h₁ hcounted₁ hstack₁ hposition₁ hstop₁ hle₁ (by omega)
    refine ⟨s', d', ?_, hbelow, hended₁ ▸ hended, hdefined, hevent'.trans hevent,
      hsubscribed'.trans hsubscribed, hexact⟩
    change exec (Dispatcher.step getType) s ([.advance, .finish false] ++ finishing n) = some s'
    rw [exec_append, hexec]
    exact hrest

end Orderly

/-! ### Exact dispatches -/

/-- Every dispatch calls exactly the handlers that were subscribed when it began, in their order
and with its event, it comes to its end if they return, and nobody modifies the handlers a loop
goes through. -/
structure Exact (getType : E → Text) (as : List (Action E H)) : Prop where
  began : ∀ s event s', Takes (step getType) {} as s (.dispatch event) →
    step getType s (.dispatch event) = some s' → ∃ d, s'.stack = .dispatch d :: s.stack ∧
      d.event = event ∧ d.subscribed = s.handlers (getType event) ∧ d.invoked = []
  inProgress : ∀ s, Visits (step getType) {} as s → ∀ d, .dispatch d ∈ s.stack →
    d.invoked <+: d.subscribed.map (·, d.event)
  completes : ∀ s, Visits (step getType) {} as s → ∀ d below, s.stack = .dispatch d :: below →
    Completes getType s d below
  ended : ∀ s, Visits (step getType) {} as s → ∀ d ∈ s.ended, d.IsExact
  defined : ∀ s, Visits (step getType) {} as s → s.undefined = false
  unmodified : ∀ s a s', Takes (step getType) {} as s a → step getType s a = some s' →
    ∀ d, .dispatch d ∈ s.stack → s'.handlers (getType d.event) = s.handlers (getType d.event)

/-- An undisturbed step leaves the handlers alone that a loop goes through. -/
lemma handlers_of_undisturbed (ha : Undisturbed getType s a) (hstep : step getType s a = some s')
    (hd : .dispatch d ∈ s.stack) :
    s'.handlers (getType d.event) = s.handlers (getType d.event) := by
  cases stepped hstep with
  | @subscribe eventType handler reallocates =>
    exact Function.update_of_ne (ha.subscribe eventType handler reallocates rfl d hd) _ _
  | _ => rfl

/-- The dispatches of a run are exact just when nobody subscribes to the type of a dispatch that is
in progress, and no handler throws out of its call while its dispatch has others to call. -/
theorem exact_iff (getType : E → Text) (as : List (Action E H)) :
    Exact getType as ↔ ∀ s a, Takes (step getType) {} as s a → Undisturbed getType s a := by
  constructor
  · intro h s a htakes
    obtain ⟨s', hstep⟩ := htakes.exists_step
    constructor
    · rintro eventType handler reallocates rfl d hd rfl
      have hsame := h.unmodified s _ s' htakes hstep d hd
      cases stepped hstep
      simp [subscribe] at hsame
    · rintro d below rfl hstack
      have hcounted := Counted.visits (htakes.visits hstep)
      have hended := h.ended s' (htakes.visits hstep)
      cases stepped hstep with
      | throw hstack' =>
        rw [hstack] at hstack'
        cases hstack'
        have hmem : d ∈ s.ended ++ [d] := by simp
        have hexact := congrArg List.length (hended d hmem)
        obtain ⟨hposition, hstop⟩ := hcounted.ended d hmem
        rwa [List.length_map, hposition, hstop] at hexact
  · intro hundisturbed
    have horderly : ∀ s, Visits (step getType) {} as s → Orderly getType s := by
      intro s hvisits
      apply hvisits.induction Orderly.init
      intro s a s' htakes hs hstep
      exact hs.step (Counted.visits htakes.visits_source) (hundisturbed s a htakes) hstep
    constructor
    · intro s event s' _ hstep
      cases stepped hstep
      exact ⟨_, rfl, rfl, rfl, rfl⟩
    · intro s hvisits d hd
      rw [((horderly s hvisits).stack d hd).invoked]
      exact (List.take_prefix _ _).map _
    · intro s hvisits d below hstack
      exact (horderly s hvisits).completes (Counted.visits hvisits) hstack
    · intro s hvisits
      exact (horderly s hvisits).ended
    · intro s hvisits
      exact (horderly s hvisits).defined
    · intro s a s' htakes hstep d hd
      exact handlers_of_undisturbed (hundisturbed s a htakes) hstep hd

/-- The handler of a sleep subscribes a further one for the same type, and the vector moves under
the loop. -/
theorem not_exact_subscribe_in_handler :
    ¬ Exact Event.getType [.subscribe "Sleep_for".toList 0 true, .dispatch (.sleepFor (seconds 5)),
      .advance, .subscribe "Sleep_for".toList 1 true, .finish false, .advance] := by
  intro h
  have hundefined := h.defined _ ⟨_, List.prefix_rfl, rfl⟩
  cases hundefined

end Dispatcher

end Mesh
