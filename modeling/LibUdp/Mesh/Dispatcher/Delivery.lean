import LibUdp.Mesh.Dispatcher.Properties

/-!
# What a dispatch can have called

The handlers of a dispatch may subscribe, dispatch and throw. They only ever add to the end of a
vector, so that the loop goes through the handlers that were subscribed before the dispatch began,
in their order, as far as it gets.
-/

namespace Mesh

open Run

variable {E H : Type} {getType : E → Text}

namespace Dispatcher

/-- The handler that the action subscribes to the type. -/
def Action.handler? (eventType : Text) : Action E H → Option H
  | .subscribe eventType' handler _ => if eventType' = eventType then some handler else none
  | _                               => none

/-- The handlers that a run subscribes to the type, in their order. -/
def subscriptions (eventType : Text) (as : List (Action E H)) : List H :=
  as.filterMap (Action.handler? eventType)

/-- The dispatch began in the run, and has called the first of the handlers that were subscribed to
its type by then. -/
structure Delivers (getType : E → Text) (as : List (Action E H)) (d : Dispatch E H) : Prop where
  began   : ∃ pre, pre ++ [.dispatch d.event] <+: as ∧
    d.subscribed = subscriptions (getType d.event) pre
  le      : d.position ≤ d.subscribed.length
  invoked : d.invoked = (d.subscribed.take d.position).map (·, d.event)

/-- The handlers of all types are those that have been subscribed, and all dispatches deliver. -/
structure Delivering (getType : E → Text) (as : List (Action E H)) (s : Dispatcher E H) :
    Prop where
  handlers : ∀ eventType, s.handlers eventType = subscriptions eventType as
  stack    : DispatchFrame.AllDispatches (Delivers getType as) s.stack
  ended    : ∀ d ∈ s.ended, Delivers getType as d

variable {as as' : List (Action E H)} {a : Action E H} {s s' : Dispatcher E H} {d : Dispatch E H}
  {eventType : Text}

lemma subscriptions_concat (eventType : Text) (as : List (Action E H)) (a : Action E H) :
    subscriptions eventType (as ++ [a]) =
      subscriptions eventType as ++ (a.handler? eventType).toList := filterMap_concat _ as a

lemma subscriptions_of_none (h : a.handler? eventType = none) :
    subscriptions eventType (as ++ [a]) = subscriptions eventType as :=
  filterMap_concat_of_none h as

namespace Delivers

lemma mono (h : Delivers getType as d) (has : as <+: as') : Delivers getType as' d where
  began := by
    obtain ⟨pre, hpre, hsubscribed⟩ := h.began
    exact ⟨pre, hpre.trans has, hsubscribed⟩
  le := h.le
  invoked := h.invoked

lemma subscribed_prefix (h : Delivers getType as d) :
    d.subscribed <+: subscriptions (getType d.event) as := by
  obtain ⟨pre, hpre, hsubscribed⟩ := h.began
  rw [hsubscribed]
  exact ((List.prefix_append pre _).trans hpre).filterMap _

lemma invalidate (h : Delivers getType as d) :
    Delivers getType as (d.invalidate getType eventType) := by
  rw [Dispatch.invalidate]
  split_ifs
  · exact ⟨h.began, h.le, h.invoked⟩
  · exact h

/-- The loop calls the next handler. -/
lemma invoke {handler : H} (h : Delivers getType as d) (hlt : d.position < d.subscribed.length)
    (hhandler : (subscriptions (getType d.event) as)[d.position]? = some handler) :
    Delivers getType as { d with
      position := d.position + 1
      invoked  := d.invoked ++ [(handler, d.event)] } where
  began := h.began
  le := hlt
  invoked := by
    obtain ⟨rest, hrest⟩ := h.subscribed_prefix
    rw [← hrest, List.getElem?_append_left hlt] at hhandler
    simp [h.invoked, List.take_add_one, hhandler]

end Delivers

lemma allDispatches_concat {stack : List (DispatchFrame E H)} (a : Action E H)
    (h : DispatchFrame.AllDispatches (Delivers getType as) stack) :
    DispatchFrame.AllDispatches (Delivers getType (as ++ [a])) stack := fun d hd =>
  (h d hd).mono (List.prefix_append as [a])

namespace Delivering

lemma init : Delivering getType [] ({} : Dispatcher E H) where
  handlers _ := rfl
  stack := allDispatches_nil
  ended _ hd := by cases hd

/-- A step that subscribes nobody. -/
lemma concat (h : Delivering getType as s) (hhandlers : s'.handlers = s.handlers)
    (ha : ∀ eventType, a.handler? eventType = none)
    (hstack : DispatchFrame.AllDispatches (Delivers getType (as ++ [a])) s'.stack)
    (hended : ∀ d ∈ s'.ended, Delivers getType (as ++ [a]) d) :
    Delivering getType (as ++ [a]) s' where
  handlers eventType := by rw [hhandlers, subscriptions_of_none (ha eventType), h.handlers]
  stack := hstack
  ended := hended

lemma subscribe {handler : H} {reallocates : Bool} (h : Delivering getType as s) :
    Delivering getType (as ++ [.subscribe eventType handler reallocates])
      (s.subscribe getType eventType handler reallocates) where
  handlers eventType' := by
    rw [subscriptions_concat, Action.handler?]
    change Function.update s.handlers eventType (s.handlers eventType ++ [handler]) eventType' = _
    by_cases heq : eventType = eventType'
    · subst heq
      rw [if_pos rfl, Function.update_self, h.handlers]
      rfl
    · rw [if_neg heq, Function.update_of_ne (Ne.symm heq), h.handlers]
      exact (List.append_nil _).symm
  stack := by
    have hstack := allDispatches_concat (.subscribe eventType handler reallocates) h.stack
    rw [Dispatcher.subscribe]
    split_ifs
    · intro d hd
      obtain ⟨f, hf, heq⟩ := List.mem_map.mp hd
      cases f with
      | handler => cases heq
      | dispatch d' =>
        cases heq
        exact (hstack d' hf).invalidate
    · exact hstack
  ended d hd := (h.ended d hd).mono (List.prefix_append as _)

lemma step (h : Delivering getType as s) (hcounted : Counted s)
    (hstep : Dispatcher.step getType s a = some s') : Delivering getType (as ++ [a]) s' := by
  have hstack := allDispatches_concat a h.stack
  have hcount := hcounted.stack
  have hended : ∀ d ∈ s.ended, Delivers getType (as ++ [a]) d :=
    fun d hd => (h.ended d hd).mono (List.prefix_append as [a])
  cases stepped hstep with
  | subscribe => exact h.subscribe
  | dispatch =>
    refine h.concat rfl (fun _ => rfl) (allDispatches_dispatch.mpr ⟨?_, hstack⟩) hended
    exact ⟨⟨as, List.prefix_rfl, h.handlers _⟩, Nat.zero_le _, rfl⟩
  | leave heq _ =>
    rw [heq, allDispatches_dispatch] at hstack
    refine h.concat rfl (fun _ => rfl) hstack.2 ?_
    exact List.forall_mem_append.mpr ⟨hended, List.forall_mem_singleton.mpr hstack.1⟩
  | invoke heq hstop hhandler =>
    rw [heq, allDispatches_dispatch] at hstack hcount
    refine h.concat rfl (fun _ => rfl) ?_ hended
    rw [allDispatches_handler, allDispatches_dispatch]
    refine ⟨hstack.1.invoke ?_ ?_, hstack.2⟩
    · rw [← hcount.1.stop] at hstop
      exact hstack.1.le.lt_of_ne hstop
    · rwa [subscriptions_of_none rfl, ← h.handlers]
  | derail _ _ => exact h.concat rfl (fun _ => rfl) hstack hended
  | back heq =>
    rw [heq, allDispatches_handler] at hstack
    exact h.concat rfl (fun _ => rfl) hstack hended
  | throw heq =>
    rw [heq, allDispatches_handler, allDispatches_dispatch] at hstack
    refine h.concat rfl (fun _ => rfl) hstack.2 ?_
    exact List.forall_mem_append.mpr ⟨hended, List.forall_mem_singleton.mpr hstack.1⟩

lemma exec (h : Run.exec (Dispatcher.step getType) {} as = some s) : Delivering getType as s := by
  induction as using List.reverseRecOn generalizing s with
  | nil =>
    cases h
    exact init
  | append_singleton as a ih =>
    obtain ⟨t, hexec, hstep⟩ := exec_concat_eq_some_iff.mp h
    exact (ih hexec).step (Counted.visits ⟨as, List.prefix_rfl, hexec⟩) hstep

end Delivering

/-- The dispatch is in progress or has ended. -/
def Began (s : Dispatcher E H) (d : Dispatch E H) : Prop := .dispatch d ∈ s.stack ∨ d ∈ s.ended

lemma delivers (h : exec (step getType) {} as = some s) (hd : s.Began d) :
    Delivers getType as d := by
  have hdelivering := Delivering.exec h
  exact hd.elim (hdelivering.stack d) (hdelivering.ended d)

/-- Whatever the handlers do, a dispatch calls handlers that were subscribed to the type of its
event before it began, in the order of their subscription, each of them once and with its event. It
leaves none out, and if its loop comes to its end it has called them all. -/
theorem invoked_prefix (h : exec (step getType) {} as = some s) (hd : s.Began d) :
    ∃ pre, pre ++ [.dispatch d.event] <+: as ∧
      d.invoked <+: (subscriptions (getType d.event) pre).map (·, d.event) ∧
      (d.position = d.stop →
        d.invoked = (subscriptions (getType d.event) pre).map (·, d.event)) := by
  have hdelivers := delivers h hd
  have hcounted := Counted.visits ⟨as, List.prefix_rfl, h⟩
  have hstop : d.subscribed.length = d.stop :=
    (hd.elim (hcounted.stack d) (hcounted.ended d)).stop
  obtain ⟨pre, hpre, hsubscribed⟩ := hdelivers.began
  refine ⟨pre, hpre, ?_⟩
  rw [← hsubscribed, hdelivers.invoked]
  refine ⟨(List.take_prefix _ _).map _, fun hposition => ?_⟩
  rw [hposition, ← hstop, List.take_length]

/-- A handler of a sleep subscribes another one, and dispatches a sleep, too. The inner dispatch
calls both of them. -/
def nestedRun : List (Action Event ℕ) :=
  [.subscribe "Sleep_for".toList 0 false, .dispatch (.sleepFor (seconds 5)), .advance,
    .subscribe "Sleep_for".toList 1 false, .dispatch (.sleepFor (seconds 30)), .advance,
    .finish false, .advance, .finish false, .advance]

theorem invoked_prefix_nested : ∃ s, exec (step Event.getType) {} nestedRun = some s ∧
    ∃ d, s.Began d ∧ d.invoked = [(0, .sleepFor (seconds 30)), (1, .sleepFor (seconds 30))] ∧
      ∃ pre, pre ++ [.dispatch d.event] <+: nestedRun ∧
        d.invoked <+: (subscriptions d.event.getType pre).map (·, d.event) ∧
        (d.position = d.stop →
          d.invoked = (subscriptions d.event.getType pre).map (·, d.event)) :=
  have hd := Or.inr List.mem_cons_self
  ⟨_, rfl, _, hd, rfl, invoked_prefix rfl hd⟩

/-! ### The handlers of the example -/

lemma subscriptions_eq_nil
    (h : ∀ handler reallocates, .subscribe eventType handler reallocates ∉ as) :
    subscriptions eventType as = [] := by
  refine List.filterMap_eq_nil_iff.mpr fun a ha => ?_
  cases a with
  | subscribe eventType' handler reallocates =>
    refine if_neg ?_
    rintro rfl
    exact h handler reallocates ha
  | _ => rfl

/-- Where nobody has subscribed to the type of an event, a dispatch of it is over at once. -/
lemma finished_of_unsubscribed
    (hnone : ∀ event handler reallocates, .subscribe (getType event) handler reallocates ∉ as)
    (h : exec (step getType) {} as = some s) (hd : s.Began d) :
    d.position = d.stop ∧ d.invoked = [] := by
  have hdelivers := delivers h hd
  have hcounted := Counted.visits ⟨as, List.prefix_rfl, h⟩
  have hd' := hd.elim (hcounted.stack d) (hcounted.ended d)
  have hsubscribed : d.subscribed = [] := by
    have hprefix := hdelivers.subscribed_prefix
    rw [subscriptions_eq_nil (hnone d.event)] at hprefix
    exact List.prefix_nil.mp hprefix
  have hle := hdelivers.le
  rw [hsubscribed, List.length_nil, Nat.le_zero] at hle
  rw [← hd'.stop, hdelivers.invoked, hsubscribed, List.take_nil]
  exact ⟨hle, rfl⟩

/-- Nothing disturbs the loops, so that the run stays defined. -/
lemma defined_of_unsubscribed
    (hnone : ∀ event handler reallocates, .subscribe (getType event) handler reallocates ∉ as)
    (h : exec (step getType) {} as = some s) : s.undefined = false := by
  have hvisits : Visits (step getType) {} as s := ⟨as, List.prefix_rfl, h⟩
  suffices Orderly getType s from this.defined
  refine hvisits.induction Orderly.init fun t a u htakes ht hstep => ?_
  refine ht.step (Counted.visits htakes.visits_source) ⟨?_, ?_⟩ hstep
  · rintro eventType handler reallocates rfl d - rfl
    exact hnone d.event handler reallocates htakes.mem
  · rintro d below - hstack
    obtain ⟨pre, hpre, hexec, -⟩ := htakes
    have hsub := ((List.prefix_append pre [a]).trans hpre).subset
    refine (finished_of_unsubscribed (fun event handler reallocates hmem =>
      hnone event handler reallocates (hsub hmem)) hexec (.inl ?_)).1
    rw [hstack]
    exact List.mem_cons_of_mem _ List.mem_cons_self

/-- The types that `run` in `examples/mesh.cc` subscribes its handlers to. -/
def runTypes : List Text := ["peer_connected".toList, "message_received".toList]

lemma isUpper_head_getType (event : Event) : event.getType.head?.any Char.isUpper = true := by
  cases event <;> rfl

lemma not_isUpper_head {eventType : Text} (h : eventType ∈ runTypes) :
    eventType.head?.any Char.isUpper = false := by
  rw [runTypes, List.mem_pair] at h
  rcases h with rfl | rfl <;> rfl

lemma getType_notMem_runTypes (event : Event) : event.getType ∉ runTypes := fun h =>
  Bool.noConfusion ((isUpper_head_getType event).symm.trans (not_isUpper_head h))

/-- However `examples/mesh.cc` goes on: with the types it subscribes to, no dispatch ever calls a
handler, for the types of all events start with a capital letter. -/
theorem run_calls_nobody {as : List (Action Event H)} {s : Dispatcher Event H}
    (hrun : ∀ eventType handler reallocates, .subscribe eventType handler reallocates ∈ as →
      eventType ∈ runTypes)
    (h : exec (step Event.getType) {} as = some s) :
    s.undefined = false ∧ ∀ d, s.Began d → d.invoked = [] := by
  have hnone : ∀ event handler reallocates,
      .subscribe (Event.getType event) handler reallocates ∉ as :=
    fun event handler reallocates hmem =>
      getType_notMem_runTypes event (hrun _ handler reallocates hmem)
  exact ⟨defined_of_unsubscribed hnone h, fun d hd => (finished_of_unsubscribed hnone h hd).2⟩

/-- The subscriptions of the example, and its first `add_peer`. -/
def exampleRun : List (Action Event ℕ) :=
  [.subscribe "peer_connected".toList 0 true, .subscribe "message_received".toList 1 true,
    .dispatch (.peerConnected ⟨"127.0.0.1".toList, 8081⟩), .advance]

lemma mem_runTypes {handler : ℕ} {reallocates : Bool}
    (h : .subscribe eventType handler reallocates ∈ exampleRun) : eventType ∈ runTypes := by
  simp only [exampleRun, List.mem_cons, Action.subscribe.injEq, reduceCtorEq, List.not_mem_nil,
    or_false] at h
  rcases h with ⟨rfl, -⟩ | ⟨rfl, -⟩
  · exact List.mem_cons_self
  · exact List.mem_cons_of_mem _ List.mem_cons_self

theorem run_calls_nobody_addPeer : ∃ s, exec (step Event.getType) {} exampleRun = some s ∧
    s.undefined = false ∧ ∀ d, s.Began d → d.invoked = [] :=
  ⟨_, rfl, run_calls_nobody (fun _ _ _ => mem_runTypes) rfl⟩

end Dispatcher

end Mesh
