import LibUdp.Mesh.Node.Locking.Reentrancy
import LibUdp.Mesh.Node.Peers.Properties

/-!
# Operations on the peer table are atomic

Threads that interleave statement by statement do to the peer table what whole operations would do
one after the other: each of them at the point where it reads the table and the clock. Handlers
that are called under the lock, and call what they like, make no difference to that.
-/

namespace Mesh

open Run

/-- The node as the thread will leave it. -/
def Shared.view (node : Shared) (stack : List Frame) : Node :=
  node.settled ((pending stack).getD [])

variable {available : LockMode → Bool} {node node' : Shared} {code : List Stmt}
  {stack stack' : List Frame}

/-! ### Steps of a thread -/

namespace Advances

/-- Without the lock, a thread does not touch what anyone will leave. -/
lemma settled_of_pending (h : Advances available node stack node' stack')
    (hpending : pending stack = none) :
    (∀ code, node'.settled code = node.settled code) ∧ node'.view stack' = node.settled [] := by
  cases h with
  | free _ h' hsettled =>
    refine ⟨hsettled, ?_⟩
    rw [Shared.view, pending_of_isFree h']
    exact hsettled []
  | @acquire code below scope mode _ _ _ hsettle h =>
    refine ⟨fun _ => rfl, ?_⟩
    cases mode with
    | shared => rw [Shared.view, pending_operation h (by decide), Option.getD_none]
    | unique => simp [Shared.view, Shared.settled, pending, hsettle, settle]
  | send _ hsettled h =>
    refine ⟨hsettled, ?_⟩
    rw [Shared.view, pending_operation h (by decide), Option.getD_none]
    exact hsettled []
  | release _ h =>
    refine ⟨fun _ => rfl, ?_⟩
    rw [Shared.view, pending_operation h (by decide), Option.getD_none]
  | commit _ _ _ _ => cases hpending
  | proceed _ _ _ => cases hpending
  | dispatch _ _ _ _ _ => cases hpending
  | finish _ _ _ => cases hpending

/-- With the lock, it changes what it will leave by an operation of the node or not at all. -/
lemma view_eq_or_step (h : Advances available node stack node' stack')
    (hpending : pending stack ≠ none) :
    node'.view stack' = node.view stack ∨
      ∃ op, (node.view stack).step op = some (node'.view stack') := by
  cases h with
  | free h _ _ => exact absurd (pending_of_isFree h) hpending
  | acquire _ _ _ _ h => exact absurd (pending_operation h (by decide)) hpending
  | send _ _ h => exact absurd (pending_operation h (by decide)) hpending
  | @release code below mode _ h =>
    cases mode with
    | shared => exact absurd (pending_operation h (by decide)) hpending
    | unique =>
      left
      rw [Shared.view, pending_operation h (by decide)]
      rfl
  | commit op _ hstep _ => exact .inr ⟨op, hstep⟩
  | proceed _ hsettled _ => exact .inl hsettled
  | dispatch n _ _ hsettled _ => exact .inl hsettled
  | finish _ _ _ => exact .inl rfl

/-- A thread that holds the lock held it before, or could take it. -/
lemma holds_or_available (h : Advances available node stack node' stack') {mode : LockMode}
    (hholds : Holds stack' mode) : Holds stack mode ∨ available mode = true := by
  cases h with
  | free _ h' _ => exact absurd hholds (not_holds_of_isFree h' mode)
  | acquire havailable _ _ _ h =>
    rcases holds_cons.mp hholds with hheld | hbelow
    · cases hheld
      exact .inr havailable
    · exact absurd hbelow (not_holds_of_isFree h mode)
  | release _ h =>
    rcases holds_cons.mp hholds with hheld | hbelow
    · cases hheld
    · exact absurd hbelow (not_holds_of_isFree h mode)
  | dispatch _ _ _ _ _ =>
    rcases holds_cons.mp hholds with hheld | hbelow
    · cases hheld
    · exact .inl (holds_operation.mpr (holds_operation.mp hbelow))
  | finish _ _ _ => exact .inl (holds_cons.mpr (.inr hholds))
  | _ => exact .inl (holds_operation.mpr (holds_operation.mp hholds))

end Advances

/-- A step of a thread, where handlers may run under the lock. -/
def Moves (available : LockMode → Bool) (node : Shared) (stack : List Frame) (node' : Shared)
    (stack' : List Frame) : Prop :=
  Advances available node stack node' stack' ∨ Inert node stack node' stack'

namespace Moves

lemma settled_of_pending (h : Moves available node stack node' stack')
    (hpending : pending stack = none) :
    (∀ code, node'.settled code = node.settled code) ∧ node'.view stack' = node.settled [] := by
  rcases h with h | h
  · exact h.settled_of_pending hpending
  · refine ⟨h.settled, ?_⟩
    rw [Shared.view, h.pending, hpending]
    exact h.settled []

lemma view_eq_or_step (h : Moves available node stack node' stack')
    (hpending : pending stack ≠ none) :
    node'.view stack' = node.view stack ∨
      ∃ op, (node.view stack).step op = some (node'.view stack') := by
  rcases h with h | h
  · exact h.view_eq_or_step hpending
  · left
    rw [Shared.view, h.pending]
    exact h.settled _

lemma holds_or_available (h : Moves available node stack node' stack') {mode : LockMode}
    (hholds : Holds stack' mode) : Holds stack mode ∨ available mode = true := by
  rcases h with h | h
  · exact h.holds_or_available hholds
  · exact .inl ((h.holds mode).mp hholds)

end Moves

lemma history_membership (id : Text) (events : List Event) :
    history id (events.filter Event.isMembership) = history id events := by
  rw [history, history, List.filterMap_filter]
  congr
  funext event
  cases event <;> rfl

/-! ### Threads -/

namespace Machine

variable {m m' : Machine} {a : Action} {N : Node}

lemma not_holds_of_available {mode mode' : LockMode} (h : m.available mode = true)
    (hmode : mode = .unique ∨ mode' = .unique) {i : ℕ} (hstack : m.threads[i]? = some stack) :
    ¬ Holds stack mode' := by
  rintro ⟨f, hf, hheld⟩
  have hmem := List.mem_of_getElem? hstack
  cases mode with
  | shared =>
    have hframe := List.all_eq_true.mp (List.all_eq_true.mp h stack hmem) f hf
    rcases hmode with hmode | rfl
    · cases hmode
    · exact of_decide_eq_true hframe hheld
  | unique =>
    have hframe := List.all_eq_true.mp (List.all_eq_true.mp h stack hmem) f hf
    rw [of_decide_eq_true hframe] at hheld
    cases hheld

lemma available_of_holds (hstack : stack ∈ m.threads) (h : Holds stack .unique) (mode : LockMode) :
    m.available mode = false := by
  by_contra havailable
  obtain ⟨i, hi⟩ := List.mem_iff_getElem?.mp hstack
  exact not_holds_of_available (by simpa using havailable) (.inr rfl) hi h

/-- While a thread holds the lock exclusively, no other thread holds it. -/
def Exclusive (m : Machine) : Prop :=
  ∀ (i j : ℕ) stack stack' mode, i ≠ j → m.threads[i]? = some stack → m.threads[j]? = some stack' →
    Holds stack .unique → ¬ Holds stack' mode

/-- The node is what the machine will be when the thread that holds the lock has released it. -/
structure Abstracts (m : Machine) (N : Node) : Prop where
  guarded : ∀ stack ∈ m.threads, Guarded stack
  exclusive : m.Exclusive
  held : ∀ (i : ℕ) stack, m.threads[i]? = some stack → pending stack ≠ none → N = m.node.view stack
  idle : (∀ (i : ℕ) stack, m.threads[i]? = some stack → pending stack = none) →
    N = m.node.settled []

/-- The threads after a step: the one that stepped, and the others as they were. -/
lemma getElem?_set_eq_some {threads : List (List Frame)} {k i : ℕ} {stack₁ : List Frame}
    (h : (threads.set k stack)[i]? = some stack₁) :
    i = k ∧ stack₁ = stack ∨ i ≠ k ∧ threads[i]? = some stack₁ := by
  by_cases hik : k = i
  · subst hik
    rw [List.getElem?_set_self (by simpa using (List.getElem?_eq_some_iff.mp h).1)] at h
    exact .inl ⟨rfl, (Option.some.inj h).symm⟩
  · rw [List.getElem?_set_ne hik] at h
    exact .inr ⟨Ne.symm hik, h⟩

/-- What holds of the thread that steps and, after the step, of the others, held of all before. -/
lemma forall_of_set {threads : List (List Frame)} {k : ℕ} {P : List Frame → Prop}
    (hstack : threads[k]? = some stack) (hP : P stack) (stack' : List Frame)
    (h : ∀ (i : ℕ) stack₁, i ≠ k → (threads.set k stack')[i]? = some stack₁ → P stack₁) :
    ∀ (i : ℕ) stack₁, threads[i]? = some stack₁ → P stack₁ := by
  intro i stack₁ hi
  by_cases hik : i = k
  · subst hik
    rw [hstack] at hi
    cases hi
    exact hP
  · refine h i stack₁ hik ?_
    rwa [List.getElem?_set_ne (Ne.symm hik)]

lemma Exclusive.step (h : m.Exclusive) {k : ℕ} (hstack : m.threads[k]? = some stack)
    (hmoves : Moves m.available m.node stack node' stack') :
    Exclusive ⟨node', m.threads.set k stack'⟩ := by
  intro i j si sj mode hij hi hj hholds hholds'
  rcases getElem?_set_eq_some hi with ⟨rfl, rfl⟩ | ⟨hik, hi'⟩
  · rcases getElem?_set_eq_some hj with ⟨rfl, rfl⟩ | ⟨hjk, hj'⟩
    · exact hij rfl
    · rcases hmoves.holds_or_available hholds with hold | havailable
      · exact h i j stack sj mode hij hstack hj' hold hholds'
      · exact not_holds_of_available havailable (.inl rfl) hj' hholds'
  · rcases getElem?_set_eq_some hj with ⟨rfl, rfl⟩ | ⟨hjk, hj'⟩
    · rcases hmoves.holds_or_available hholds' with hold | havailable
      · exact h i j si stack mode hij hi' hstack hholds hold
      · exact not_holds_of_available havailable (.inr rfl) hi' hholds
    · exact h i j si sj mode hij hi' hj' hholds hholds'

/-- The thread that an action belongs to, and what it does. -/
lemma exists_moves (h : ∀ stack ∈ m.threads, Guarded stack) (hstep : m.step a = some m') :
    ∃ stack node stack', m.threads[a.thread]? = some stack ∧
      m.threads.set a.thread stack' = m'.threads ∧ node = m'.node ∧ Guarded stack' ∧
      Moves m.available m.node stack node stack' := by
  obtain ⟨-, stack, node, stack', hstack, hthread, rfl⟩ := step_eq_some_iff.mp hstep
  have hmem := List.mem_of_getElem? hstack
  obtain ⟨hguarded, hmoves⟩ := (h stack hmem).step (available_of_holds hmem) hthread
  exact ⟨stack, node, stack', hstack, rfl, rfl, hguarded, hmoves⟩

/-- A step of the machine is an operation of the node or changes nothing. -/
lemma Abstracts.step (h : m.Abstracts N) (hstep : m.step a = some m') :
    ∃ N', m'.Abstracts N' ∧ (N' = N ∨ ∃ op, N.step op = some N') := by
  obtain ⟨stack, node, stack', hstack, hthreads, rfl, hguarded, hmoves⟩ :=
    exists_moves h.guarded hstep
  obtain ⟨node, threads⟩ := m'
  cases hthreads
  have hexclusive := h.exclusive.step hstack hmoves
  have hset : (m.threads.set a.thread stack')[a.thread]? = some stack' :=
    List.getElem?_set_self (List.getElem?_eq_some_iff.mp hstack).1
  have hguarded' : ∀ stack₁ ∈ m.threads.set a.thread stack', Guarded stack₁ := by
    intro stack₁ hstack₁
    rcases List.mem_or_eq_of_mem_set hstack₁ with hold | rfl
    · exact h.guarded stack₁ hold
    · exact hguarded
  by_cases hpending : pending stack = none
  · obtain ⟨hsettled, hview⟩ := hmoves.settled_of_pending hpending
    refine ⟨N, ⟨hguarded', hexclusive, ?_, ?_⟩, .inl rfl⟩
    · intro i si hi hheld
      rcases getElem?_set_eq_some hi with ⟨rfl, rfl⟩ | ⟨hne, hi⟩
      · -- the thread has taken the lock, so nobody had it
        rw [hview]
        refine h.idle (forall_of_set hstack hpending si fun j sj hja hj => ?_)
        by_contra hpj
        exact hexclusive _ _ _ _ _ (Ne.symm hja) hset hj (holds_of_pending hheld)
          (holds_of_pending hpj)
      · rw [h.held i si hi hheld]
        exact (hsettled _).symm
    · intro hidle
      rw [hsettled]
      exact h.idle (forall_of_set hstack hpending stack' fun j sj _ hj => hidle j sj hj)
  · refine ⟨node.view stack', ⟨hguarded', hexclusive, ?_, ?_⟩, ?_⟩
    · intro i si hi hheld
      rcases getElem?_set_eq_some hi with ⟨rfl, rfl⟩ | ⟨hne, hi⟩
      · rfl
      · exact absurd (holds_of_pending hheld)
          (h.exclusive _ _ _ _ _ (Ne.symm hne) hstack hi (holds_of_pending hpending))
    · intro hidle
      rw [Shared.view, hidle _ _ hset]
      rfl
    · rw [h.held _ _ hstack hpending]
      exact hmoves.view_eq_or_step hpending

lemma abstracts_init (threads : ℕ) : Abstracts (init threads) {} where
  guarded stack hstack := .disciplined (disciplined_init threads stack hstack)
  exclusive i j stack stack' mode _ hstack _ hholds _ := by
    obtain ⟨-, rfl⟩ := List.mem_replicate.mp (List.mem_of_getElem? hstack)
    obtain ⟨f, hf, -⟩ := hholds
    cases hf
  held i stack hstack hpending := by
    obtain ⟨-, rfl⟩ := List.mem_replicate.mp (List.mem_of_getElem? hstack)
    exact absurd rfl hpending
  idle _ := rfl

lemma exists_abstracts {threads : ℕ} {as : List Action} (hm : Visits step (init threads) as m) :
    ∃ ops N, exec Node.step {} ops = some N ∧ m.Abstracts N := by
  apply hm.simulation (abstracts_init threads)
  intro m a m' N _ hstep h
  exact h.step hstep

/-- The peer table, the clock and the membership events as the thread leaves them that holds the
lock, if one does. -/
def view (m : Machine) : Node := m.node.settled ((m.threads.findSome? pending).getD [])

lemma Abstracts.eq_view (h : m.Abstracts N) : N = m.view := by
  cases hfind : m.threads.findSome? pending with
  | none =>
    rw [view, hfind]
    apply h.idle
    intro i stack hstack
    exact List.findSome?_eq_none_iff.mp hfind stack (List.mem_of_getElem? hstack)
  | some code =>
    obtain ⟨stack, hmem, hpending⟩ := List.exists_of_findSome?_eq_some hfind
    obtain ⟨i, hi⟩ := List.mem_iff_getElem?.mp hmem
    rw [h.held i stack hi (by simp [hpending]), view, hfind, Shared.view, hpending]

/-- In every run of any number of threads, and whatever the handlers call, what the threads do to
the table is what a run of whole operations does. -/
theorem exists_operations (threads : ℕ) (as : List Action)
    (hm : Visits step (init threads) as m) : ∃ ops, exec Node.step {} ops = some m.view := by
  obtain ⟨ops, N, hexec, h⟩ := exists_abstracts hm
  exact ⟨ops, h.eq_view ▸ hexec⟩

/-- The handler sleeps while its thread holds the lock. -/
theorem exists_operations_sleep :
    ∃ m, Visits step (init 2) (handlerRun ++ [.call 0 (.sleepAsync 5), .run 0 {}]) m ∧
      ∃ ops, exec Node.step {} ops = some m.view :=
  ⟨_, ⟨_, List.prefix_refl _, rfl⟩,
    exists_operations 2 (handlerRun ++ [.call 0 (.sleepAsync 5), .run 0 {}])
      ⟨_, List.prefix_refl _, rfl⟩⟩

/-- So whenever nobody holds the lock exclusively, the table and the events agree. -/
theorem consistent_of_idle (threads : ℕ) (as : List Action)
    (hm : Visits step (init threads) as m) (hidle : ∀ stack ∈ m.threads, ¬ Holds stack .unique) :
    Consistent { peers := m.node.peers, events := m.node.events } := by
  obtain ⟨ops, N, hexec, h⟩ := exists_abstracts hm
  have hN : N = m.node.settled [] := by
    apply h.idle
    intro i stack hstack
    by_contra hpending
    exact hidle stack (List.mem_of_getElem? hstack) (holds_of_pending hpending)
  have hconsistent : Consistent N := .visits ⟨ops, List.prefix_refl ops, hexec⟩
  rw [hN] at hconsistent
  constructor
  · exact hconsistent.entry
  · intro id
    simpa [Shared.settled, settle, history_membership] using hconsistent.tracks id

/-- The handler returns, and `add_peer` goes on to its end. -/
theorem consistent_of_idle_addPeer :
    ∃ m, Visits step (init 2) (handlerRun ++ [.finish 0 false, .run 0 {}, .run 0 {}, .run 0 {}])
        m ∧
      Consistent { peers := m.node.peers, events := m.node.events } := by
  refine ⟨_, ⟨_, List.prefix_refl _, rfl⟩,
    consistent_of_idle 2 (handlerRun ++ [.finish 0 false, .run 0 {}, .run 0 {}, .run 0 {}])
      ⟨_, List.prefix_refl _, rfl⟩ ?_⟩
  intro stack hstack
  change stack ∈ [[], []] at hstack
  obtain rfl : stack = [] := by simpa using hstack
  exact not_holds_of_isFree (by simp) _

end Machine

end Mesh
