import LibUdp.Mesh.Node.Locking.Atomicity

/-!
# Waiting for the lock

A thread that cannot take the lock waits for another thread, which has it and does not wait for it.
So no threads wait for each other. A handler that `add_peer` or a health check pass calls runs in
the thread that has the lock, and keeps all others from the table. What the handler itself calls
does not wait for the lock either.
-/

namespace Mesh

open Run

/-- A thread in front of a lock holds no lock, unless it is in a handler under the lock. -/
lemma Guarded.holds_of_waits {stack : List Frame} (h : Guarded stack) (hwaits : Waits stack)
    (hheld : ∃ f ∈ stack, f.held ≠ none) : Holds stack .unique := by
  cases h with
  | disciplined hok =>
    obtain ⟨mode, code, held, below, rfl⟩ := hwaits
    obtain ⟨f, hf, hheld⟩ := hheld
    exact absurd (hok.held_of_waiting rfl f hf) hheld
  | reentrant habove _ _ _ =>
    rw [holds_append_of_isFree habove]
    simp [holds_operation]

namespace Machine

variable {m m' : Machine} {a : Action} {stack : List Frame} {thread : ℕ} {env : Env}

lemma owns_iff : (m.context stack).owns ↔ Holds stack .unique := by simp [context, Holds]

/-- Where a thread does not get on in front of a lock, somebody else has the lock. -/
lemma available_of_blocked (hexit : m.node.exit = none) (hstack : m.threads[thread]? = some stack)
    (hwaits : Waits stack) (hblocked : m.step (.run thread env) = none) :
    (∃ mode, m.available mode = false) ∧ ¬ Holds stack .unique := by
  obtain ⟨mode, code, held, below, rfl⟩ := hwaits
  rw [← owns_iff]
  by_contra hgoes
  have hadvance : (Mesh.advance (m.context (.operation (.lock mode :: code) held :: below)) env
      m.node (.operation (.lock mode :: code) held :: below)).isSome := by
    rw [Mesh.advance, execute]
    split_ifs with havailable howns
    · rfl
    · rfl
    · exact absurd ⟨⟨mode, by simpa [context] using havailable⟩, howns⟩ hgoes
  have hstep := isSome_step_run hexit hstack hadvance
  rw [hblocked] at hstep
  cases hstep

/-- In every run, a thread that does not get on in front of a lock waits for another one. That
thread has the lock, and it is in a handler, or in a call of the socket, or it can go on. -/
theorem exists_holder (threads : ℕ) (as : List Action)
    (hm : Visits Machine.step (init threads) as m) (hexit : m.node.exit = none)
    (hstack : m.threads[thread]? = some stack) (hwaits : Waits stack) (env : Env)
    (hblocked : m.step (.run thread env) = none) :
    ∃ thread' stack', thread' ≠ thread ∧ m.threads[thread']? = some stack' ∧
      (∃ f ∈ stack', f.held ≠ none) ∧ (stack'.head? = some .handler ∨ AtSocket stack' ∨
        ∀ env, m.node.clock ≤ env.now → IsOrder env.order m.node.peers →
          (m.step (.run thread' env)).isSome) := by
  obtain ⟨-, N, -, habstracts⟩ := exists_abstracts hm
  obtain ⟨⟨mode, hbusy⟩, hnone⟩ := available_of_blocked hexit hstack hwaits hblocked
  obtain ⟨stack', hmem, hheld⟩ := exists_held_of_available hbusy
  obtain ⟨thread', hstack'⟩ := List.mem_iff_getElem?.mp hmem
  have hguarded := habstracts.guarded stack' hmem
  refine ⟨thread', stack', ?_, hstack', hheld, ?_⟩
  · rintro rfl
    rw [hstack, Option.some.injEq] at hstack'
    subst hstack'
    exact hnone (hguarded.holds_of_waits hwaits hheld)
  · rw [or_iff_not_imp_left, or_iff_not_imp_left]
    intro hhandler hsocket env hclock horder
    have hne : stack' ≠ [] := by
      obtain ⟨f, hf, -⟩ := hheld
      exact List.ne_nil_of_mem hf
    have howns : Waits stack' → (m.context stack').owns :=
      fun hwaits => owns_iff.mpr (hguarded.holds_of_waits hwaits hheld)
    exact isSome_step_run hexit hstack'
      (isSome_advance hne hhandler howns hsocket hclock horder)

/-- The second thread broadcasts while the handler in the first runs under the lock. -/
theorem exists_holder_broadcast :
    ∃ m, Visits step (init 2) (handlerRun ++ [.call 1 .broadcast]) m ∧
      ∃ thread' stack', thread' ≠ 1 ∧ m.threads[thread']? = some stack' ∧
        (∃ f ∈ stack', f.held ≠ none) ∧ (stack'.head? = some .handler ∨ AtSocket stack' ∨
          ∀ env, m.node.clock ≤ env.now → IsOrder env.order m.node.peers →
            (m.step (.run thread' env)).isSome) := by
  refine ⟨_, ⟨_, List.prefix_refl _, rfl⟩,
    exists_holder 2 (handlerRun ++ [.call 1 .broadcast]) ⟨_, List.prefix_refl _, rfl⟩ rfl rfl
      ⟨.shared, [.send, .unlock], none, [], rfl⟩ {} rfl⟩

/-! ### While a handler runs under the lock -/

/-- The handler of a dispatch under the lock, with what is below it. -/
def underLock (event : Event) (n : ℕ) (code : List Stmt) (below : List Frame) : List Frame :=
  .handler :: .dispatch event n :: .operation code (some .unique) :: below

section handler

variable {event : Event} {n : ℕ} {code : List Stmt} {above below : List Frame}

lemma holds_underLock : Holds (above ++ underLock event n code below) .unique :=
  ⟨.operation code (some .unique), by simp [underLock], rfl⟩

/-- The thread of the handler changes nothing that the lock protects. -/
lemma inert_of_underLock {node' : Shared} {stack' : List Frame}
    (hguarded : Guarded (above ++ underLock event n code below))
    (hnone : ∀ mode, m.available mode = false)
    (h : m.stepThread (above ++ underLock event n code below) a = some (node', stack')) :
    Inert m.node (above ++ underLock event n code below) node' stack' := by
  generalize hstack : above ++ underLock event n code below = stack at hguarded h ⊢
  cases hguarded with
  | disciplined hok =>
    have hheld := hok.held_of_handler hstack.symm (.operation code (some .unique)) (by simp)
    cases hheld
  | reentrant habove hevent hcode hbelow =>
    exact (Guarded.reentrant_step habove hevent hcode hbelow hnone h).2

lemma settled_of_underLock {N : Node} (h : m.Abstracts N)
    (hstack : m.threads[thread]? = some (above ++ underLock event n code below))
    (hstep : m.step a = some m') : m'.node.settled [] = m.node.settled [] := by
  have hnone := available_of_holds (List.mem_of_getElem? hstack) holds_underLock
  by_cases ha : a.thread = thread
  · obtain ⟨-, stack₁, node, stack', hstack₁, hthread, rfl⟩ := step_eq_some_iff.mp hstep
    rw [ha, hstack, Option.some.injEq] at hstack₁
    subst hstack₁
    have hguarded := h.guarded _ (List.mem_of_getElem? hstack)
    exact (inert_of_underLock hguarded hnone hthread).settled []
  · -- another thread does not have the lock
    obtain ⟨stack₁, node, stack', hstack₁, -, rfl, -, hmoves⟩ := exists_moves h.guarded hstep
    refine (hmoves.settled_of_pending ?_).1 []
    by_contra hpending
    exact h.exclusive _ _ _ _ _ (Ne.symm ha) hstack hstack₁ holds_underLock
      (holds_of_pending hpending)

/-- While a handler runs that was called under the lock, whatever it calls and whatever the other
threads do, the peer table stays as it is, nobody reads the clock, and no peer is said to have
connected or disconnected. What the handler calls does not wait for the lock. -/
theorem peers_of_handler (threads : ℕ) (as : List Action)
    (hm : Visits Machine.step (init threads) as m) (bs : List Action)
    (hhandler : ∀ m₁ a, Takes Machine.step m bs m₁ a →
      ∃ above, m₁.threads[thread]? = some (above ++ underLock event n code below))
    (hm' : Visits Machine.step m bs m') :
    m'.node.peers = m.node.peers ∧ m'.node.clock = m.node.clock ∧
      m'.node.events.filter Event.isMembership = m.node.events.filter Event.isMembership ∧
      ∀ above env, m'.node.exit = none →
        m'.threads[thread]? = some (above ++ underLock event n code below) →
        Waits (above ++ underLock event n code below) → (m'.step (.run thread env)).isSome := by
  obtain ⟨-, N, -, habstracts⟩ := exists_abstracts hm
  have hinv := hm'.induction
    (P := fun m' => m'.node.settled [] = m.node.settled [] ∧ ∃ N, m'.Abstracts N)
    ⟨rfl, N, habstracts⟩ fun m₁ a m₂ htakes h₁ hstep => by
      obtain ⟨hsettled, N₁, habstracts₁⟩ := h₁
      obtain ⟨N₂, habstracts₂, -⟩ := habstracts₁.step hstep
      obtain ⟨above, hstack⟩ := hhandler m₁ a htakes
      exact ⟨(settled_of_underLock habstracts₁ hstack hstep).trans hsettled, N₂, habstracts₂⟩
  refine ⟨congrArg Node.peers hinv.1, congrArg Node.clock hinv.1, ?_, ?_⟩
  · have hevents := congrArg Node.events hinv.1
    simpa [Shared.settled, settle] using hevents
  · intro above env hexit hstack hwaits
    by_contra hblocked
    rw [Option.not_isSome_iff_eq_none] at hblocked
    exact (available_of_blocked hexit hstack hwaits hblocked).2 holds_underLock

end handler

/-- The handler adds a peer itself, which ends with an error. -/
theorem peers_of_handler_addPeer :
    ∃ m m', Visits step (init 2) handlerRun m ∧
      Visits step m [.call 0 (.addPeer ⟨"127.0.0.1".toList, 8082⟩), .run 0 {}, .run 0 {}] m' ∧
      m'.node.peers = m.node.peers ∧ m'.node.clock = m.node.clock ∧
      m'.node.events.filter Event.isMembership = m.node.events.filter Event.isMembership ∧
      ∀ above env, m'.node.exit = none → m'.threads[0]? = some (above ++ underLock
          (.peerConnected ⟨"127.0.0.1".toList, 8081⟩) 0 [.unlock] []) →
        Waits (above ++ underLock (.peerConnected ⟨"127.0.0.1".toList, 8081⟩) 0 [.unlock] []) →
        (m'.step (.run 0 env)).isSome := by
  refine ⟨_, _, ⟨_, List.prefix_refl _, rfl⟩, ⟨_, List.prefix_refl _, rfl⟩,
    peers_of_handler 2 handlerRun ⟨_, List.prefix_refl _, rfl⟩
      [.call 0 (.addPeer ⟨"127.0.0.1".toList, 8082⟩), .run 0 {}, .run 0 {}] ?_
      ⟨_, List.prefix_refl _, rfl⟩⟩
  exact forall_takes_cons rfl ⟨[], rfl⟩ (forall_takes_cons rfl ⟨[_], rfl⟩
    (forall_takes_cons rfl ⟨[_], rfl⟩ fun _ _ h => absurd h not_takes_nil))

end Machine

end Mesh
