import LibUdp.Mesh.Node.Locking.Discipline

/-!
# Handlers and the peer lock

`add_peer` and a health check pass dispatch while they hold the lock of the peer table, and no
other operation does. So a handler runs above a held lock just when it is called for one of the
events of these two.
-/

namespace Mesh

open Run

variable {env : Env} {node node' : Shared} {code : List Stmt} {held : Option LockMode}
  {below stack stack' : List Frame} {context : Context}

/-- The statement calls the socket. -/
def Stmt.usesSocket : Stmt → Bool
  | .receive _ | .send => true
  | _ => false

/-- The thread is in a call of the socket, where it waits for a completion entry. -/
def AtSocket (stack : List Frame) : Prop :=
  ∃ stmt code held below, stack = .operation (stmt :: code) held :: below ∧ stmt.usesSocket

/-- The thread is in front of a lock. -/
def Waits (stack : List Frame) : Prop :=
  ∃ mode code held below, stack = .operation (.lock mode :: code) held :: below

/-- Outside of handlers and client code, only the lock and the socket keep a thread waiting. -/
lemma isSome_advance (hne : stack ≠ []) (hhandler : stack.head? ≠ some .handler)
    (hlock : Waits stack → context.owns) (hsocket : ¬ AtSocket stack)
    (hclock : node.clock ≤ env.now) (horder : IsOrder env.order node.peers) :
    (Mesh.advance context env node stack).isSome := by
  match stack with
  | [] => exact absurd rfl hne
  | .handler :: below => exact absurd rfl hhandler
  | .dispatch event 0 :: below => rfl
  | .dispatch event (n + 1) :: below => rfl
  | .operation [] held :: below => rfl
  | .operation (stmt :: code) held :: below =>
    rw [Mesh.advance]
    cases stmt with
    | lock mode =>
      have howns := hlock ⟨mode, code, held, below, rfl⟩
      simp only [execute, howns, if_true]
      split_ifs <;> rfl
    | receive locals => exact absurd ⟨_, code, held, below, rfl, rfl⟩ hsocket
    | send => exact absurd ⟨_, code, held, below, rfl, rfl⟩ hsocket
    | insertPeer endpoint => simp [execute, hclock]
    | check => simp [execute, hclock, horder]
    | expire now order =>
      cases order with
      | nil => rfl
      | cons id order =>
        rw [execute]
        cases node.peers.lookup id with
        | none => rfl
        | some peer =>
          dsimp only
          split_ifs <;> rfl
    | subscribe eventType =>
      rw [execute]
      split_ifs <;> rfl
    | _ => rfl

/-! ### Stacks that keep the discipline -/

namespace StackOK

/-- Frames below the top two hold no lock, and neither does a frame below a handler. -/
lemma held_of_handler (hstack : StackOK stack) {above : List Frame}
    (heq : stack = above ++ .handler :: below) : ∀ f ∈ below, f.held = none := by
  intro f hf
  cases hstack with
  | free h => exact (h f (by simp [heq, hf])).held
  | locked _ _ h =>
    cases above with
    | nil => cases heq
    | cons g above =>
      obtain ⟨-, rfl⟩ := List.cons.inj heq
      exact (h f (by simp [hf])).held
  | dispatching _ _ h =>
    match above with
    | [] => cases heq
    | [g] => cases heq
    | g :: g' :: above =>
      obtain ⟨-, heq⟩ := List.cons.inj heq
      obtain ⟨-, rfl⟩ := List.cons.inj heq
      exact (h f (by simp [hf])).held

lemma held_of_waiting (hstack : StackOK stack) {mode : LockMode}
    (heq : stack = .operation (.lock mode :: code) held :: below) :
    ∀ f ∈ stack, f.held = none := by
  intro f hf
  cases hstack with
  | free h => exact (h f hf).held
  | @locked _ scope _ _ hmode hcode _ =>
    cases heq
    cases scope with
    | outside => cases hmode
    | _ => cases hcode
  | dispatching _ _ _ => cases heq

/-- A thread that holds the lock can go on, unless it waits for the socket. -/
lemma isSome_advance (hstack : StackOK stack) (hheld : ∃ f ∈ stack, f.held ≠ none)
    (hsocket : ¬ AtSocket stack) (hclock : node.clock ≤ env.now)
    (horder : IsOrder env.order node.peers) :
    (Mesh.advance context env node stack).isSome := by
  obtain ⟨f, hf, hheld⟩ := hheld
  refine Mesh.isSome_advance (List.ne_nil_of_mem hf) ?_ ?_ hsocket hclock horder
  · cases hstack with
    | free h => exact absurd (h f hf).held hheld
    | locked _ _ _ => simp
    | dispatching _ _ _ => simp
  · rintro ⟨mode, code, held, below, hwaits⟩
    exact absurd (hstack.held_of_waiting hwaits f hf) hheld

end StackOK

/-! ### Runs -/

namespace Machine

/-- Handlers run without the lock, and nobody waits for a lock that is held further down in the
same chain of calls. -/
structure Safe (m : Machine) : Prop where
  handler : ∀ stack ∈ m.threads, ∀ above below, stack = above ++ .handler :: below →
    ∀ f ∈ below, f.held = none
  waiting : ∀ stack ∈ m.threads, ∀ mode code held below,
    stack = .operation (.lock mode :: code) held :: below → ∀ f ∈ stack, f.held = none
  /-- a lock that cannot be taken is held by another thread, and that thread can go on or waits
  for the socket -/
  acquire : ∀ thread mode code held below, m.node.exit = none →
    m.threads[thread]? = some (.operation (.lock mode :: code) held :: below) →
    m.available mode = false → ∃ thread' stack', thread' ≠ thread ∧
      m.threads[thread']? = some stack' ∧ (∃ f ∈ stack', f.held ≠ none) ∧
      (AtSocket stack' ∨ ∀ env, m.node.clock ≤ env.now → IsOrder env.order m.node.peers →
        (m.step (.run thread' env)).isSome)

def Disciplined (m : Machine) : Prop := ∀ stack ∈ m.threads, StackOK stack

variable {m m' : Machine} {a : Action}

lemma step_eq_some_iff : m.step a = some m' ↔ m.node.exit = none ∧ ∃ stack node stack',
    m.threads[a.thread]? = some stack ∧ m.stepThread stack a = some (node, stack') ∧
      { node, threads := m.threads.set a.thread stack' } = m' := by
  simp [step, Option.bind_eq_some_iff]

/-- A thread that can go on makes the machine go on. -/
lemma isSome_step_run {thread : ℕ} (hexit : m.node.exit = none)
    (hstack : m.threads[thread]? = some stack)
    (hadvance : (Mesh.advance (m.context stack) env m.node stack).isSome) :
    (m.step (.run thread env)).isSome := by
  obtain ⟨⟨node, stack'⟩, hadvance⟩ := Option.isSome_iff_exists.mp hadvance
  exact Option.isSome_iff_exists.mpr
    ⟨_, step_eq_some_iff.mpr ⟨hexit, stack, node, stack', hstack, hadvance, rfl⟩⟩

lemma disciplined_init (threads : ℕ) : Disciplined (init threads) := by
  intro stack hstack
  obtain ⟨-, rfl⟩ := List.mem_replicate.mp hstack
  exact .free (by simp)

lemma Disciplined.step (h : m.Disciplined)
    (hquiet : ∀ thread env stack, a = .run thread env → m.threads[thread]? = some stack →
      Quiet stack) (hstep : m.step a = some m') : m'.Disciplined := by
  obtain ⟨-, stack, node, stack', hstack, hthread, rfl⟩ := step_eq_some_iff.mp hstep
  intro stack₁ hstack₁
  rcases List.mem_or_eq_of_mem_set hstack₁ with hold | rfl
  · exact h stack₁ hold
  · refine ((h stack (List.mem_of_getElem? hstack)).advances_stepThread ?_ hthread).stackOK
    rintro thread env rfl
    exact hquiet thread env stack rfl hstack

/-- A lock that cannot be taken is held in some stack. -/
lemma exists_held_of_available {mode : LockMode} (h : m.available mode = false) :
    ∃ stack ∈ m.threads, ∃ f ∈ stack, f.held ≠ none := by
  cases mode with
  | unique => simpa [available] using h
  | shared =>
    obtain ⟨stack, hstack, hall⟩ := List.all_eq_false.mp h
    obtain ⟨f, hf, hheld⟩ := List.all_eq_false.mp (Bool.not_eq_true _ ▸ hall)
    have hheld : f.held = some .unique := by simpa using hheld
    exact ⟨stack, hstack, f, hf, by simp [hheld]⟩

lemma Disciplined.safe (h : m.Disciplined) : m.Safe where
  handler stack hstack _ _ heq := (h stack hstack).held_of_handler heq
  waiting stack hstack _ _ _ _ heq := (h stack hstack).held_of_waiting heq
  acquire thread mode code held below hexit hthread hbusy := by
    obtain ⟨stack', hmem, hheld⟩ := exists_held_of_available hbusy
    obtain ⟨thread', hthread'⟩ := List.mem_iff_getElem?.mp hmem
    refine ⟨thread', stack', ?_, hthread', hheld, ?_⟩
    · rintro rfl
      rw [hthread] at hthread'
      cases hthread'
      obtain ⟨f, hf, hheld⟩ := hheld
      exact hheld ((h _ hmem).held_of_waiting rfl f hf)
    · rw [or_iff_not_imp_left]
      intro hsocket env hclock horder
      exact isSome_step_run hexit hthread'
        ((h stack' hmem).isSome_advance hheld hsocket hclock horder)

/-- A step after which handlers run without the lock was a quiet one. -/
lemma Disciplined.quiet (h : m.Disciplined) {thread : ℕ} {env : Env} {stack : List Frame}
    (hexit : m.node.exit = none) (hstack : m.threads[thread]? = some stack)
    (hsafe : ∀ m', m.step (.run thread env) = some m' → m'.Safe) : Quiet stack := by
  rintro event n below rfl hevent
  by_contra hn
  obtain ⟨n, rfl⟩ := Nat.exists_eq_succ_of_ne_zero hn
  cases h _ (List.mem_of_getElem? hstack) with
  | free hfree =>
    have hfree := hfree _ (List.mem_cons_self ..)
    rw [Frame.IsFree, hevent] at hfree
    cases hfree
  | @dispatching event _ code below _ _ _ =>
    have hstep : m.step (.run thread env) = some ⟨m.node, m.threads.set thread
        (.handler :: .dispatch event n :: .operation code (some .unique) :: below)⟩ :=
      step_eq_some_iff.mpr ⟨hexit, _, _, _, hstack, rfl, rfl⟩
    have hmem : .handler :: .dispatch event n :: .operation code (some .unique) :: below ∈
        m.threads.set thread
          (.handler :: .dispatch event n :: .operation code (some .unique) :: below) :=
      List.mem_of_getElem? (List.getElem?_set_self (List.getElem?_eq_some_iff.mp hstack).1)
    have hheld := (hsafe _ hstep).handler _ hmem [] _ rfl (.operation code (some .unique)) (by simp)
    cases hheld

/-- In all states of a run handlers run without the lock, and no chain of calls waits for its own
lock, just when no step of the run calls a handler for `Peer_connected` or `Peer_disconnected`. -/
theorem safe_iff_quiet (threads : ℕ) (as : List Action) :
    (∀ m, Visits step (init threads) as m → m.Safe) ↔
      ∀ m thread env stack, Takes step (init threads) as m (.run thread env) →
        m.threads[thread]? = some stack → Quiet stack := by
  constructor
  · intro h
    have hdisc : ∀ m, Visits step (init threads) as m → m.Disciplined := by
      intro m hm
      apply hm.induction (disciplined_init threads)
      intro m a m' htakes hdisc hstep
      refine hdisc.step ?_ hstep
      rintro thread env stack rfl hstack
      have hexit := (step_eq_some_iff.mp hstep).1
      exact hdisc.quiet hexit hstack fun m' hstep => h m' (htakes.visits hstep)
    intro m thread env stack htakes hstack
    have hsafe : ∀ m', m.step (.run thread env) = some m' → m'.Safe :=
      fun m' hstep => h m' (htakes.visits hstep)
    obtain ⟨m', hstep⟩ := htakes.exists_step
    have hexit := (step_eq_some_iff.mp hstep).1
    exact (hdisc m htakes.visits_source).quiet hexit hstack hsafe
  · intro h m hm
    apply Disciplined.safe
    apply hm.induction (disciplined_init threads)
    intro m a m' htakes hdisc hstep
    refine hdisc.step ?_ hstep
    rintro thread env stack rfl hstack
    exact h m thread env stack htakes hstack

/-- A handler of `Peer_connected` is called by `add_peer`, which still holds the lock. -/
theorem not_safe_of_connected_handler :
    ¬ ∀ m, Visits step (init 1) [.call 0 (.subscribe "Peer_connected".toList), .run 0 {},
      .run 0 {}, .call 0 (.addPeer ⟨"127.0.0.1".toList, 8081⟩), .run 0 {}, .run 0 {}, .run 0 {},
      .run 0 {}] m → m.Safe := by
  intro h
  have hsafe := h _ ⟨_, List.prefix_refl _, rfl⟩
  have hheld := hsafe.handler _ (List.mem_cons_self ..) [] _ rfl
    (.operation [.unlock] (some .unique)) (by decide)
  cases hheld

end Machine

end Mesh
