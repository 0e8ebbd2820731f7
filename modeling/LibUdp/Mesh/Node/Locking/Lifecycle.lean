import LibUdp.Mesh.Node.Locking.Properties

/-!
# The life of a node in one thread

`start` calls the loops one after the other, and a loop returns when the node has been stopped. In
one thread the receive loop is therefore the only one that ever does anything, and `start` says
that the node has started after it has been stopped. Handlers call what they like, `start` and
`stop` included.
-/

namespace Mesh

open Run

namespace Event

/-- What `start` and `stop` dispatch. -/
def started : Event := .networkStateChanged true "Node started".toList

def stopped : Event := .networkStateChanged false "Node stopped".toList

lemma started_ne_stopped : started ≠ stopped := by simp [started, stopped]

/-- The event is neither about the state of the node nor about a lost peer. -/
def isOrdinary : Event → Bool
  | .networkStateChanged _ _ | .peerDisconnected _ => false
  | _ => true

end Event

/-! ### Code outside `start` and `stop` -/

/-- A statement of the operations that neither start nor stop the node. -/
def Stmt.isPlain : Stmt → Bool
  | .lock _ | .unlock | .send | .insertPeer _ | .subscribe _ => true
  | .dispatch event => event.isOrdinary
  | _ => false

/-- What `start` has still to do after it has called the loop. -/
def startAfter : Loop → List Stmt
  | .receive     =>
    [.call (.runLoop .healthCheck), .call (.runLoop .discovery), .dispatch .started]
  | .healthCheck => [.call (.runLoop .discovery), .dispatch .started]
  | .discovery   => [.dispatch .started]

/-- The calls that are not about the life of the node. -/
lemma Call.isPlain_body {c : Call} (hpublic : c.isPublic) (hstart : c ≠ .start)
    (hstop : c ≠ .stop) : ∀ stmt ∈ c.body, stmt.isPlain := by
  cases c with
  | start => exact absurd rfl hstart
  | stop => exact absurd rfl hstop
  | runLoop l => cases hpublic
  | _ => simp [Call.body, Stmt.isPlain, Event.isOrdinary]

/-! ### Stacks of a thread -/

/-- What the local variables of the receive loop are like: nothing is thrown in its `try` block, and
the buffer keeps its size. -/
structure Locals.Receiving (locals : Locals) : Prop where
  errorMessage : locals.errorMessage = []
  length : locals.buffer.length = maxPacket

/-- What the receive loop has still to do. -/
inductive Receives : List Stmt → Prop where
  | loop {locals : Locals} (h : locals.Receiving) : Receives [.loop .receive locals]
  | receive {locals : Locals} (h : locals.Receiving) : Receives [.receive locals]
  | dispatch {locals : Locals} (h : locals.Receiving) :
      Receives [.dispatch (.messageReceived locals.buffer []), .endTry .receive locals]
  | endTry {locals : Locals} (h : locals.Receiving) : Receives [.endTry .receive locals]

lemma Receives.init : Receives [.loop .receive {}] := .loop ⟨rfl, List.length_replicate⟩

/-- Where the receive loop goes on. -/
lemma Receives.rest {locals : Locals} (h : locals.Receiving) :
    Receives (Loop.rest .receive locals) := by
  rw [Loop.rest, h.errorMessage]
  exact .loop h

lemma Locals.Receiving.write {locals : Locals} (h : locals.Receiving) (reception : Reception) :
    Receiving { locals with buffer := reception.write locals.buffer } :=
  ⟨h.errorMessage, reception.length_write h.length⟩

/-- The stacks of a thread that can occur whether the node runs or not, with the number of calls
of `start` in it that are in progress: they have set `m_running` and still have to say so. -/
inductive Live : ℕ → List Frame → Prop where
  | client : Live 0 []
  | handler {n : ℕ} {below : List Frame} (h : Live n below) : Live n (.handler :: below)
  | dispatch {n : ℕ} {below : List Frame} (event : Event) (remaining : ℕ) (h : Live n below) :
      Live n (.dispatch event remaining :: below)
  | plain {n : ℕ} {below : List Frame} {code : List Stmt} (hcode : ∀ stmt ∈ code, stmt.isPlain)
      (held : Option LockMode) (h : Live n below) : Live n (.operation code held :: below)
  | start {n : ℕ} {below : List Frame} (h : Live n below) :
      Live n (.operation Call.start.body none :: below)
  | stop {n : ℕ} {below : List Frame} (h : Live n below) :
      Live n (.operation Call.stop.body none :: below)
  | started {n : ℕ} {below : List Frame} (h : Live n below) :
      Live (n + 1) (.operation (.call (.runLoop .receive) :: startAfter .receive) none :: below)
  | receiving {n : ℕ} {below : List Frame} {code : List Stmt} (hcode : Receives code)
      (h : Live n below) :
      Live (n + 1) (.operation code none :: .operation (startAfter .receive) none :: below)

/-- All stacks of a thread, by whether the node runs. -/
inductive Stage : Bool → ℕ → List Frame → Prop where
  | live {running : Bool} {n : ℕ} {stack : List Frame} (h : Live n stack) : Stage running n stack
  | starting {n : ℕ} {below : List Frame} (h : Live n below) :
      Stage false n (.operation (.setRunning true :: .call (.runLoop .receive) ::
        startAfter .receive) none :: below)
  | stopping {n : ℕ} {below : List Frame} (h : Live n below) :
      Stage true n (.operation [.setRunning false, .dispatch .stopped] none :: below)
  /-- `stop` has still to say so, which makes up for a `start` that has still to say so -/
  | stopped {n : ℕ} {below : List Frame} (h : Live (n + 1) below) :
      Stage false n (.operation [.dispatch .stopped] none :: below)
  /-- the loops have not gone on since the node was stopped -/
  | skipping {n : ℕ} {below : List Frame} {l : Loop} (hl : l ≠ .receive) (h : Live n below) :
      Stage false (n + 1) (.operation [.loop l {}] none :: .operation (startAfter l) none :: below)
  | returned {n : ℕ} {below : List Frame} (l : Loop) (h : Live n below) :
      Stage false (n + 1) (.operation [] none :: .operation (startAfter l) none :: below)
  | between {n : ℕ} {below : List Frame} (l : Loop) (h : Live n below) :
      Stage false (n + 1) (.operation (startAfter l) none :: below)

/-- The announcements of a node add up. -/
structure Balanced (node : Shared) (n : ℕ) : Prop where
  count : node.events.count .stopped + node.running.toNat = node.events.count .started + n
  le : node.running.toNat ≤ n
  connected : ∀ id, .peerDisconnected id ∉ node.events

/-- No entry of the table changes or goes. -/
def Grows (peers peers' : PeerTable) : Prop :=
  ∀ id peer, peers.lookup id = some peer → peers'.lookup id = some peer

variable {context : Context} {env : Env} {node node' : Shared} {n : ℕ}
  {code : List Stmt} {held : Option LockMode} {below stack stack' : List Frame} {stmt : Stmt}

lemma Grows.refl (peers : PeerTable) : Grows peers peers := fun _ _ h => h

lemma grows_addPeer (now : Time) (endpoint : Endpoint) (peers : PeerTable) :
    Grows peers (addPeer now endpoint peers).1 := by
  intro id peer hpeer
  by_cases hmem : endpoint.toPeerId ∈ peers
  · rwa [addPeer_of_mem hmem]
  · have hne : id ≠ endpoint.toPeerId := by
      rintro rfl
      exact hmem (Finmap.mem_of_lookup_eq_some hpeer)
    rwa [addPeer_of_not_mem hmem, Finmap.lookup_insert_of_ne _ hne]

/-- A dispatch of an ordinary event. -/
lemma Balanced.dispatch (h : Balanced node n) {event : Event} (hevent : event.isOrdinary) :
    Balanced { node with events := node.events ++ [event] } n := by
  refine ⟨?_, h.le, ?_⟩
  · have hstopped : event ≠ .stopped := by
      rintro rfl
      cases hevent
    have hstarted : event ≠ .started := by
      rintro rfl
      cases hevent
    simpa [List.count_append, hstopped, hstarted] using h.count
  · intro id hid
    rcases List.mem_append.mp hid with hid | hid
    · exact h.connected id hid
    · cases List.mem_singleton.mp hid
      cases hevent

/-- The process ends. -/
lemma Balanced.exit (h : Balanced node n) (exit : Option Exit) :
    Balanced { node with exit } n :=
  ⟨h.count, h.le, h.connected⟩

lemma unwind_of_isPlain (h : ∀ stmt ∈ code, stmt.isPlain) (what : Text) :
    unwind what code = [] := by
  induction code with
  | nil => rfl
  | cons stmt code ih =>
    obtain ⟨hstmt, hcode⟩ := List.forall_mem_cons.mp h
    cases stmt with
    | endTry l locals => cases hstmt
    | _ => exact ih hcode

/-- A statement that neither starts nor stops the node. -/
lemma Live.execute (hcode : ∀ stmt' ∈ stmt :: code, stmt'.isPlain) (hbelow : Live n below)
    (hnode : Balanced node n)
    (h : execute context env node code held below stmt = some (node', stack')) :
    Live n stack' ∧ Balanced node' n ∧ Grows node.peers node'.peers := by
  obtain ⟨hstmt, hrest⟩ := List.forall_mem_cons.mp hcode
  have hplain : ∀ held, Live n (.operation code held :: below) :=
    fun held => .plain hrest held hbelow
  cases stmt with
  | lock mode =>
    obtain ⟨rfl, ⟨-, rfl⟩ | ⟨-, what, rfl⟩⟩ := execute_lock h
    · exact ⟨hplain _, hnode, .refl _⟩
    · rw [unwind_of_isPlain hrest]
      exact ⟨.plain (List.forall_mem_nil _) held hbelow, hnode, .refl _⟩
  | unlock =>
    cases h
    exact ⟨hplain _, hnode, .refl _⟩
  | send =>
    obtain ⟨exit, code', rfl, rfl | rfl, rfl⟩ := execute_send h
    · exact ⟨hplain _, hnode.exit _, .refl _⟩
    · exact ⟨.plain hcode held hbelow, hnode.exit _, .refl _⟩
  | insertPeer endpoint =>
    simp only [Mesh.execute, Option.ite_none_right_eq_some, Option.some.injEq,
      Prod.mk.injEq] at h
    obtain ⟨-, rfl, rfl⟩ := h
    refine ⟨.plain ?_ _ hbelow, ⟨hnode.count, hnode.le, hnode.connected⟩, grows_addPeer _ _ _⟩
    intro stmt hstmt
    rcases List.mem_append.mp hstmt with hstmt | hstmt
    · obtain ⟨event, hevent, rfl⟩ := List.mem_map.mp hstmt
      rw [addPeer] at hevent
      split_ifs at hevent
      · cases hevent
      · cases List.mem_singleton.mp hevent
        rfl
    · exact hrest stmt hstmt
  | dispatch event =>
    cases h
    exact ⟨.dispatch _ _ (hplain _), hnode.dispatch hstmt, .refl _⟩
  | subscribe eventType =>
    rcases execute_subscribe h with ⟨-, rfl, rfl⟩ | ⟨rfl, rfl⟩
    · exact ⟨.plain hcode held hbelow, hnode.exit _, .refl _⟩
    · exact ⟨hplain _, ⟨hnode.count, hnode.le, hnode.connected⟩, .refl _⟩
  | _ => cases hstmt

lemma Balanced.setRunning {n' : ℕ} {running : Bool} (h : Balanced node n)
    (hcount : node.events.count .stopped + running.toNat = node.events.count .started + n')
    (hle : running.toNat ≤ n') : Balanced { node with running } n' :=
  ⟨hcount, hle, h.connected⟩

/-- The dispatch of what `start` or `stop` has to say, when the node is not running. -/
lemma Balanced.announce {n' : ℕ} {event : Event} (h : Balanced node n)
    (hrunning : node.running = false) (hevent : ∀ id, event ≠ .peerDisconnected id)
    (hcount : (node.events ++ [event]).count .stopped =
      (node.events ++ [event]).count .started + n') :
    Balanced { node with events := node.events ++ [event] } n' := by
  refine ⟨by rwa [hrunning, Bool.toNat_false, add_zero], by simp [hrunning], ?_⟩
  intro id hid
  rcases List.mem_append.mp hid with hid | hid
  · exact h.connected id hid
  · exact hevent id (List.mem_singleton.mp hid).symm

/-- What a step of the thread does from a stack that can always occur. -/
lemma Live.advance (hstack : Live n stack) (hnode : Balanced node n)
    (h : advance context env node stack = some (node', stack')) :
    ∃ n', Stage node'.running n' stack' ∧ Balanced node' n' ∧ Grows node.peers node'.peers := by
  cases hstack with
  | client => cases h
  | handler hbelow => cases h
  | dispatch event remaining hbelow =>
    cases remaining with
    | zero =>
      cases h
      exact ⟨n, .live hbelow, hnode, .refl _⟩
    | succ remaining =>
      cases h
      exact ⟨n, .live (.handler (.dispatch event remaining hbelow)), hnode, .refl _⟩
  | @plain _ below code hcode held hbelow =>
    cases code with
    | nil =>
      cases h
      exact ⟨n, .live hbelow, hnode, .refl _⟩
    | cons stmt code =>
      obtain ⟨hstack', hnode', hpeers⟩ := hbelow.execute hcode hnode h
      exact ⟨n, .live hstack', hnode', hpeers⟩
  | start hbelow =>
    cases h
    cases hrunning : node.running with
    | true =>
      refine ⟨n, ?_, hnode, .refl _⟩
      exact .live (.plain (by simp) none hbelow)
    | false =>
      refine ⟨n, ?_, hnode, .refl _⟩
      exact .starting hbelow
  | stop hbelow =>
    cases h
    cases hrunning : node.running with
    | true =>
      refine ⟨n, ?_, hnode, .refl _⟩
      exact .stopping hbelow
    | false =>
      refine ⟨n, ?_, hnode, .refl _⟩
      exact .live (.plain (by simp) none hbelow)
  | started hbelow =>
    cases h
    exact ⟨_, .live (.receiving .init hbelow), hnode, .refl _⟩
  | receiving hcode hbelow =>
    cases hcode with
    | loop hlocals =>
      cases h
      cases hrunning : node.running with
      | true => exact ⟨_, .live (.receiving (.receive hlocals) hbelow), hnode, .refl _⟩
      | false =>
        refine ⟨_, ?_, hnode, .refl _⟩
        exact .returned .receive hbelow
    | receive hlocals =>
      rw [Mesh.advance] at h
      rcases execute_receive h with ⟨rfl, rfl⟩ | ⟨rfl, reception, locals', rfl, rfl⟩
      · exact ⟨_, .live (.receiving (.receive hlocals) hbelow), hnode.exit _, .refl _⟩
      · have hcode := Receives.dispatch (hlocals.write reception)
        exact ⟨_, .live (.receiving hcode hbelow), hnode, .refl _⟩
    | dispatch hlocals =>
      cases h
      refine ⟨_, .live (.dispatch _ _ (.receiving (.endTry hlocals) hbelow)), ?_, .refl _⟩
      exact hnode.dispatch rfl
    | endTry hlocals =>
      cases h
      rw [List.append_nil]
      exact ⟨_, .live (.receiving (.rest hlocals) hbelow), hnode, .refl _⟩

/-- What a step of the thread does from any stack. -/
lemma Stage.advance {running : Bool} (hrunning : node.running = running)
    (hstack : Stage running n stack) (hnode : Balanced node n)
    (h : Mesh.advance context env node stack = some (node', stack')) :
    ∃ n', Stage node'.running n' stack' ∧ Balanced node' n' ∧ Grows node.peers node'.peers := by
  have hcount := hnode.count
  rw [hrunning] at hcount
  cases hstack with
  | live hlive => exact hlive.advance hnode h
  | starting hbelow =>
    cases h
    refine ⟨n + 1, .live (.started hbelow), hnode.setRunning ?_ (by simp), .refl _⟩
    simp only [Bool.toNat_true, Bool.toNat_false] at hcount ⊢
    omega
  | stopping hbelow =>
    cases h
    have hle := hnode.le
    rw [hrunning] at hle
    obtain ⟨n', rfl⟩ := Nat.exists_eq_add_of_le' hle
    refine ⟨n', .stopped hbelow, hnode.setRunning ?_ (by simp), .refl _⟩
    simp only [Bool.toNat_true, Bool.toNat_false] at hcount ⊢
    omega
  | stopped hbelow =>
    cases h
    refine ⟨n + 1, .live (.dispatch _ _ (.plain (by simp) none hbelow)), ?_, .refl _⟩
    refine hnode.announce hrunning (by simp [Event.stopped]) ?_
    simp [List.count_append, Event.started_ne_stopped.symm] at hcount ⊢
    omega
  | @skipping n below l hl hbelow =>
    cases h
    rw [hrunning]
    exact ⟨n + 1, .returned l hbelow, hnode, .refl _⟩
  | returned l hbelow =>
    cases h
    rw [hrunning]
    exact ⟨_, .between l hbelow, hnode, .refl _⟩
  | @between n below l hbelow =>
    cases l with
    | receive =>
      cases h
      rw [hrunning]
      exact ⟨n + 1, .skipping (l := .healthCheck) (by decide) hbelow, hnode, .refl _⟩
    | healthCheck =>
      cases h
      rw [hrunning]
      exact ⟨n + 1, .skipping (l := .discovery) (by decide) hbelow, hnode, .refl _⟩
    | discovery =>
      cases h
      refine ⟨n, .live (.dispatch _ _ (.plain (by simp) none hbelow)), ?_, .refl _⟩
      refine hnode.announce hrunning (by simp [Event.started]) ?_
      simp [List.count_append, Event.started_ne_stopped] at hcount ⊢
      omega

lemma Live.call {c : Call} (hpublic : c.isPublic) (h : Live n stack) :
    Live n (.operation c.body none :: stack) := by
  by_cases hstart : c = .start
  · subst hstart
    exact .start h
  · by_cases hstop : c = .stop
    · subst hstop
      exact .stop h
    · exact .plain (Call.isPlain_body hpublic hstart hstop) none h

/-- A thread with an empty stack, or in a handler. -/
lemma Stage.live_of_client {running : Bool} (h : Stage running n stack)
    (hstack : stack = [] ∨ ∃ below, stack = .handler :: below) : Live n stack := by
  cases h with
  | live h => exact h
  | _ => rcases hstack with hstack | ⟨below, hstack⟩ <;> cases hstack

lemma Stage.stepThread {m : Machine} {a : Action} (hstack : Stage m.node.running n stack)
    (hnode : Balanced m.node n) (h : m.stepThread stack a = some (node', stack')) :
    ∃ n', Stage node'.running n' stack' ∧ Balanced node' n' ∧
      Grows m.node.peers node'.peers := by
  cases a with
  | run thread env => exact hstack.advance rfl hnode h
  | call thread c =>
    simp only [Machine.stepThread, Option.ite_none_right_eq_some] at h
    obtain ⟨hpublic, h⟩ := h
    split at h
    · cases h
      exact ⟨n, .live ((hstack.live_of_client (.inl rfl)).call hpublic), hnode, .refl _⟩
    · cases h
      exact ⟨n, .live ((hstack.live_of_client (.inr ⟨_, rfl⟩)).call hpublic), hnode, .refl _⟩
    · cases h
  | finish thread threw =>
    simp only [Machine.stepThread] at h
    split at h
    · cases h
      cases hstack.live_of_client (.inr ⟨_, rfl⟩) with
      | handler hdispatch =>
        refine ⟨n, .live ?_, hnode, .refl _⟩
        cases hdispatch with
        | dispatch _ _ hbelow =>
          split_ifs
          · exact hbelow
          · exact .dispatch _ _ hbelow
    · cases h

/-! ### Runs of one thread -/

namespace Machine

/-- The only thread of the machine has a stack that can occur, and the announcements add up. -/
def Single (m : Machine) : Prop :=
  ∃ stack n, m.threads = [stack] ∧ Stage m.node.running n stack ∧ Balanced m.node n

variable {m m' : Machine} {a : Action}

lemma single_init : Single (init 1) :=
  ⟨[], 0, rfl, .live .client, ⟨rfl, le_rfl, fun _ h => by cases h⟩⟩

/-- A step of a machine with one thread is one of that thread. -/
lemma exists_stepThread {stack : List Frame} (hthreads : m.threads = [stack])
    (hstep : m.step a = some m') : ∃ node stack', m.stepThread stack a = some (node, stack') ∧
      m' = { node, threads := [stack'] } := by
  obtain ⟨-, stack₁, node, stack', hget, hthread, rfl⟩ := step_eq_some_iff.mp hstep
  obtain ⟨hthread₀, rfl⟩ : a.thread = 0 ∧ stack = stack₁ := by
    simpa [hthreads, List.getElem?_singleton] using hget
  exact ⟨node, stack', hthread, by simp [hthreads, hthread₀]⟩

lemma Single.step (h : m.Single) (hstep : m.step a = some m') :
    m'.Single ∧ Grows m.node.peers m'.node.peers := by
  obtain ⟨stack, n, hthreads, hstack, hnode⟩ := h
  obtain ⟨node, stack', hthread, rfl⟩ := exists_stepThread hthreads hstep
  obtain ⟨n', hstack', hnode', hpeers⟩ := hstack.stepThread hnode hthread
  exact ⟨⟨stack', n', rfl, hstack', hnode'⟩, hpeers⟩

lemma Single.visits {as : List Action} (h : Visits Machine.step (init 1) as m) : m.Single :=
  h.invariant (fun _ _ _ hm hstep => (hm.step hstep).1) single_init

lemma Single.grows {bs : List Action} (h : m.Single) (hm' : Visits Machine.step m bs m') :
    Grows m.node.peers m'.node.peers := by
  refine (hm'.invariant (P := fun m' => m'.Single ∧ Grows m.node.peers m'.node.peers) ?_
    ⟨h, .refl _⟩).2
  rintro m₁ a m₂ ⟨hm₁, hpeers⟩ hstep
  obtain ⟨hm₂, hpeers'⟩ := hm₁.step hstep
  exact ⟨hm₂, fun id peer hpeer => hpeers' id peer (hpeers id peer hpeer)⟩

end Machine

/-- An iteration of the loop begins. -/
def Iterates (l : Loop) (stack : List Frame) : Prop :=
  ∃ locals code held below, stack = .operation (l.body locals ++ code) held :: below

lemma Stage.not_iterates {running : Bool} (h : Stage running n stack) {l : Loop}
    (hl : l ≠ .receive) : ¬ Iterates l stack := by
  rintro ⟨locals, code, held, below, hstack⟩
  have htop : ∀ code' held' below', stack = .operation code' held' :: below' →
      ∃ locals, .endTry l locals ∈ code' := by
    rintro code' held' below' rfl
    cases hstack
    cases l with
    | receive => exact absurd rfl hl
    | healthCheck => exact ⟨locals, by simp [Loop.body]⟩
    | discovery => exact ⟨{ locals with errorMessage := [] }, by simp [Loop.body]⟩
  cases h with
  | live h =>
    cases h with
    | plain hcode _ _ =>
      obtain ⟨locals, hmem⟩ := htop _ _ _ rfl
      cases hcode _ hmem
    | receiving hcode _ =>
      obtain ⟨locals, hmem⟩ := htop _ _ _ rfl
      cases hcode <;> simp [hl] at hmem
    | start _ => simp [Call.body] at htop
    | stop _ => simp [Call.body] at htop
    | started _ => simp [startAfter] at htop
    | _ => cases hstack
  | between l' _ => cases l' <;> simp [startAfter] at htop
  | _ => simp [startAfter] at htop

namespace Machine

/-- A datagram of two bytes has come. -/
def hello : Env := { receiving := .completes (.datagram ⟨{}, [72, 105], by decide⟩) }

/-- The receive loop calls a handler of `Message_received`, and the handler calls `stop`. -/
def stoppingRun : List Action :=
  [.call 0 (.subscribe "Message_received".toList), .run 0 {}, .run 0 {}, .call 0 .start, .run 0 {},
    .run 0 {}, .run 0 {}, .run 0 {}, .run 0 hello, .run 0 {}, .run 0 {}, .call 0 .stop, .run 0 {}]

/-- In one thread the health check and the discovery never do anything: no iteration of their loops
begins, no peer is declared lost, and what is in the peer table stays there. -/
theorem only_receives_in_one_thread (as : List Action)
    (hm : Visits Machine.step (init 1) as m) :
    (∀ l, l ≠ .receive → ∀ stack ∈ m.threads, ¬ Iterates l stack) ∧
      (∀ id, .peerDisconnected id ∉ m.node.events) ∧
      ∀ bs m', Visits Machine.step m bs m' → Grows m.node.peers m'.node.peers := by
  obtain ⟨stack, n, hthreads, hstack, hnode⟩ := Single.visits hm
  refine ⟨?_, hnode.connected, fun bs m' hm' => (Single.visits hm).grows hm'⟩
  intro l hl stack' hstack'
  rw [hthreads, List.mem_singleton] at hstack'
  exact hstack' ▸ hstack.not_iterates hl

theorem only_receives_in_one_thread_stopping :
    ∃ m, Visits Machine.step (init 1) stoppingRun m ∧
      (∀ l, l ≠ .receive → ∀ stack ∈ m.threads, ¬ Iterates l stack) ∧
      (∀ id, .peerDisconnected id ∉ m.node.events) ∧
      ∀ bs m', Visits Machine.step m bs m' → Grows m.node.peers m'.node.peers :=
  ⟨_, ⟨_, List.prefix_refl _, rfl⟩,
    only_receives_in_one_thread stoppingRun ⟨_, List.prefix_refl _, rfl⟩⟩

/-- In one thread a node has said that it stopped at least as often as that it started, at every
moment of every run. -/
theorem started_le_stopped (as : List Action) (hm : Visits Machine.step (init 1) as m) :
    m.node.events.count .started ≤ m.node.events.count .stopped := by
  obtain ⟨-, n, -, -, hnode⟩ := Single.visits hm
  have hcount := hnode.count
  have hle := hnode.le
  omega

/-- The node says that it stopped, `stop` and the handler return, the loops end, and the node says
that it started. -/
theorem started_le_stopped_stopping :
    ∃ m, Visits Machine.step (init 1) (stoppingRun ++ List.replicate 4 (.run 0 {}) ++
      .finish 0 false :: List.replicate 11 (.run 0 {})) m ∧ .started ∈ m.node.events ∧
      m.node.events.count .started ≤ m.node.events.count .stopped :=
  ⟨_, ⟨_, List.prefix_refl _, rfl⟩, by decide,
    started_le_stopped (stoppingRun ++ List.replicate 4 (.run 0 {}) ++
      .finish 0 false :: List.replicate 11 (.run 0 {})) ⟨_, List.prefix_refl _, rfl⟩⟩

end Machine

/-! ### Where a running node keeps its thread -/

/-- A call of `start` has set `m_running` and has still to say so. -/
def Starting (stack : List Frame) : Prop :=
  ∃ code, .operation code none ∈ stack ∧ .dispatch .started ∈ code ∧ .setRunning true ∉ code

lemma Starting.cons {f : Frame} (h : Starting stack) : Starting (f :: stack) := by
  obtain ⟨code, hmem, hcode⟩ := h
  exact ⟨code, List.mem_cons_of_mem f hmem, hcode⟩

lemma Live.starting (h : Live n stack) (hn : 0 < n) : Starting stack := by
  induction h with
  | client => cases hn
  | started _ _ => exact ⟨_, List.mem_cons_self .., by simp [startAfter], by simp [startAfter]⟩
  | receiving _ _ _ =>
    exact ⟨_, List.mem_cons_of_mem _ (List.mem_cons_self ..), by simp [startAfter],
      by simp [startAfter]⟩
  | handler _ ih => exact (ih hn).cons
  | dispatch _ _ _ ih => exact (ih hn).cons
  | plain _ _ _ ih => exact (ih hn).cons
  | start _ ih => exact (ih hn).cons
  | stop _ ih => exact (ih hn).cons

/-- The statement neither stops the node nor calls what does. -/
def Stmt.keepsRunning : Stmt → Bool
  | .setRunning false | .call .stop => false
  | _ => true

def Frame.keepsRunning : Frame → Bool
  | .operation code _ => code.all Stmt.keepsRunning
  | _ => true

lemma Call.keepsRunning_body {c : Call} (hc : c ≠ .stop) : c.body.all Stmt.keepsRunning := by
  cases c with
  | stop => exact absurd rfl hc
  | _ => rfl

lemma keepsRunning_unwind (h : code.all Stmt.keepsRunning) (what : Text) :
    (unwind what code).all Stmt.keepsRunning := by
  induction code with
  | nil => rfl
  | cons stmt code ih =>
    obtain ⟨hstmt, hcode⟩ := (Bool.and_eq_true _ _).mp h
    cases stmt with
    | endTry l locals => exact hcode
    | _ => exact ih hcode

lemma keepsRunning_append {code' : List Stmt} (h : code.all Stmt.keepsRunning)
    (h' : code'.all Stmt.keepsRunning) : (code ++ code').all Stmt.keepsRunning := by
  rw [List.all_append, h, h']
  rfl

lemma keepsRunning_dispatch (events : List Event) :
    (events.map Stmt.dispatch).all Stmt.keepsRunning :=
  List.all_eq_true.mpr (List.forall_mem_map.mpr fun _ _ => rfl)

lemma Loop.keepsRunning_rest (l : Loop) (locals : Locals) :
    (l.rest locals).all Stmt.keepsRunning :=
  keepsRunning_append (keepsRunning_dispatch _) rfl

/-- A statement other than those does not stop the node. -/
lemma keepsRunning_execute (hcode : (stmt :: code).all Stmt.keepsRunning)
    (hbelow : ∀ f ∈ below, f.keepsRunning)
    (h : execute context env node code held below stmt = some (node', stack')) :
    (∀ f ∈ stack', f.keepsRunning) ∧ (node.running = true → node'.running = true) := by
  obtain ⟨hstmt, hrest⟩ := (Bool.and_eq_true _ _).mp hcode
  have hstack : ∀ {code held}, code.all Stmt.keepsRunning →
      ∀ f ∈ Frame.operation code held :: below, f.keepsRunning :=
    fun hcode => List.forall_mem_cons.mpr ⟨hcode, hbelow⟩
  cases stmt with
  | lock mode =>
    obtain ⟨rfl, ⟨-, rfl⟩ | ⟨-, what, rfl⟩⟩ := execute_lock h
    · exact ⟨hstack hrest, id⟩
    · exact ⟨hstack (keepsRunning_unwind hrest what), id⟩
  | returnIf running =>
    cases h
    refine ⟨?_, id⟩
    split_ifs
    · exact hstack rfl
    · exact hstack hrest
  | setRunning running =>
    cases h
    cases running with
    | true => exact ⟨hstack hrest, fun _ => rfl⟩
    | false => cases hstmt
  | loop l locals =>
    cases h
    refine ⟨hstack ?_, id⟩
    split_ifs
    · exact keepsRunning_append (by cases l <;> rfl) hrest
    · exact hrest
  | endTry l locals =>
    cases h
    exact ⟨hstack (keepsRunning_append (l.keepsRunning_rest locals) hrest), id⟩
  | receive locals =>
    rcases execute_receive h with ⟨rfl, rfl⟩ | ⟨rfl, -, locals', -, rfl⟩
    · exact ⟨hstack hcode, id⟩
    · exact ⟨hstack hrest, id⟩
  | send =>
    obtain ⟨exit, code', rfl, rfl | rfl, rfl⟩ := execute_send h
    · exact ⟨hstack hrest, id⟩
    · exact ⟨hstack hcode, id⟩
  | insertPeer endpoint =>
    obtain ⟨-, heq⟩ := Option.ite_none_right_eq_some.mp h
    cases heq
    exact ⟨hstack (keepsRunning_append (keepsRunning_dispatch _) hrest), id⟩
  | check =>
    obtain ⟨-, heq⟩ := Option.ite_none_right_eq_some.mp h
    cases heq
    exact ⟨hstack hrest, id⟩
  | expire now order =>
    cases order with
    | nil =>
      cases h
      exact ⟨hstack hrest, id⟩
    | cons id' order =>
      rw [execute] at h
      cases hpeer : node.peers.lookup id' with
      | none =>
        simp only [hpeer] at h
        cases h
        exact ⟨hstack hrest, id⟩
      | some peer =>
        simp only [hpeer] at h
        split_ifs at h <;>
        · cases h
          exact ⟨hstack hrest, id⟩
  | dispatch event =>
    cases h
    exact ⟨List.forall_mem_cons.mpr ⟨rfl, hstack hrest⟩, id⟩
  | subscribe eventType =>
    rcases execute_subscribe h with ⟨-, rfl, rfl⟩ | ⟨rfl, rfl⟩
    · exact ⟨hstack hcode, id⟩
    · exact ⟨hstack hrest, id⟩
  | call c =>
    cases h
    have hc : c ≠ .stop := by
      rintro rfl
      cases hstmt
    exact ⟨List.forall_mem_cons.mpr ⟨Call.keepsRunning_body hc, hstack hrest⟩, id⟩
  | _ =>
    cases h
    exact ⟨hstack hrest, id⟩

namespace Machine

variable {m m' : Machine} {a : Action}

/-- No operation of the machine will stop the node. -/
def KeepsRunning (m : Machine) : Prop := ∀ stack ∈ m.threads, ∀ f ∈ stack, f.keepsRunning

lemma keepsRunning_init (threads : ℕ) : KeepsRunning (init threads) := by
  intro stack hstack f hf
  obtain ⟨-, rfl⟩ := List.mem_replicate.mp hstack
  cases hf

/-- A step in which nobody calls `stop`. -/
lemma KeepsRunning.step (h : m.KeepsRunning) (ha : ∀ thread, a ≠ .call thread .stop)
    (hstep : m.step a = some m') :
    m'.KeepsRunning ∧ (m.node.running = true → m'.node.running = true) := by
  obtain ⟨-, stack, node, stack', hstack, hthread, rfl⟩ := step_eq_some_iff.mp hstep
  have hold := h stack (List.mem_of_getElem? hstack)
  have hnew : (∀ f ∈ stack', f.keepsRunning) ∧ (m.node.running = true → node.running = true) := by
    cases a with
    | run thread env =>
      match stack with
      | [] => cases hthread
      | .handler :: below => cases hthread
      | .dispatch event 0 :: below =>
        cases hthread
        exact ⟨(List.forall_mem_cons.mp hold).2, id⟩
      | .dispatch event (n + 1) :: below =>
        cases hthread
        have hbelow := (List.forall_mem_cons.mp hold).2
        exact ⟨List.forall_mem_cons.mpr ⟨rfl, List.forall_mem_cons.mpr ⟨rfl, hbelow⟩⟩, id⟩
      | .operation [] held :: below =>
        cases hthread
        exact ⟨(List.forall_mem_cons.mp hold).2, id⟩
      | .operation (stmt :: code) held :: below =>
        obtain ⟨hcode, hbelow⟩ := List.forall_mem_cons.mp hold
        exact keepsRunning_execute hcode hbelow hthread
    | call thread c =>
      have hbody : Frame.keepsRunning (.operation c.body none) :=
        Call.keepsRunning_body fun hc => ha thread (congrArg _ hc)
      simp only [stepThread, Option.ite_none_right_eq_some] at hthread
      obtain ⟨-, hthread⟩ := hthread
      split at hthread
      · cases hthread
        exact ⟨List.forall_mem_cons.mpr ⟨hbody, hold⟩, id⟩
      · cases hthread
        exact ⟨List.forall_mem_cons.mpr ⟨hbody, hold⟩, id⟩
      · cases hthread
    | finish thread threw =>
      simp only [stepThread] at hthread
      split at hthread
      · cases hthread
        have hdispatch := (List.forall_mem_cons.mp hold).2
        refine ⟨?_, id⟩
        split_ifs
        · exact (List.forall_mem_cons.mp hdispatch).2
        · exact List.forall_mem_cons.mpr ⟨rfl, (List.forall_mem_cons.mp hdispatch).2⟩
      · cases hthread
  refine ⟨?_, hnew.2⟩
  intro stack₁ hstack₁
  rcases List.mem_or_eq_of_mem_set hstack₁ with hmem | rfl
  · exact h stack₁ hmem
  · exact hnew.1

lemma Single.starting (h : m.Single) (hrunning : m.node.running = true) :
    ∃ stack ∈ m.threads, Starting stack := by
  obtain ⟨stack, n, hthreads, hstack, hnode⟩ := h
  have hn : 0 < n := by
    have hle := hnode.le
    rw [hrunning] at hle
    exact hle
  refine ⟨stack, by simp [hthreads], ?_⟩
  rw [hrunning] at hstack
  cases hstack with
  | live h => exact h.starting hn
  | stopping h => exact (h.starting hn).cons

/-- In one thread a running node keeps the thread in a call of `start`: client code only ever gets
control back from `start` when the node has been stopped. -/
theorem starting_of_running (as : List Action) (hm : Visits Machine.step (init 1) as m)
    (hrunning : m.node.running = true) : ∃ stack ∈ m.threads, Starting stack :=
  (Single.visits hm).starting hrunning

theorem starting_of_running_stopping :
    ∃ m, Visits Machine.step (init 1) stoppingRun m ∧ ∃ stack ∈ m.threads, Starting stack :=
  ⟨_, ⟨_, List.prefix_refl _, rfl⟩,
    starting_of_running stoppingRun ⟨_, List.prefix_refl _, rfl⟩ rfl⟩

/-- So when nobody calls `stop`, the first call of `start` does not return to client code. -/
theorem start_never_returns (as bs : List Action) (hstop : ∀ thread, .call thread .stop ∉ as ++ bs)
    (hm : exec Machine.step (init 1) as = some m) (hrunning : m.node.running = true)
    (hm' : Visits Machine.step m bs m') :
    m'.node.running = true ∧ ∃ stack ∈ m'.threads, Starting stack := by
  have hstart : m.KeepsRunning := by
    have hvisits : Visits Machine.step (init 1) as m := ⟨as, List.prefix_refl as, hm⟩
    refine hvisits.induction (keepsRunning_init 1) fun t a u htakes ht hstep => ?_
    refine (ht.step ?_ hstep).1
    rintro thread rfl
    exact hstop thread (List.mem_append_left bs htakes.mem)
  have hend : m'.KeepsRunning ∧ m'.node.running = true := by
    refine hm'.induction (P := fun m' => m'.KeepsRunning ∧ m'.node.running = true)
      ⟨hstart, hrunning⟩ fun t a u htakes ht hstep => ?_
    have hcall : ∀ thread, a ≠ .call thread .stop := by
      rintro thread rfl
      exact hstop thread (List.mem_append_right as htakes.mem)
    obtain ⟨hkeeps, hrunning⟩ := ht.1.step hcall hstep
    exact ⟨hkeeps, hrunning ht.2⟩
  exact ⟨hend.2, (Single.visits (hm'.append hm)).starting hend.2⟩

theorem start_never_returns_receive :
    ∃ m m', exec Machine.step (init 1) [.call 0 .start, .run 0 {}, .run 0 {}] = some m ∧
      Visits Machine.step m [.run 0 {}, .run 0 {}, .run 0 hello, .run 0 {}, .run 0 {}] m' ∧
      m'.node.running = true ∧ ∃ stack ∈ m'.threads, Starting stack := by
  refine ⟨_, _, rfl, ⟨_, List.prefix_refl _, rfl⟩,
    start_never_returns [.call 0 .start, .run 0 {}, .run 0 {}]
      [.run 0 {}, .run 0 {}, .run 0 hello, .run 0 {}, .run 0 {}] ?_ rfl rfl
      ⟨_, List.prefix_refl _, rfl⟩⟩
  simp

end Machine

end Mesh
