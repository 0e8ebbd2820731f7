import LibUdp.Mesh.Dispatcher.Delivery
import LibUdp.Mesh.Node.Locking.Lifecycle

/-!
# The example of a node

`run` in `examples/mesh.cc` makes its calls in one thread, each when the one before it has returned.
Its handlers call nothing. `start` comes before everything but the subscriptions, and it does not
return.
-/

namespace Mesh

open Run Dispatcher

namespace Example

/-- What `run` does once its node has been started. -/
def afterStart : List Call :=
  [.addPeer ⟨"127.0.0.1".toList, 8081⟩, .addPeer ⟨"127.0.0.1".toList, 8082⟩, .broadcast,
    .sleepAsync 100000000, .stop]

/-- The calls of `run`, with the types that it subscribes to. -/
def callsOf (types : List Text) : List Call := types.map .subscribe ++ .start :: afterStart

/-- The node and the thread, and the calls that `run` has still to make. -/
structure Program where
  machine : Machine := .init 1
  calls   : List Call := callsOf runTypes

inductive Action where
  | call
  /-- a handler returns -/
  | finish
  | run (env : Env)

def step (p : Program) : Action → Option Program
  | .call =>
    match p.calls with
    | []         => none
    | c :: calls =>
      if p.machine.threads = [[]] then
        (p.machine.step (.call 0 c)).map fun machine => { machine, calls }
      else none
  | .finish  => (p.machine.step (.finish 0 false)).map fun machine => { p with machine }
  | .run env => (p.machine.step (.run 0 env)).map fun machine => { p with machine }

/-- The frame is no handler, and will not send in an operation it is in. -/
def isSilent : Frame → Bool
  | .handler          => false
  | .operation code _ => .send ∉ code
  | .dispatch _ _     => true

/-! ### Where the thread can be -/

/-- The stacks of the thread, by the calls that are left and whether the node runs. -/
inductive Shape : List Call → Bool → List Frame → Prop where
  | client {types : List Text} (htypes : types <:+ runTypes) : Shape (callsOf types) false []
  | subscribing {types : List Text} {code : List Stmt} (htypes : types <:+ runTypes)
      (hcode : code = [] ∨ ∃ eventType ∈ runTypes, code = [.subscribe eventType]) :
      Shape (callsOf types) false [.operation code none]
  | calling : Shape afterStart false [.operation Call.start.body none]
  | starting : Shape afterStart false
      [.operation (.setRunning true :: .call (.runLoop .receive) :: startAfter .receive) none]
  | started : Shape afterStart true
      [.operation (.call (.runLoop .receive) :: startAfter .receive) none]
  | receiving {code : List Stmt} (hcode : Receives code) : Shape afterStart true
      [.operation code none, .operation (startAfter .receive) none]
  | dispatching (data : Bytes.Buffer) {code : List Stmt} (hcode : Receives code) :
      Shape afterStart true [.dispatch (.messageReceived data []) 0, .operation code none,
        .operation (startAfter .receive) none]

/-- A message with the whole buffer of the receive loop. -/
def IsMessage (event : Event) : Prop :=
  ∃ data, event = .messageReceived data [] ∧ data.length = maxPacket

/-- The node has no peers, has dispatched nothing but messages, its handlers are those of `run`, and
what it does is defined. -/
structure Unused (node : Shared) : Prop where
  peers         : node.peers = ∅
  events        : ∀ event ∈ node.events, IsMessage event
  subscriptions : ∀ eventType ∈ node.subscriptions, eventType ∈ runTypes
  defined       : node.exit ≠ some .undefined

variable {p p' : Program} {a : Action} {calls : List Call} {running : Bool} {node node' : Shared}
  {stack stack' : List Frame} {context : Context} {env : Env}

lemma Unused.dispatch (h : Unused node) {event : Event} (hevent : IsMessage event) :
    Unused { node with events := node.events ++ [event] } where
  peers := h.peers
  events := List.forall_mem_append.mpr ⟨h.events, List.forall_mem_singleton.mpr hevent⟩
  subscriptions := h.subscriptions
  defined := h.defined

lemma Unused.terminate (h : Unused node) : Unused node.terminate :=
  ⟨h.peers, h.events, h.subscriptions, by simp [Shared.terminate]⟩

/-- The handlers of `run` are not called. -/
lemma Unused.count_getType (h : Unused node) (event : Event) :
    node.subscriptions.count event.getType = 0 :=
  List.count_eq_zero.mpr fun hmem => getType_notMem_runTypes event (h.subscriptions _ hmem)

/-- Nothing is subscribed while a dispatch is in progress. -/
lemma Shape.advance (h : Shape calls running stack) (hrunning : node.running = running)
    (hnode : Unused node)
    (hnone : ∀ eventType, context.dispatching eventType → ∃ f ∈ stack, f.dispatches eventType)
    (hstep : Mesh.advance context env node stack = some (node', stack')) :
    Shape calls node'.running stack' ∧ Unused node' := by
  cases h with
  | client _ => cases hstep
  | @subscribing types code htypes hcode =>
    rcases hcode with rfl | ⟨eventType, htype, rfl⟩
    · cases hstep
      exact ⟨hrunning ▸ .client htypes, hnode⟩
    · rw [Mesh.advance] at hstep
      rcases execute_subscribe hstep with ⟨hdispatching, -, -⟩ | ⟨rfl, rfl⟩
      · obtain ⟨f, hf, hdispatches⟩ := hnone eventType hdispatching
        cases List.mem_singleton.mp hf
        cases hdispatches
      · refine ⟨hrunning ▸ .subscribing htypes (.inl rfl), hnode.peers, hnode.events, ?_,
          hnode.defined⟩
        exact List.forall_mem_append.mpr
          ⟨hnode.subscriptions, List.forall_mem_singleton.mpr htype⟩
  | calling =>
    cases hstep
    rw [hrunning]
    exact ⟨.starting, hnode⟩
  | starting =>
    cases hstep
    exact ⟨.started, hnode.peers, hnode.events, hnode.subscriptions, hnode.defined⟩
  | started =>
    cases hstep
    exact ⟨hrunning ▸ .receiving .init, hnode⟩
  | receiving hcode =>
    cases hcode with
    | loop hlocals =>
      cases hstep
      rw [hrunning]
      exact ⟨.receiving (.receive hlocals), hnode⟩
    | receive hlocals =>
      rw [Mesh.advance] at hstep
      rcases execute_receive hstep with ⟨rfl, rfl⟩ | ⟨rfl, reception, locals', rfl, rfl⟩
      · exact ⟨hrunning ▸ .receiving (.receive hlocals), hnode.terminate⟩
      · exact ⟨hrunning ▸ .receiving (.dispatch (hlocals.write reception)), hnode⟩
    | dispatch hlocals =>
      cases hstep
      rw [hnode.count_getType]
      exact ⟨hrunning ▸ .dispatching _ (.endTry hlocals),
        hnode.dispatch ⟨_, rfl, hlocals.length⟩⟩
    | endTry hlocals =>
      cases hstep
      rw [List.append_nil]
      exact ⟨hrunning ▸ .receiving (.rest hlocals), hnode⟩
  | dispatching data hcode =>
    cases hstep
    exact ⟨hrunning ▸ .receiving hcode, hnode⟩

lemma Shape.isSilent (h : Shape calls running stack) : ∀ f ∈ stack, isSilent f := by
  cases h with
  | subscribing _ hcode => rcases hcode with rfl | ⟨eventType, -, rfl⟩ <;> simp [isSilent]
  | receiving hcode => cases hcode <;> simp [isSilent, startAfter]
  | dispatching data hcode => cases hcode <;> simp [isSilent, startAfter]
  | _ => simp [isSilent, Call.body, startAfter]

lemma Shape.afterStart_suffix (h : Shape calls running stack) : afterStart <:+ calls := by
  have hcallsOf : ∀ types, afterStart <:+ callsOf types := fun types =>
    (List.suffix_cons _ _).trans (List.suffix_append _ _)
  cases h with
  | client _ => exact hcallsOf _
  | subscribing _ _ => exact hcallsOf _
  | _ => exact List.suffix_rfl

/-- The next call of `run` is to subscribe or to start. -/
lemma Shape.call {c : Call} (h : Shape (c :: calls) running []) :
    running = false ∧ Shape calls running [.operation c.body none] := by
  generalize hcalls : c :: calls = calls' at h
  cases h with
  | @client types htypes =>
    refine ⟨rfl, ?_⟩
    cases types with
    | nil =>
      cases hcalls
      exact .calling
    | cons eventType types =>
      cases hcalls
      refine .subscribing ((List.suffix_cons _ _).trans htypes) (.inr ⟨eventType, ?_, rfl⟩)
      exact htypes.subset List.mem_cons_self

/-- The process survives what the ring has for a receive. -/
def Survives (env : Env) : Prop :=
  ∃ reception, env.receiving = .completes reception ∧ reception.aborts env.asserts = false

/-- Only the ring keeps the thread waiting in a call. -/
lemma Shape.exists_advance (h : Shape calls running stack) (hne : stack ≠ [])
    (hnone : ∀ eventType, context.dispatching eventType → ∃ f ∈ stack, f.dispatches eventType)
    (henv : env.receiving ≠ .waits) : ∃ node' stack',
      Mesh.advance context env node stack = some (node', stack') ∧
        (Survives env → node'.exit = node.exit) := by
  cases h with
  | client _ => exact absurd rfl hne
  | subscribing _ hcode =>
    rcases hcode with rfl | ⟨eventType, -, rfl⟩
    · exact ⟨_, _, rfl, fun _ => rfl⟩
    · have hquiet : ¬ context.dispatching eventType := by
        intro hdispatching
        obtain ⟨f, hf, hdispatches⟩ := hnone eventType hdispatching
        cases List.mem_singleton.mp hf
        cases hdispatches
      simp [Mesh.advance, execute, hquiet]
  | receiving hcode =>
    cases hcode with
    | receive _ =>
      rw [Mesh.advance, execute]
      cases hreceiving : env.receiving with
      | waits => exact absurd hreceiving henv
      | refuses =>
        refine ⟨_, _, rfl, ?_⟩
        rintro ⟨reception, hcompletes, -⟩
        rw [hreceiving] at hcompletes
        cases hcompletes
      | completes reception =>
        dsimp only
        split_ifs with haborts
        · refine ⟨_, _, rfl, ?_⟩
          rintro ⟨reception', hcompletes, hsurvives⟩
          rw [hreceiving] at hcompletes
          cases hcompletes
          rw [haborts] at hsurvives
          cases hsurvives
        · exact ⟨_, _, rfl, fun _ => rfl⟩
    | _ => exact ⟨_, _, rfl, fun _ => rfl⟩
  | _ => exact ⟨_, _, rfl, fun _ => rfl⟩

/-- A call that `run` makes is one of a public function. -/
lemma Shape.isPublic {c : Call} (h : Shape (c :: calls) running []) : c.isPublic := by
  generalize hcalls : c :: calls = calls' at h
  cases h with
  | @client types _ =>
    cases types with
    | nil =>
      cases hcalls
      rfl
    | cons eventType types =>
      cases hcalls
      rfl

/-! ### Runs -/

lemma dispatches_of_context {m : Machine} (hthreads : m.threads = [stack]) (eventType : Text)
    (h : (m.context stack).dispatching eventType) : ∃ f ∈ stack, f.dispatches eventType := by
  simpa [Machine.context, hthreads] using h

/-- Where the program can be. -/
structure Receiving (p : Program) : Prop where
  thread : ∃ stack, p.machine.threads = [stack] ∧ Shape p.calls p.machine.node.running stack
  unused : Unused p.machine.node

lemma receiving_init : Receiving {} where
  thread := ⟨[], rfl, .client List.suffix_rfl⟩
  unused := ⟨rfl, List.forall_mem_nil _, List.forall_mem_nil _, by simp [Machine.init]⟩

lemma Receiving.step (h : Receiving p) (hstep : step p a = some p') : Receiving p' := by
  obtain ⟨⟨stack, hthreads, hshape⟩, hnode⟩ := h
  cases a with
  | call =>
    rw [Example.step] at hstep
    split at hstep
    · cases hstep
    · next c calls hcalls =>
      obtain ⟨hempty, hstep⟩ := Option.ite_none_right_eq_some.mp hstep
      obtain ⟨m, hm, rfl⟩ := Option.map_eq_some_iff.mp hstep
      obtain ⟨node, stack', hthread, rfl⟩ := Machine.exists_stepThread hempty hm
      obtain ⟨-, heq⟩ := Option.ite_none_right_eq_some.mp hthread
      cases heq
      rw [hempty] at hthreads
      cases hthreads
      rw [hcalls] at hshape
      exact ⟨⟨_, rfl, hshape.call.2⟩, hnode⟩
  | finish =>
    obtain ⟨m, hm, rfl⟩ := Option.map_eq_some_iff.mp hstep
    obtain ⟨node, stack', hthread, rfl⟩ := Machine.exists_stepThread hthreads hm
    simp only [Machine.stepThread] at hthread
    split at hthread
    · cases hshape.isSilent .handler List.mem_cons_self
    · cases hthread
  | run env =>
    obtain ⟨m, hm, rfl⟩ := Option.map_eq_some_iff.mp hstep
    obtain ⟨node, stack', hthread, rfl⟩ := Machine.exists_stepThread hthreads hm
    obtain ⟨hshape', hnode'⟩ := hshape.advance rfl hnode (dispatches_of_context hthreads) hthread
    exact ⟨⟨stack', rfl, hshape'⟩, hnode'⟩

lemma Receiving.visits {as : List Action} (h : Visits Example.step {} as p) : Receiving p :=
  h.invariant (fun _ _ _ hp hstep => hp.step hstep) receiving_init

/-- The thread goes on with all that the ring can have for it. -/
lemma Receiving.exists_step (h : Receiving p) (hexit : p.machine.node.exit = none)
    (henv : env.receiving ≠ .waits) : ∃ a ∈ [Action.call, .run env], ∃ p',
      Example.step p a = some p' ∧ (Survives env → p'.machine.node.exit = none) := by
  obtain ⟨stack, hthreads, hshape⟩ := h.thread
  have hstack : p.machine.threads[0]? = some stack := by rw [hthreads, List.getElem?_cons_zero]
  by_cases hne : stack = []
  · subst hne
    cases hcalls : p.calls with
    | nil => exact absurd (hcalls ▸ hshape.afterStart_suffix) (by simp [afterStart])
    | cons c calls =>
      rw [hcalls] at hshape
      obtain ⟨m, hm, hexit'⟩ : ∃ m, p.machine.step (.call 0 c) = some m ∧ m.node.exit = none :=
        ⟨_, Machine.step_eq_some_iff.mpr ⟨hexit, _, _, _, hstack,
          if_pos hshape.isPublic, rfl⟩, hexit⟩
      refine ⟨.call, by simp, { machine := m, calls }, ?_, fun _ => hexit'⟩
      rw [Example.step, hcalls]
      dsimp only
      rw [if_pos hthreads, hm]
      rfl
  · obtain ⟨node, stack', hadvance, hlives⟩ :=
      hshape.exists_advance hne (dispatches_of_context hthreads) henv
    obtain ⟨m, hm, hnode⟩ : ∃ m, p.machine.step (.run 0 env) = some m ∧ m.node = node :=
      ⟨_, Machine.step_eq_some_iff.mpr ⟨hexit, _, _, _, hstack, hadvance, rfl⟩, rfl⟩
    refine ⟨.run env, by simp, { p with machine := m }, ?_, fun hsurvives => ?_⟩
    · rw [Example.step, hm]
      rfl
    · exact (congrArg Shared.exit hnode).trans ((hlives hsurvives).trans hexit)

end Example

end Mesh
