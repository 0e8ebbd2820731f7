import LibUdp.Mesh.Node.Locking.Basic

/-!
# The lock discipline

Where the code of an operation takes and releases the lock of the peer table, what it does in
between, and what follows for the stack of a thread. `Advances` is all that a step of a thread can
do as long as it calls no handler under the lock.
-/

namespace Mesh

open Run

/-- The event is one that is dispatched with the lock held. -/
def Event.isMembership : Event → Bool
  | .peerConnected _ | .peerDisconnected _ => true
  | _ => false

/-! ### Lock scopes in the code -/

/-- Where code stands in the lock scopes of its operation. With the lock held exclusively, the
operation first reads the table and the clock, then is busy with what it found, and then closes. -/
inductive Scope where
  | outside
  | shared
  | fresh
  | busy
  | closing
  deriving DecidableEq

def Scope.mode : Scope → Option LockMode
  | .outside                  => none
  | .shared                   => some .shared
  | .fresh | .busy | .closing => some .unique

/-- Where the code stands after a statement, if the statement may stand where it does. -/
def Stmt.after : Scope → Stmt → Option Scope
  | .outside, .lock .shared   => some .shared
  | .outside, .lock .unique   => some .fresh
  | .outside, .dispatch event => if event.isMembership then none else some .outside
  | .outside, .returnIf _ | .outside, .setRunning _ | .outside, .loop _ _ | .outside, .endTry _ _
  | .outside, .receive _ | .outside, .subscribe _ | .outside, .call _ => some .outside
  | .shared, .send            => some .shared
  | .shared, .unlock          => some .outside
  | .fresh, .insertPeer _ | .fresh, .check => some .closing
  | .busy, .expire _ _ | .busy, .erase _ => some .busy
  | .busy, .dispatch event    => if event.isMembership then some .busy else none
  | .busy, .unlock | .closing, .unlock => some .outside
  | _, _                      => none

/-- The code has its lock scopes in order, and ends outside of them. -/
def Releases (scope : Scope) (code : List Stmt) : Prop :=
  exec Stmt.after scope code = some .outside

lemma releases_cons {scope : Scope} {stmt : Stmt} {code : List Stmt} :
    Releases scope (stmt :: code) ↔
      ∃ scope', stmt.after scope = some scope' ∧ Releases scope' code := by
  rw [Releases, exec_cons, Option.bind_eq_some_iff]
  rfl

lemma releases_append {scope scope' : Scope} {code code' : List Stmt}
    (h : exec Stmt.after scope code = some scope') (h' : Releases scope' code') :
    Releases scope (code ++ code') := by
  rw [Releases, exec_append, h, Option.bind_some]
  exact h'

/-- Code that only has to close can also stand where its operation is busy. -/
lemma Releases.busy {code : List Stmt} (h : Releases .closing code) : Releases .busy code := by
  cases code with
  | nil => cases h
  | cons stmt code =>
    obtain ⟨scope, hafter, hcode⟩ := releases_cons.mp h
    cases stmt with
    | unlock =>
      cases hafter
      exact releases_cons.mpr ⟨.outside, rfl, hcode⟩
    | _ => cases hafter

/-- Where a `catch` block can be reached from, the lock is not held. -/
lemma Releases.unwind {scope : Scope} {code : List Stmt} (h : Releases scope code) (what : Text) :
    Releases .outside (unwind what code) := by
  induction code generalizing scope with
  | nil => rfl
  | cons stmt code ih =>
    obtain ⟨scope', hafter, hcode⟩ := releases_cons.mp h
    cases stmt with
    | endTry l locals =>
      cases scope with
      | outside =>
        cases hafter
        exact releases_cons.mpr ⟨.outside, rfl, hcode⟩
      | _ => cases hafter
    | _ => exact ih hcode

lemma Loop.releases_body (l : Loop) (locals : Locals) :
    exec Stmt.after .outside (l.body locals) = some .outside := by
  cases l <;> rfl

/-- What loops dispatch outside of their `try` blocks, they dispatch without the lock. -/
lemma Loop.releases_rest (l : Loop) (locals : Locals) :
    exec Stmt.after .outside (l.rest locals) = some .outside := by
  rw [Loop.rest, Reporting.notify]
  split_ifs <;> cases l <;> rfl

lemma Call.releases_body (c : Call) : Releases .outside c.body := by
  cases c <;> rfl

lemma exec_events_addPeer (now : Time) (endpoint : Endpoint) (peers : PeerTable) :
    exec Stmt.after .busy ((addPeer now endpoint peers).2.map .dispatch) = some .busy := by
  rw [addPeer]
  split_ifs <;> rfl

/-! ### What is left to do under the lock -/

/-- What the code of a thread that holds the lock exclusively will still do to the table, and the
events it will still dispatch before it releases the lock. -/
def settle : List Stmt → PeerTable → Update
  | .dispatch event :: code, peers =>
    let (peers, events) := settle code peers
    (peers, event :: events)
  | .erase id :: code, peers => settle code (peers.erase id)
  | .expire now order :: code, peers =>
    let (peers, events) := checkPeers now order peers
    let (peers, events') := settle code peers
    (peers, events ++ events')
  | _, peers => (peers, [])

/-- The node with the membership events once the code is done. -/
def Shared.settled (node : Shared) (code : List Stmt) : Node where
  peers  := (settle code node.peers).1
  clock  := node.clock
  events := node.events.filter Event.isMembership ++ (settle code node.peers).2

/-- Code under the lock that is not busy has not found anything to do yet, or is done. -/
lemma settle_of_ne_busy {scope : Scope} {code : List Stmt} (houtside : scope ≠ .outside)
    (hbusy : scope ≠ .busy) (h : Releases scope code) (peers : PeerTable) :
    settle code peers = (peers, []) := by
  cases code with
  | nil => rfl
  | cons stmt code =>
    obtain ⟨scope', hafter, -⟩ := releases_cons.mp h
    cases stmt with
    | dispatch event =>
      cases scope with
      | outside => exact absurd rfl houtside
      | busy => exact absurd rfl hbusy
      | _ => cases hafter
    | erase id =>
      cases scope with
      | busy => exact absurd rfl hbusy
      | _ => cases hafter
    | expire now order =>
      cases scope with
      | busy => exact absurd rfl hbusy
      | _ => cases hafter
    | _ => rfl

lemma settle_events (events : List Event) {code : List Stmt} (h : Releases .closing code)
    (peers : PeerTable) : settle (events.map .dispatch ++ code) peers = (peers, events) := by
  induction events with
  | nil => exact settle_of_ne_busy (by decide) (by decide) h peers
  | cons event events ih => simp [settle, ih]

/-! ### Stacks -/

/-- The frame holds no lock and will not dispatch under one. -/
def Frame.IsFree : Frame → Prop
  | .operation code held => held = none ∧ Releases .outside code
  | .dispatch event _    => event.isMembership = false
  | .handler             => True

/-- At most one frame holds the lock: the top one, or the one below a dispatch of its event. -/
inductive StackOK : List Frame → Prop where
  | free {stack : List Frame} (h : ∀ f ∈ stack, f.IsFree) : StackOK stack
  | locked {code : List Stmt} {scope : Scope} {mode : LockMode} {below : List Frame}
      (hmode : scope.mode = some mode) (hcode : Releases scope code)
      (h : ∀ f ∈ below, f.IsFree) : StackOK (.operation code (some mode) :: below)
  | dispatching {event : Event} {n : ℕ} {code : List Stmt} {below : List Frame}
      (hevent : event.isMembership = true) (hcode : Releases .busy code)
      (h : ∀ f ∈ below, f.IsFree) :
      StackOK (.dispatch event n :: .operation code (some .unique) :: below)

lemma Frame.IsFree.held {f : Frame} (h : f.IsFree) : f.held = none := by
  cases f with
  | operation code held => exact h.1
  | dispatch event n => rfl
  | handler => rfl

/-- The dispatch at the top of the stack does not call a handler under the lock. -/
def Quiet (stack : List Frame) : Prop :=
  ∀ event n below, stack = .dispatch event n :: below → event.isMembership = true → n = 0

/-! ### Steps of a thread -/

section statements

variable {context : Context} {env : Env} {node node' : Shared} {code : List Stmt}
  {held : Option LockMode} {below stack' : List Frame}

/-- A lock is taken, or the thread has it and the statement throws. -/
lemma execute_lock {mode : LockMode}
    (h : execute context env node code held below (.lock mode) = some (node', stack')) :
    node' = node ∧ (context.available mode ∧ stack' = .operation code (some mode) :: below ∨
      context.owns ∧ ∃ what, stack' = .operation (unwind what code) held :: below) := by
  rw [execute] at h
  split_ifs at h with havailable howns
  · cases h
    exact ⟨rfl, .inl ⟨havailable, rfl⟩⟩
  · cases h
    exact ⟨rfl, .inr ⟨howns, _, rfl⟩⟩

/-- A receive ends the process or dispatches the buffer. -/
lemma execute_receive {locals : Locals}
    (h : execute context env node code held below (.receive locals) = some (node', stack')) :
    node' = node.terminate ∧ stack' = .operation (.receive locals :: code) held :: below ∨
      node' = node ∧ ∃ (reception : Reception) (locals' : Locals),
        locals' = { locals with buffer := reception.write locals.buffer } ∧
          stack' = .operation (.dispatch (.messageReceived locals'.buffer []) ::
            .endTry .receive locals' :: code) held :: below := by
  rw [execute] at h
  split at h
  · cases h
  · cases h
    exact .inl ⟨rfl, rfl⟩
  · split_ifs at h
    · cases h
      exact .inl ⟨rfl, rfl⟩
    · cases h
      exact .inr ⟨rfl, _, _, rfl, rfl⟩

/-- The sends end the process or the operation goes on. -/
lemma execute_send
    (h : execute context env node code held below .send = some (node', stack')) :
    ∃ exit code', node' = { node with exit } ∧ (code' = code ∨ code' = .send :: code) ∧
      stack' = .operation code' held :: below := by
  rw [execute] at h
  split at h
  · cases h
  · cases h
    exact ⟨_, _, rfl, .inr rfl, rfl⟩
  · split_ifs at h
    · cases h
      exact ⟨_, _, rfl, .inr rfl, rfl⟩
    · cases h
      exact ⟨_, _, rfl, .inl rfl, rfl⟩

/-- A subscription is made, unless it takes a vector away from a dispatch. -/
lemma execute_subscribe {eventType : Text}
    (h : execute context env node code held below (.subscribe eventType) = some (node', stack')) :
    context.dispatching eventType ∧ node' = { node with exit := some .undefined } ∧
        stack' = .operation (.subscribe eventType :: code) held :: below ∨
      node' = { node with subscriptions := node.subscriptions ++ [eventType] } ∧
        stack' = .operation code held :: below := by
  rw [execute] at h
  split_ifs at h with hdispatching
  · cases h
    exact .inl ⟨((Bool.and_eq_true _ _).mp hdispatching).1, rfl, rfl⟩
  · cases h
    exact .inr ⟨rfl, rfl⟩

end statements

/-- What a step of a thread can do: nothing to the table or the lock, take or release the lock, or
go on with an operation that holds it. Such an operation reads the table and the clock once, which
is when it takes effect, and from then on only settles what it found. -/
inductive Advances (available : LockMode → Bool) :
    Shared → List Frame → Shared → List Frame → Prop where
  | free {node node' : Shared} {stack stack' : List Frame} (h : ∀ f ∈ stack, f.IsFree)
      (h' : ∀ f ∈ stack', f.IsFree) (hsettled : ∀ code, node'.settled code = node.settled code) :
      Advances available node stack node' stack'
  | acquire {node : Shared} {code : List Stmt} {below : List Frame} {scope : Scope}
      {mode : LockMode} (havailable : available mode = true) (hmode : scope.mode = some mode)
      (hcode : Releases scope code) (hsettle : settle code node.peers = (node.peers, []))
      (h : ∀ f ∈ below, f.IsFree) :
      Advances available node (.operation (.lock mode :: code) none :: below)
        node (.operation code (some mode) :: below)
  | send {node node' : Shared} {code code' : List Stmt} {below : List Frame}
      (hcode : Releases .shared code') (hsettled : ∀ code, node'.settled code = node.settled code)
      (h : ∀ f ∈ below, f.IsFree) :
      Advances available node (.operation code (some .shared) :: below)
        node' (.operation code' (some .shared) :: below)
  | release {node : Shared} {code : List Stmt} {below : List Frame} {mode : LockMode}
      (hcode : Releases .outside code) (h : ∀ f ∈ below, f.IsFree) :
      Advances available node (.operation (.unlock :: code) (some mode) :: below)
        node (.operation code none :: below)
  | commit {node node' : Shared} {code code' : List Stmt} {below : List Frame} (op : Operation)
      (hcode : Releases .busy code')
      (hstep : (node.settled code).step op = some (node'.settled code'))
      (h : ∀ f ∈ below, f.IsFree) :
      Advances available node (.operation code (some .unique) :: below)
        node' (.operation code' (some .unique) :: below)
  | proceed {node node' : Shared} {code code' : List Stmt} {below : List Frame}
      (hcode : Releases .busy code') (hsettled : node'.settled code' = node.settled code)
      (h : ∀ f ∈ below, f.IsFree) :
      Advances available node (.operation code (some .unique) :: below)
        node' (.operation code' (some .unique) :: below)
  | dispatch {node node' : Shared} {code : List Stmt} {below : List Frame} {event : Event}
      (n : ℕ) (hevent : event.isMembership = true) (hcode : Releases .busy code)
      (hsettled : node'.settled code = node.settled (.dispatch event :: code))
      (h : ∀ f ∈ below, f.IsFree) :
      Advances available node (.operation (.dispatch event :: code) (some .unique) :: below)
        node' (.dispatch event n :: .operation code (some .unique) :: below)
  | finish {node : Shared} {code : List Stmt} {below : List Frame} (event : Event)
      (hcode : Releases .busy code) (h : ∀ f ∈ below, f.IsFree) :
      Advances available node (.dispatch event 0 :: .operation code (some .unique) :: below)
        node (.operation code (some .unique) :: below)

variable {context : Context} {available : LockMode → Bool} {env : Env} {node node' : Shared}
  {code : List Stmt} {below stack stack' : List Frame} {stmt : Stmt}

lemma Shared.settled_congr (hpeers : node'.peers = node.peers) (hclock : node'.clock = node.clock)
    (hevents : node'.events.filter Event.isMembership = node.events.filter Event.isMembership)
    (code : List Stmt) : node'.settled code = node.settled code := by
  simp [Shared.settled, hpeers, hclock, hevents]

namespace Advances

lemma outside (hcode : Releases .outside (stmt :: code)) (h : ∀ f ∈ below, f.IsFree)
    (hexecute : execute context env node code none below stmt = some (node', stack')) :
    Advances context.available node (.operation (stmt :: code) none :: below) node' stack' := by
  have hstack : ∀ f ∈ Frame.operation (stmt :: code) none :: below, f.IsFree :=
    List.forall_mem_cons.mpr ⟨⟨rfl, hcode⟩, h⟩
  obtain ⟨scope', hafter, hcode'⟩ := releases_cons.mp hcode
  have hstack' : ∀ {code : List Stmt}, Releases .outside code →
      ∀ f ∈ Frame.operation code none :: below, f.IsFree :=
    fun hcode => List.forall_mem_cons.mpr ⟨⟨rfl, hcode⟩, h⟩
  cases stmt with
  | lock mode =>
    obtain ⟨rfl, ⟨havailable, rfl⟩ | ⟨-, what, rfl⟩⟩ := execute_lock hexecute
    · cases mode with
      | shared =>
        cases hafter
        exact .acquire havailable rfl hcode' (settle_of_ne_busy (by decide) (by decide) hcode' _) h
      | unique =>
        cases hafter
        exact .acquire havailable rfl hcode' (settle_of_ne_busy (by decide) (by decide) hcode' _) h
    · -- what is thrown ends the scope
      exact .free hstack (hstack' (hcode'.unwind what)) fun _ => rfl
  | returnIf running =>
    cases hafter
    cases hexecute
    split_ifs
    · exact .free hstack (hstack' rfl) fun _ => rfl
    · exact .free hstack (hstack' hcode') fun _ => rfl
  | loop l locals =>
    cases hafter
    cases hexecute
    split_ifs
    · exact .free hstack (hstack' (releases_append (l.releases_body locals) hcode')) fun _ => rfl
    · exact .free hstack (hstack' hcode') fun _ => rfl
  | endTry l locals =>
    cases hafter
    cases hexecute
    exact .free hstack (hstack' (releases_append (l.releases_rest locals) hcode')) fun _ => rfl
  | receive locals =>
    cases hafter
    rcases execute_receive hexecute with ⟨rfl, rfl⟩ | ⟨rfl, -, locals', -, rfl⟩
    · exact .free hstack hstack fun _ => rfl
    · refine .free hstack (hstack' (releases_cons.mpr ⟨.outside, rfl, ?_⟩)) fun _ => rfl
      exact releases_cons.mpr ⟨.outside, rfl, hcode'⟩
  | dispatch event =>
    rw [Stmt.after, Option.ite_none_left_eq_some, Bool.not_eq_true] at hafter
    obtain ⟨hevent, hafter⟩ := hafter
    cases hafter
    cases hexecute
    refine .free hstack (List.forall_mem_cons.mpr ⟨hevent, hstack' hcode'⟩) ?_
    exact Shared.settled_congr rfl rfl (by simp [List.filter_append, hevent])
  | call c =>
    cases hafter
    cases hexecute
    exact .free hstack (List.forall_mem_cons.mpr ⟨⟨rfl, c.releases_body⟩, hstack' hcode'⟩)
      fun _ => rfl
  | setRunning running =>
    cases hafter
    cases hexecute
    exact .free hstack (hstack' hcode') fun _ => rfl
  | subscribe eventType =>
    cases hafter
    rcases execute_subscribe hexecute with ⟨-, rfl, rfl⟩ | ⟨rfl, rfl⟩
    · exact .free hstack hstack fun _ => rfl
    · exact .free hstack (hstack' hcode') fun _ => rfl
  | _ => cases hafter

lemma shared (hcode : Releases .shared (stmt :: code)) (h : ∀ f ∈ below, f.IsFree)
    (hexecute : execute context env node code (some .shared) below stmt =
      some (node', stack')) :
    Advances context.available node (.operation (stmt :: code) (some .shared) :: below) node'
      stack' := by
  obtain ⟨scope', hafter, hcode'⟩ := releases_cons.mp hcode
  cases stmt with
  | unlock =>
    cases hafter
    cases hexecute
    exact .release hcode' h
  | send =>
    cases hafter
    obtain ⟨exit, code', rfl, rfl | rfl, rfl⟩ := execute_send hexecute
    · exact .send hcode' (fun _ => rfl) h
    · exact .send hcode (fun _ => rfl) h
  | _ => cases hafter

/-- Where an operation takes effect. -/
lemma fresh (hcode : Releases .fresh (stmt :: code)) (h : ∀ f ∈ below, f.IsFree)
    (hexecute : execute context env node code (some .unique) below stmt =
      some (node', stack')) :
    Advances context.available node (.operation (stmt :: code) (some .unique) :: below) node'
      stack' := by
  obtain ⟨scope', hafter, hcode'⟩ := releases_cons.mp hcode
  cases stmt with
  | insertPeer endpoint =>
    cases hafter
    simp only [execute, Option.ite_none_right_eq_some, Option.some.injEq, Prod.mk.injEq] at hexecute
    obtain ⟨hclock, rfl, rfl⟩ := hexecute
    refine .commit (.addPeer env.now endpoint)
      (releases_append (exec_events_addPeer _ _ _) hcode'.busy) ?_ h
    simp [Node.step, Shared.settled, Node.update, settle, settle_events _ hcode', hclock,
      Operation.time]
  | check =>
    cases hafter
    simp only [execute, Option.ite_none_right_eq_some, Option.some.injEq, Prod.mk.injEq] at hexecute
    obtain ⟨⟨hclock, horder⟩, rfl, rfl⟩ := hexecute
    refine .commit (.healthCheck env.now env.order)
      (releases_cons.mpr ⟨.busy, rfl, hcode'.busy⟩) ?_ h
    simp [Node.step, Shared.settled, Node.update, settle,
      settle_of_ne_busy (by decide) (by decide) hcode', hclock, horder, Operation.time]
  | _ => cases hafter

lemma busy (hcode : Releases .busy (stmt :: code)) (h : ∀ f ∈ below, f.IsFree)
    (hexecute : execute context env node code (some .unique) below stmt =
      some (node', stack')) :
    Advances context.available node (.operation (stmt :: code) (some .unique) :: below) node'
      stack' := by
  obtain ⟨scope', hafter, hcode'⟩ := releases_cons.mp hcode
  cases stmt with
  | unlock =>
    cases hafter
    cases hexecute
    exact .release hcode' h
  | erase id =>
    cases hafter
    cases hexecute
    exact .proceed hcode' rfl h
  | dispatch event =>
    rw [Stmt.after, Option.ite_none_right_eq_some] at hafter
    obtain ⟨hevent, hafter⟩ := hafter
    cases hafter
    cases hexecute
    refine .dispatch _ hevent hcode' ?_ h
    simp [Shared.settled, settle, hevent]
  | expire now order =>
    cases hafter
    cases order with
    | nil =>
      cases hexecute
      exact .proceed hcode' rfl h
    | cons id order =>
      have hrest : Releases .busy (.expire now order :: code) :=
        releases_cons.mpr ⟨.busy, rfl, hcode'⟩
      have herase : Releases .busy (.erase id :: .expire now order :: code) :=
        releases_cons.mpr ⟨.busy, rfl, hrest⟩
      rw [execute] at hexecute
      -- the entry as the iteration of `checkPeer` finds it
      cases hpeer : node.peers.lookup id with
      | none =>
        simp only [hpeer] at hexecute
        cases hexecute
        refine .proceed hrest ?_ h
        simp [Shared.settled, settle, checkPeers, checkPeer, hpeer]
      | some peer =>
        simp only [hpeer] at hexecute
        split_ifs at hexecute with hexpired hactive
        · cases hexecute
          refine .proceed (releases_cons.mpr ⟨.busy, rfl, herase⟩) ?_ h
          simp [Shared.settled, settle, checkPeers, checkPeer, hpeer, hexpired, hactive]
        · cases hexecute
          refine .proceed herase ?_ h
          simp [Shared.settled, settle, checkPeers, checkPeer, hpeer, hexpired, hactive]
        · cases hexecute
          refine .proceed hrest ?_ h
          simp [Shared.settled, settle, checkPeers, checkPeer, hpeer, hexpired]
  | _ => cases hafter

end Advances

/-- All that a step of a thread does, unless it calls a handler under the lock. -/
lemma StackOK.advances (hstack : StackOK stack) (hquiet : Quiet stack)
    (h : advance context env node stack = some (node', stack')) :
    Advances context.available node stack node' stack' := by
  cases hstack with
  | free hfree =>
    match stack with
    | [] => cases h
    | .handler :: below => cases h
    | .dispatch event 0 :: below =>
      cases h
      exact .free hfree (List.forall_mem_cons.mp hfree).2 fun _ => rfl
    | .dispatch event (n + 1) :: below =>
      obtain ⟨hevent, hbelow⟩ := List.forall_mem_cons.mp hfree
      cases h
      refine .free hfree (List.forall_mem_cons.mpr ⟨trivial, ?_⟩) fun _ => rfl
      exact List.forall_mem_cons.mpr ⟨hevent, hbelow⟩
    | .operation [] held :: below =>
      cases h
      exact .free hfree (List.forall_mem_cons.mp hfree).2 fun _ => rfl
    | .operation (stmt :: code) held :: below =>
      obtain ⟨⟨rfl, hcode⟩, hbelow⟩ := List.forall_mem_cons.mp hfree
      exact .outside hcode hbelow h
  | @locked code scope mode below hmode hcode hbelow =>
    cases code with
    | nil =>
      cases hcode
      cases hmode
    | cons stmt code =>
      cases scope with
      | outside => cases hmode
      | shared =>
        cases hmode
        exact .shared hcode hbelow h
      | fresh =>
        cases hmode
        exact .fresh hcode hbelow h
      | busy =>
        cases hmode
        exact .busy hcode hbelow h
      | closing =>
        cases hmode
        exact .busy hcode.busy hbelow h
  | dispatching hevent hcode hbelow =>
    obtain rfl := hquiet _ _ _ rfl hevent
    cases h
    exact .finish _ hcode hbelow

/-- The stack of a thread that is in client code or in a handler is free. -/
lemma StackOK.advances_stepThread {m : Machine} {a : Action} (hstack : StackOK stack)
    (hquiet : ∀ thread env, a = .run thread env → Quiet stack)
    (h : m.stepThread stack a = some (node', stack')) :
    Advances m.available m.node stack node' stack' := by
  cases a with
  | run thread env => exact hstack.advances (hquiet thread env rfl) h
  | call thread c =>
    simp only [Machine.stepThread, Option.ite_none_right_eq_some] at h
    obtain ⟨-, h⟩ := h
    have hbody : Frame.IsFree (.operation c.body none) := ⟨rfl, c.releases_body⟩
    split at h
    · cases h
      exact .free (by simp) (List.forall_mem_singleton.mpr hbody) fun _ => rfl
    · cases h
      cases hstack with
      | free hfree => exact .free hfree (List.forall_mem_cons.mpr ⟨hbody, hfree⟩) fun _ => rfl
    · cases h
  | finish thread threw =>
    simp only [Machine.stepThread] at h
    split at h
    · cases h
      cases hstack with
      | free hfree =>
        have hbelow := (List.forall_mem_cons.mp hfree).2
        split_ifs
        · exact .free hfree (List.forall_mem_cons.mp hbelow).2 fun _ => rfl
        · exact .free hfree hbelow fun _ => rfl
    · cases h

lemma Advances.stackOK (h : Advances available node stack node' stack') : StackOK stack' := by
  cases h with
  | free _ h' _ => exact .free h'
  | acquire _ hmode hcode _ h => exact .locked hmode hcode h
  | send hcode _ h => exact .locked rfl hcode h
  | release hcode h => exact .free (List.forall_mem_cons.mpr ⟨⟨rfl, hcode⟩, h⟩)
  | commit _ hcode _ h => exact .locked rfl hcode h
  | proceed hcode _ h => exact .locked rfl hcode h
  | dispatch _ hevent hcode _ h => exact .dispatching hevent hcode h
  | finish _ hcode h => exact .locked rfl hcode h

end Mesh
