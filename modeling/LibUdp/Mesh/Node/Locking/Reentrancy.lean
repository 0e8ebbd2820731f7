import LibUdp.Mesh.Node.Locking.Properties

/-!
# Handlers under the lock

A handler of a membership event runs above the operation that dispatches it, which keeps the lock
exclusively. Whatever the handler calls, it does not get the lock: an operation that asks for it
throws. So the handler leaves the table, the clock and the membership events alone until it returns.
-/

namespace Mesh

open Run

variable {context : Context} {env : Env} {node node' : Shared} {code : List Stmt}
  {held : Option LockMode} {above below base stack stack' : List Frame} {stmt : Stmt}

/-! ### Frames below the ones that run -/

lemma execute_append (context : Context) (env : Env) (node : Shared) (code : List Stmt)
    (held : Option LockMode) (below base : List Frame) (stmt : Stmt) :
    execute context env node code held (below ++ base) stmt =
      (execute context env node code held below stmt).map fun p => (p.1, p.2 ++ base) := by
  cases stmt with
  | lock mode =>
    simp only [execute]
    split_ifs <;> rfl
  | receive locals =>
    simp only [execute]
    cases env.receiving with
    | completes reception =>
      dsimp only
      split_ifs <;> rfl
    | _ => rfl
  | send =>
    simp only [execute]
    cases env.sending with
    | completes results =>
      dsimp only
      split_ifs <;> rfl
    | _ => rfl
  | subscribe eventType =>
    simp only [execute]
    split_ifs <;> rfl
  | insertPeer endpoint =>
    simp only [execute]
    split_ifs <;> rfl
  | check =>
    simp only [execute]
    split_ifs <;> rfl
  | expire now order =>
    cases order with
    | nil => rfl
    | cons id order =>
      simp only [execute]
      cases node.peers.lookup id with
      | none => rfl
      | some peer =>
        dsimp only
        split_ifs <;> rfl
  | _ => rfl

/-- A step of a thread leaves the frames alone that are below the one that runs. -/
lemma advance_append (h : stack ≠ []) (base : List Frame) :
    advance context env node (stack ++ base) =
      (advance context env node stack).map fun p => (p.1, p.2 ++ base) := by
  match stack with
  | [] => exact absurd rfl h
  | .handler :: below => rfl
  | .dispatch event 0 :: below => rfl
  | .dispatch event (n + 1) :: below => rfl
  | .operation [] held :: below => rfl
  | .operation (stmt :: code) held :: below =>
    exact execute_append context env node code held below base stmt

/-! ### All stacks that occur -/

/-- A stack that keeps the discipline, or one with a handler above an operation that holds the
lock. -/
inductive Guarded : List Frame → Prop where
  | disciplined {stack : List Frame} (h : StackOK stack) : Guarded stack
  | reentrant {above below : List Frame} {event : Event} {n : ℕ} {code : List Stmt}
      (habove : ∀ f ∈ above, f.IsFree) (hevent : event.isMembership = true)
      (hcode : Releases .busy code) (h : ∀ f ∈ below, f.IsFree) :
      Guarded (above ++ .handler :: .dispatch event n :: .operation code (some .unique) :: below)

/-- Some frame of the stack holds the lock. -/
def Holds (stack : List Frame) (mode : LockMode) : Prop := ∃ f ∈ stack, f.held = some mode

lemma holds_cons {f : Frame} {mode : LockMode} :
    Holds (f :: stack) mode ↔ f.held = some mode ∨ Holds stack mode := by
  simp [Holds]

lemma holds_operation {mode : LockMode} :
    Holds (.operation code held :: below) mode ↔ held = some mode ∨ Holds below mode := holds_cons

@[simp] lemma holds_dispatch {event : Event} {n : ℕ} {mode : LockMode} :
    Holds (.dispatch event n :: below) mode ↔ Holds below mode := by
  simp [holds_cons, Frame.held]

@[simp] lemma holds_handler {mode : LockMode} :
    Holds (.handler :: below) mode ↔ Holds below mode := by
  simp [holds_cons, Frame.held]

lemma not_holds_of_isFree (h : ∀ f ∈ stack, f.IsFree) (mode : LockMode) : ¬ Holds stack mode := by
  rintro ⟨f, hf, hheld⟩
  rw [(h f hf).held] at hheld
  cases hheld

lemma holds_append_of_isFree {mode : LockMode} (h : ∀ f ∈ above, f.IsFree) :
    Holds (above ++ base) mode ↔ Holds base mode := by
  have hnone := not_holds_of_isFree h mode
  simp only [Holds] at hnone ⊢
  constructor
  · rintro ⟨f, hf, hheld⟩
    rcases List.mem_append.mp hf with hf | hf
    · exact absurd ⟨f, hf, hheld⟩ hnone
    · exact ⟨f, hf, hheld⟩
  · rintro ⟨f, hf, hheld⟩
    exact ⟨f, List.mem_append_right above hf, hheld⟩

/-- The code of the frame that holds the lock exclusively. -/
def pending : List Frame → Option (List Stmt)
  | []                                  => none
  | .operation code (some .unique) :: _ => some code
  | _ :: below                          => pending below

lemma pending_cons_of_held {f : Frame} (h : f.held ≠ some .unique) :
    pending (f :: stack) = pending stack := by
  match f with
  | .operation code none => rfl
  | .operation code (some .shared) => rfl
  | .operation code (some .unique) => exact absurd rfl h
  | .dispatch event n => rfl
  | .handler => rfl

lemma pending_append_of_isFree (h : ∀ f ∈ above, f.IsFree) (base : List Frame) :
    pending (above ++ base) = pending base := by
  induction above with
  | nil => rfl
  | cons f above ih =>
    obtain ⟨hf, habove⟩ := List.forall_mem_cons.mp h
    rw [List.cons_append, pending_cons_of_held (by simp [hf.held]), ih habove]

lemma pending_of_isFree (h : ∀ f ∈ stack, f.IsFree) : pending stack = none := by
  rw [← List.append_nil stack, pending_append_of_isFree h]
  rfl

lemma pending_operation (h : ∀ f ∈ below, f.IsFree) (hheld : held ≠ some .unique) :
    pending (.operation code held :: below) = none := by
  rw [pending_cons_of_held (f := .operation code held) hheld, pending_of_isFree h]

lemma holds_of_pending (h : pending stack ≠ none) : Holds stack .unique := by
  induction stack with
  | nil => exact absurd rfl h
  | cons f stack ih =>
    by_cases hf : f.held = some .unique
    · exact holds_cons.mpr (.inl hf)
    · rw [pending_cons_of_held hf] at h
      exact holds_cons.mpr (.inr (ih h))

/-! ### Steps under the lock -/

/-- A step that changes nothing that the lock protects, or who holds the lock. -/
structure Inert (node : Shared) (stack : List Frame) (node' : Shared) (stack' : List Frame) :
    Prop where
  settled : ∀ code, node'.settled code = node.settled code
  pending : Mesh.pending stack' = Mesh.pending stack
  holds : ∀ mode, Holds stack' mode ↔ Holds stack mode

/-- Frames that do not get the lock run as they would alone. -/
lemma isFree_of_advance (habove : ∀ f ∈ above, f.IsFree)
    (hnone : ∀ mode, context.available mode = false)
    (h : advance context env node above = some (node', stack')) :
    (∀ f ∈ stack', f.IsFree) ∧ ∀ code, node'.settled code = node.settled code := by
  have hquiet : Quiet above := by
    rintro event n below rfl hevent
    have hfree : event.isMembership = false := (List.forall_mem_cons.mp habove).1
    rw [hfree] at hevent
    cases hevent
  -- in the other cases the lock is held or taken
  cases (StackOK.free habove).advances hquiet h with
  | free _ h' hsettled => exact ⟨h', hsettled⟩
  | acquire havailable _ _ _ _ =>
    rw [hnone] at havailable
    cases havailable
  | send _ _ _ => cases (habove _ (List.mem_cons_self ..)).held
  | release _ _ => cases (habove _ (List.mem_cons_self ..)).held
  | commit _ _ _ _ => cases (habove _ (List.mem_cons_self ..)).held
  | proceed _ _ _ => cases (habove _ (List.mem_cons_self ..)).held
  | dispatch _ _ _ _ _ => cases (habove _ (List.mem_cons_self ..)).held
  | finish _ _ _ =>
    have hbelow := (List.forall_mem_cons.mp habove).2
    cases (hbelow _ (List.mem_cons_self ..)).held

lemma Inert.of_isFree {above' : List Frame} (h : ∀ f ∈ above, f.IsFree)
    (h' : ∀ f ∈ above', f.IsFree) (hsettled : ∀ code, node'.settled code = node.settled code)
    (base : List Frame) : Inert node (above ++ base) node' (above' ++ base) where
  settled := hsettled
  pending := by rw [pending_append_of_isFree h', pending_append_of_isFree h]
  holds mode := by rw [holds_append_of_isFree h', holds_append_of_isFree h]

/-- Steps that push or drop frames without the lock. -/
lemma Inert.of_append {above' : List Frame} (h : ∀ f ∈ above, f.IsFree)
    (h' : ∀ f ∈ above', f.IsFree) (base : List Frame) :
    Inert node (above ++ base) node (above' ++ base) := .of_isFree h h' (fun _ => rfl) base

namespace Guarded

variable {m : Machine} {a : Action}

/-- Above an operation that holds the lock, a thread calls and returns and runs what does not need
the lock, until the handler of that operation ends. -/
lemma reentrant_step {event : Event} {n : ℕ} (habove : ∀ f ∈ above, f.IsFree)
    (hevent : event.isMembership = true) (hcode : Releases .busy code)
    (hbelow : ∀ f ∈ below, f.IsFree) (hnone : ∀ mode, m.available mode = false)
    (h : m.stepThread (above ++ .handler :: .dispatch event n ::
      .operation code (some .unique) :: below) a = some (node', stack')) :
    Guarded stack' ∧ Inert m.node (above ++ .handler :: .dispatch event n ::
      .operation code (some .unique) :: below) node' stack' := by
  cases a with
  | run thread env =>
    cases above with
    | nil => cases h
    | cons f above =>
      rw [Machine.stepThread, advance_append (by simp), Option.map_eq_some_iff] at h
      obtain ⟨⟨node'', above'⟩, h, heq⟩ := h
      cases heq
      obtain ⟨habove', hsettled⟩ := isFree_of_advance habove hnone h
      exact ⟨.reentrant habove' hevent hcode hbelow, .of_isFree habove habove' hsettled _⟩
  | call thread c =>
    simp only [Machine.stepThread, Option.ite_none_right_eq_some] at h
    obtain ⟨-, h⟩ := h
    have hbody : Frame.IsFree (.operation c.body none) := ⟨rfl, c.releases_body⟩
    cases above with
    | nil =>
      cases h
      have hbody' := List.forall_mem_singleton.mpr hbody
      exact ⟨.reentrant hbody' hevent hcode hbelow, .of_append habove hbody' _⟩
    | cons f above =>
      cases f with
      | handler =>
        cases h
        have habove' := List.forall_mem_cons.mpr ⟨hbody, habove⟩
        exact ⟨.reentrant habove' hevent hcode hbelow, .of_append habove habove' _⟩
      | dispatch event' n' => cases h
      | operation code' held' => cases h
  | finish thread threw =>
    cases above with
    | nil =>
      -- the handler under the lock returns, or throws out of the dispatch
      cases h
      split_ifs
      · exact ⟨.disciplined (.locked rfl hcode hbelow), ⟨fun _ => rfl, rfl, by simp⟩⟩
      · exact ⟨.disciplined (.dispatching hevent hcode hbelow), ⟨fun _ => rfl, rfl, by simp⟩⟩
    | cons f above =>
      cases f with
      | dispatch event' n' => cases h
      | operation code' held' => cases h
      | handler =>
        cases above with
        | nil => cases h
        | cons f above =>
          cases f with
          | handler => cases h
          | operation code' held' => cases h
          | dispatch event' n' =>
            have hdispatch := (List.forall_mem_cons.mp habove).2
            have hrest := (List.forall_mem_cons.mp hdispatch).2
            cases h
            split_ifs
            · exact ⟨.reentrant hrest hevent hcode hbelow, .of_append habove hrest _⟩
            · exact ⟨.reentrant hdispatch hevent hcode hbelow, .of_append habove hdispatch _⟩

/-- All that a step of a thread does. -/
lemma step (hstack : Guarded stack) (hnone : Holds stack .unique → ∀ mode, m.available mode = false)
    (h : m.stepThread stack a = some (node', stack')) :
    Guarded stack' ∧
      (Advances m.available m.node stack node' stack' ∨ Inert m.node stack node' stack') := by
  cases hstack with
  | reentrant habove hevent hcode hbelow =>
    have hheld : ∀ mode, m.available mode = false := by
      apply hnone
      rw [holds_append_of_isFree habove]
      simp [holds_operation]
    obtain ⟨hstack', hinert⟩ := reentrant_step habove hevent hcode hbelow hheld h
    exact ⟨hstack', .inr hinert⟩
  | disciplined hok =>
    by_cases hquiet : ∀ thread env, a = .run thread env → Quiet stack
    · have hadv := hok.advances_stepThread hquiet h
      exact ⟨.disciplined hadv.stackOK, .inl hadv⟩
    · -- a handler is called under the lock
      simp only [Quiet, not_forall] at hquiet
      obtain ⟨thread, env, rfl, event, n, below, rfl, hevent, hn⟩ := hquiet
      obtain ⟨n, rfl⟩ := Nat.exists_eq_succ_of_ne_zero hn
      cases h
      cases hok with
      | free hfree =>
        have hfree : event.isMembership = false := (List.forall_mem_cons.mp hfree).1
        rw [hfree] at hevent
        cases hevent
      | dispatching _ hcode hbelow =>
        have hnil : ∀ f ∈ ([] : List Frame), f.IsFree := by simp
        exact ⟨.reentrant hnil hevent hcode hbelow, .inr ⟨fun _ => rfl, rfl, by simp⟩⟩

end Guarded

/-- `add_peer` calls a handler in the first thread, which has subscribed to `Peer_connected`. -/
def handlerRun : List Action :=
  [.call 0 (.subscribe "Peer_connected".toList), .run 0 {}, .run 0 {},
    .call 0 (.addPeer ⟨"127.0.0.1".toList, 8081⟩), .run 0 {}, .run 0 {}, .run 0 {}, .run 0 {}]

end Mesh
