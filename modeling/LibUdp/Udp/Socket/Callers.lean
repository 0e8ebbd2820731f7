import LibUdp.Udp.Socket.Frames

/-!
# The blocks that use a socket

`send_to_peer`, `broadcast` and `receive_loop` keep the task of a call in a local variable. They
resume it unless it is done, and destroy it at the end of the block. `receive_loop` dispatches the
message in its block, so that handlers open further blocks in there. In one thread that is enough:
each call gets its own result, and no frame is destroyed too early or not at all.
-/

namespace Udp

namespace Socket

open Run

/-- Where the thread is in a block, with the number of the task. -/
inductive Block where
  /-- behind the call -/
  | called (t : ℕ)
  /-- behind `if (!task.is_done()) { task.resume(); }` -/
  | resumed (t : ℕ)
  deriving DecidableEq

def Block.task : Block → ℕ
  | .called t | .resumed t => t

/-- A socket and its frames, with the blocks that the thread is in. -/
structure Caller where
  frames : Frames := {}
  blocks : List Block := []

namespace Caller

inductive Action where
  /-- `send_async` or `receive_async`, outside of all blocks or in a handler that a block calls
  after its resume -/
  | call (a : Udp.Action)
  /-- `if (!task.is_done()) { task.resume(); }` -/
  | resume
  /-- the end of the block -/
  | leave
  | post (cqe : Cqe)
  | advance

def act (c : Caller) (asserts : Bool) (a : Udp.Action) (blocks : List Block) : Option Caller :=
  (c.frames.step asserts (.act a)).map fun frames => { frames, blocks }

/-- The innermost block has come to its resume, if there is a block. -/
def canCall (c : Caller) : Bool :=
  match c.blocks with
  | .called _ :: _        => false
  | .resumed _ :: _ | []  => true

def step (asserts : Bool) (c : Caller) : Action → Option Caller
  | .call a =>
    if a.isCall ∧ c.canCall then
      c.act asserts a (.called c.frames.socket.tasks.length :: c.blocks)
    else none
  | .resume =>
    match c.blocks with
    | .called t :: below =>
      if c.frames.socket.tasks[t]? = some .pending then
        c.act asserts (.resume t) (.resumed t :: below)
      else if c.frames.socket.control = .idle then some { c with blocks := .resumed t :: below }
      else none
    | _ => none
  | .leave =>
    match c.blocks with
    | .resumed t :: below =>
      (c.frames.step asserts (.destroy t)).map fun frames => { frames, blocks := below }
    | _ => none
  | .post cqe => c.act asserts (.post cqe) c.blocks
  | .advance  => c.act asserts .advance c.blocks

/-- What holds of the socket in the innermost block and outside. -/
inductive Inside (s : Socket) : List Block → Prop where
  | outside (hdone : .pending ∉ s.tasks) : Inside s []
  /-- the call has ended the process, or its task is the last one -/
  | called {t : ℕ} {below : List Block}
      (hlast : s.control = .terminated ∨ s.tasks.length = t + 1) : Inside s (.called t :: below)
  /-- all tasks are done, or the thread is still in the one of the block -/
  | resumed {t : ℕ} {below : List Block}
      (hdone : .pending ∉ s.tasks ∨ s.control = .terminated ∨ s.control = .waiting t) :
      Inside s (.resumed t :: below)

/-- The calls come one at a time, what is destroyed has been reaped, and what is not destroyed
belongs to a block. -/
structure Disciplined (c : Caller) : Prop where
  wellFormed : c.frames.socket.WellFormed
  sequential : c.frames.socket.Sequential
  inOrder    : c.frames.socket.InOrder
  destroyed  : c.frames.destroyed ⊆ c.frames.reaped
  covered    : ∀ t < c.frames.socket.tasks.length, t ∈ c.frames.destroyed ∨
    ∃ b ∈ c.blocks, b.task = t
  outer      : ∀ b ∈ c.blocks.tail, ∃ t, b = .resumed t
  inside     : Inside c.frames.socket c.blocks

variable {asserts : Bool} {c c' : Caller} {a : Action} {b : Udp.Action} {block : Block}
  {blocks below : List Block} {s s' : Socket}

lemma disciplined_init : Disciplined {} where
  wellFormed := wellFormed_init
  sequential := .none List.not_mem_nil rfl rfl
  inOrder := .init
  destroyed := List.nil_subset _
  covered := by simp
  outer := by simp
  inside := .outside List.not_mem_nil

/-! ### Steps of the socket -/

/-- What the thread and the kernel do behind a call or a resume. -/
structure GoesOn (s s' : Socket) : Prop where
  length     : s'.tasks.length = s.tasks.length
  done       : .pending ∉ s.tasks → .pending ∉ s'.tasks
  terminated : s.control = .terminated → s'.control = .terminated
  waiting    : ∀ t, s.control = .waiting t →
    .pending ∉ s'.tasks ∨ s'.control = .terminated ∨ s'.control = .waiting t

lemma Inside.goesOn (h : Inside s blocks) (hgo : GoesOn s s') : Inside s' blocks := by
  cases h with
  | outside hdone => exact .outside (hgo.done hdone)
  | called hlast => exact .called (hlast.imp hgo.terminated (hgo.length.trans ·))
  | resumed hdone =>
    refine .resumed ?_
    rcases hdone with hdone | hterminated | hwaiting
    · exact .inl (hgo.done hdone)
    · exact .inr (.inl (hgo.terminated hterminated))
    · exact hgo.waiting _ hwaiting

lemma goesOn_post {cqe : Cqe} (hstep : s.step asserts (.post cqe) = some s') :
    GoesOn s s' := by
  obtain ⟨-, heq⟩ := Option.ite_none_right_eq_some.mp hstep
  cases heq
  exact ⟨rfl, id, id, fun t ht => .inr (.inr ht)⟩

lemma goesOn_advance (hs : s.WellFormed) (horder : s.InOrder)
    (horder' : s'.InOrder) (hstep : s.step asserts .advance = some s') : GoesOn s s' := by
  cases stepped hstep with
  | terminate _ ha => cases ha
  | submit _ ha => cases ha
  | suspend hcontrol _ => exact ⟨rfl, id, by simp [hcontrol], by simp [hcontrol]⟩
  | wait hcontrol _ => exact ⟨rfl, id, by simp [hcontrol], by simp [hcontrol]⟩
  | abort _ _ _ => exact ⟨rfl, id, fun _ => rfl, fun _ _ => .inr (.inl rfl)⟩
  | take hcontrol _ _ =>
    have hdone := horder'.completed _ _ rfl
    exact ⟨List.length_set, fun _ => hdone, by simp [hcontrol], fun _ _ => .inl hdone⟩
  | finish hcontrol =>
    have hdone := horder.completed _ _ hcontrol
    rw [← hs.set_completed hcontrol] at hdone
    exact ⟨List.length_set, fun _ => hdone, by simp [hcontrol], fun _ _ => .inl hdone⟩
  | finishSuspended hcontrol => exact ⟨rfl, id, by simp [hcontrol], by simp [hcontrol]⟩

/-! ### Steps of the thread -/

/-- All tasks are done when the last one is. -/
lemma pending_notMem (h : s.Sequential) {t : ℕ} (hlast : s.tasks.length = t + 1)
    (ht : s.tasks[t]? ≠ some .pending) : .pending ∉ s.tasks := by
  have hlength : ∀ ts, s.tasks = ts ++ [.pending] → False := by
    intro ts htasks
    rw [htasks, List.length_append, List.length_singleton, Nat.add_right_cancel_iff] at hlast
    rw [htasks, ← hlast] at ht
    simp at ht
  cases h with
  | none htasks _ _ => exact htasks
  | submitted ts htasks _ _ _ => exact (hlength ts htasks).elim
  | posted ts htasks _ _ _ _ => exact (hlength ts htasks).elim

namespace Disciplined

/-- A step of the socket that leaves the thread where it should be. -/
lemma act (h : c.Disciplined) (hcall : b.isCall → .pending ∉ c.frames.socket.tasks)
    (houter : ∀ b ∈ blocks.tail, ∃ t, b = .resumed t)
    (hinside : ∀ socket, c.frames.socket.step asserts b = some socket →
      Inside socket blocks ∧ ∀ t < socket.tasks.length, t ∈ c.frames.destroyed ∨
        ∃ b ∈ blocks, b.task = t)
    (hstep : c.act asserts b blocks = some c') : c'.Disciplined := by
  obtain ⟨frames, hframes, rfl⟩ := Option.map_eq_some_iff.mp hstep
  have hreaped := Frames.reaped_subset_step h.wellFormed hframes
  obtain ⟨-, socket, hsocket, rfl⟩ := Frames.act_eq_some_iff.mp hframes
  obtain ⟨hinside, hcovered⟩ := hinside socket hsocket
  exact ⟨h.wellFormed.step hsocket, h.sequential.step h.wellFormed hcall hsocket,
    h.inOrder.step h.wellFormed h.sequential hcall hsocket,
    List.Subset.trans h.destroyed hreaped, hcovered, houter, hinside⟩

/-- The thread or the kernel goes on. -/
lemma goesOn (h : c.Disciplined) (hb : ¬ b.isCall)
    (hgo : ∀ socket, c.frames.socket.step asserts b = some socket → GoesOn c.frames.socket socket)
    (hstep : c.act asserts b c.blocks = some c') : c'.Disciplined := by
  refine h.act (fun hb' => absurd hb' hb) h.outer (fun socket hsocket => ?_) hstep
  have hgo := hgo socket hsocket
  refine ⟨h.inside.goesOn hgo, fun t ht => h.covered t ?_⟩
  rwa [← hgo.length]

/-- Where a call is possible, all tasks are done and all blocks have come to their resume. -/
lemma of_canCall (h : c.Disciplined) (hcan : c.canCall) (hidle : c.frames.socket.control = .idle) :
    .pending ∉ c.frames.socket.tasks ∧ ∀ b ∈ c.blocks, ∃ t, b = .resumed t := by
  have houter := h.outer
  have hinside := h.inside
  rw [canCall] at hcan
  split at hcan
  · cases hcan
  · next t below hblocks =>
    rw [hblocks] at hinside houter ⊢
    cases hinside with
    | resumed hdone =>
      exact ⟨hdone.resolve_right (by simp [hidle]), List.forall_mem_cons.mpr ⟨⟨t, rfl⟩, houter⟩⟩
  · next hblocks =>
    rw [hblocks] at hinside ⊢
    cases hinside with
    | outside hdone => exact ⟨hdone, List.forall_mem_nil _⟩

lemma call (h : c.Disciplined) (hb : b.isCall) (hcan : c.canCall)
    (hstep : c.act asserts b (.called c.frames.socket.tasks.length :: c.blocks) = some c') :
    c'.Disciplined := by
  have hidle : c.frames.socket.control = .idle := by
    obtain ⟨frames, hframes, -⟩ := Option.map_eq_some_iff.mp hstep
    obtain ⟨-, socket, hsocket, -⟩ := Frames.act_eq_some_iff.mp hframes
    cases stepped hsocket with
    | terminate hidle _ => exact hidle
    | submit hidle _ => exact hidle
    | _ => cases hb
  obtain ⟨hdone, hresumed⟩ := h.of_canCall hcan hidle
  refine h.act (fun _ => hdone) ?_ (fun socket hsocket => ?_) hstep
  · exact hresumed
  have hcovered : ∀ t < c.frames.socket.tasks.length, t ∈ c.frames.destroyed ∨
      ∃ b ∈ Block.called c.frames.socket.tasks.length :: c.blocks, b.task = t := fun t ht =>
    (h.covered t ht).imp_right fun ⟨b, hb, heq⟩ => ⟨b, List.mem_cons_of_mem _ hb, heq⟩
  cases stepped hsocket with
  | terminate _ _ => exact ⟨.called (.inl rfl), hcovered⟩
  | submit _ _ =>
    refine ⟨.called (.inr (by simp [Socket.submit])), fun t ht => ?_⟩
    rw [Socket.submit, if_pos rfl, List.length_append, List.length_singleton,
      Nat.lt_succ_iff_lt_or_eq] at ht
    rcases ht with ht | rfl
    · exact hcovered t ht
    · exact .inr ⟨_, List.mem_cons_self, rfl⟩
  | _ => cases hb

/-- The task of the block is resumed unless it is done. -/
lemma resume (h : c.Disciplined) {t : ℕ} (hblocks : c.blocks = .called t :: below)
    (hstep : c.step asserts .resume = some c') : c'.Disciplined := by
  have hinside := h.inside
  have houter := h.outer
  have hcovered := h.covered
  rw [hblocks] at hinside houter hcovered
  have hcovered' : ∀ t' < c.frames.socket.tasks.length, t' ∈ c.frames.destroyed ∨
      ∃ b ∈ Block.resumed t :: below, b.task = t' := by
    simpa [Block.task] using hcovered
  rw [Caller.step, hblocks] at hstep
  dsimp only at hstep
  split_ifs at hstep with ht hidle
  · have hcall : ¬ (Udp.Action.resume t).isCall := by simp [Udp.Action.isCall]
    refine h.act (fun hb => absurd hb hcall) ?_ (fun socket hsocket => ?_) hstep
    · exact houter
    simp only [Socket.step, ht, Option.ite_none_right_eq_some, Option.some.injEq] at hsocket
    obtain ⟨-, rfl⟩ := hsocket
    exact ⟨.resumed (.inr (.inr rfl)), hcovered'⟩
  · cases hstep
    refine ⟨h.wellFormed, h.sequential, h.inOrder, h.destroyed, hcovered', houter, .resumed ?_⟩
    cases hinside with
    | called hlast =>
      exact .inl (pending_notMem h.sequential (hlast.resolve_left (by simp [hidle])) ht)

/-- The end of a block whose task is done. -/
lemma leave (h : c.Disciplined) {t : ℕ} {frames : Frames}
    (hblocks : c.blocks = .resumed t :: below)
    (hframes : c.frames.step asserts (.destroy t) = some frames) :
    Disciplined { frames, blocks := below } := by
  have hinside := h.inside
  have houter := h.outer
  have hcovered := h.covered
  rw [hblocks] at hinside houter hcovered
  obtain ⟨⟨hidle, hlt, -⟩, rfl⟩ := Frames.destroy_eq_some_iff.mp hframes
  have hdone : .pending ∉ c.frames.socket.tasks := by
    cases hinside with
    | resumed hdone => exact hdone.resolve_right (by simp [hidle])
  have hreaped : t ∈ c.frames.reaped := by
    have ht := List.getElem?_eq_getElem hlt
    cases htask : c.frames.socket.tasks[t] with
    | pending => exact absurd (htask ▸ List.getElem_mem hlt) hdone
    | done result => exact Frames.mem_reaped_of_done h.inOrder (ht.trans (congrArg some htask))
  refine ⟨h.wellFormed, h.sequential, h.inOrder, List.cons_subset.mpr ⟨hreaped, h.destroyed⟩,
    fun t' ht' => ?_, fun b hb => houter b (List.mem_of_mem_tail hb), ?_⟩
  · rcases hcovered t' ht' with hdestroyed | ⟨b, hb, rfl⟩
    · exact .inl (List.mem_cons_of_mem _ hdestroyed)
    · rcases List.mem_cons.mp hb with rfl | hb
      · exact .inl List.mem_cons_self
      · exact .inr ⟨b, hb, rfl⟩
  · cases below with
    | nil => exact .outside hdone
    | cons b below =>
      obtain ⟨t', rfl⟩ := houter b List.mem_cons_self
      exact .resumed (.inl hdone)

lemma step (h : c.Disciplined) (hstep : c.step asserts a = some c') : c'.Disciplined := by
  cases a with
  | call b =>
    obtain ⟨⟨hb, hcan⟩, hstep⟩ := Option.ite_none_right_eq_some.mp hstep
    exact h.call hb hcan hstep
  | resume =>
    match hblocks : c.blocks with
    | .called t :: below => exact h.resume hblocks hstep
    | .resumed t :: below => simp [Caller.step, hblocks] at hstep
    | [] => simp [Caller.step, hblocks] at hstep
  | leave =>
    match hblocks : c.blocks with
    | .called t :: below => simp [Caller.step, hblocks] at hstep
    | [] => simp [Caller.step, hblocks] at hstep
    | .resumed t :: below =>
      rw [Caller.step, hblocks] at hstep
      obtain ⟨frames, hframes, rfl⟩ := Option.map_eq_some_iff.mp hstep
      exact h.leave hblocks hframes
  | post cqe => exact h.goesOn (by simp [Udp.Action.isCall]) (fun _ => goesOn_post) hstep
  | advance =>
    refine h.goesOn (by simp [Udp.Action.isCall]) (fun socket hsocket => ?_) hstep
    refine goesOn_advance h.wellFormed h.inOrder ?_ hsocket
    exact h.inOrder.step h.wellFormed h.sequential (fun hb => by cases hb) hsocket

end Disciplined

/-- In every run of the blocks, however handlers nest them and whatever the kernel posts when, each
task gets the result of its own operation and nothing ever points into a destroyed frame. The
frames that are not destroyed are those of the blocks that the thread is in, and outside of all
blocks all tasks are done. -/
theorem own_results_and_valid (asserts : Bool) (as : List Action)
    (h : Visits (step asserts) {} as c) :
    c.frames.socket.OwnResults ∧ c.frames.Valid ∧
      (∀ t < c.frames.socket.tasks.length, t ∈ c.frames.destroyed ∨ ∃ b ∈ c.blocks, b.task = t) ∧
      (c.blocks = [] → .pending ∉ c.frames.socket.tasks) := by
  have hc : c.Disciplined := h.invariant (fun _ _ _ hc hstep => hc.step hstep) disciplined_init
  refine ⟨hc.inOrder.ownResults, fun t ht => ?_, hc.covered, fun houtside => ?_⟩
  · exact Frames.not_mem_referenced hc.wellFormed (hc.destroyed ht)
  · have hinside := hc.inside
    rw [houtside] at hinside
    cases hinside with
    | outside hdone => exact hdone

/-- A receive that is resumed, and a send of a handler that the message is dispatched to. The entry
of the send is posted before its call returns. -/
def nestedRun : List Action :=
  [.call (.receiveAsync true), .advance, .resume, .post ⟨0, 5⟩, .advance, .advance,
    .call (.sendAsync true true), .post ⟨1, 2⟩, .advance, .advance, .advance, .resume, .leave,
    .leave]

theorem own_results_and_valid_nested : ∃ c, Visits (step true) {} nestedRun c ∧
    c.frames.socket.tasks = [.done 5, .done 2] ∧ c.frames.destroyed = [0, 1] ∧
    c.frames.socket.OwnResults ∧ c.frames.Valid ∧
    (∀ t < c.frames.socket.tasks.length, t ∈ c.frames.destroyed ∨ ∃ b ∈ c.blocks, b.task = t) ∧
    (c.blocks = [] → .pending ∉ c.frames.socket.tasks) :=
  ⟨_, ⟨_, List.prefix_rfl, rfl⟩, rfl, rfl,
    own_results_and_valid true nestedRun ⟨_, List.prefix_rfl, rfl⟩⟩

end Caller

end Socket

end Udp
