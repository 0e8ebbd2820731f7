import LibUdp.Udp.Socket.Synchronous

/-!
# Coroutine frames that the ring points into

The operation of a call lies in the frame of its coroutine, and the user data of its completion
entry is a pointer to it. `~Task` destroys the frame, whether or not the call is done. From then on
neither the kernel nor an entry that is yet to be reaped may refer to the operation.
-/

namespace Udp

namespace Socket

open Run

/-- A socket with the frames of its calls. -/
structure Frames where
  socket    : Socket := {}
  /-- the calls whose frame has been destroyed -/
  destroyed : List ℕ := []

namespace Frames

inductive Action where
  /-- a step of the socket -/
  | act (a : Udp.Action)
  /-- `Task::~Task` -/
  | destroy (t : ℕ)
  deriving DecidableEq

/-- The caller still has the task that it resumes. -/
def HasTask (f : Frames) : Udp.Action → Prop
  | .resume t => t ∉ f.destroyed
  | _         => True

instance (f : Frames) (a : Udp.Action) : Decidable (f.HasTask a) := by
  cases a <;> unfold HasTask <;> infer_instance

def step (asserts : Bool) (f : Frames) : Action → Option Frames
  | .act a =>
    if f.HasTask a then (f.socket.step asserts a).map fun socket => { f with socket } else none
  | .destroy t =>
    if f.socket.control = .idle ∧ t < f.socket.tasks.length ∧ t ∉ f.destroyed then
      some { f with destroyed := t :: f.destroyed }
    else none

/-- The operations that the kernel works on and those that entries point to, which are yet to be
reaped. -/
def referenced (f : Frames) : List ℕ :=
  (f.socket.cqes.drop f.socket.head).map Cqe.op ++ f.socket.inFlight

/-- The operations whose entries have been reaped. -/
def reaped (f : Frames) : List ℕ := (f.socket.cqes.take f.socket.head).map Cqe.op

/-- Nothing points into a frame that has been destroyed. -/
def Valid (f : Frames) : Prop := ∀ t ∈ f.destroyed, t ∉ f.referenced

variable {asserts : Bool} {f f' : Frames} {a : Action} {as : List Action}

lemma act_eq_some_iff {a : Udp.Action} : f.step asserts (.act a) = some f' ↔
    f.HasTask a ∧ ∃ socket, f.socket.step asserts a = some socket ∧
      { f with socket } = f' := by
  rw [step, Option.ite_none_right_eq_some, Option.map_eq_some_iff]

lemma destroy_eq_some_iff {t : ℕ} : f.step asserts (.destroy t) = some f' ↔
    (f.socket.control = .idle ∧ t < f.socket.tasks.length ∧ t ∉ f.destroyed) ∧
      { f with destroyed := t :: f.destroyed } = f' := by
  rw [step, Option.ite_none_right_eq_some, Option.some_inj]

lemma wellFormed (h : Visits (step asserts) {} as f) : f.socket.WellFormed := by
  refine h.invariant (P := fun f => f.socket.WellFormed) (fun f a f' hf hstep => ?_)
    Socket.wellFormed_init
  cases a with
  | act a =>
    obtain ⟨-, socket, hsocket, rfl⟩ := act_eq_some_iff.mp hstep
    exact hf.step hsocket
  | destroy t =>
    obtain ⟨-, rfl⟩ := destroy_eq_some_iff.mp hstep
    exact hf

/-- Each operation is either referenced or has its entry reaped, and not both. -/
lemma perm_range (h : f.socket.WellFormed) :
    (f.reaped ++ f.referenced).Perm (List.range f.socket.tasks.length) := by
  have hsplit : f.reaped ++ f.referenced = f.socket.cqes.map Cqe.op ++ f.socket.inFlight := by
    rw [reaped, referenced, ← List.append_assoc, ← List.map_append, List.take_append_drop]
  rw [hsplit]
  exact h.ops

lemma mem_reaped (h : f.socket.WellFormed) {t : ℕ} (ht : t < f.socket.tasks.length)
    (hnot : t ∉ f.referenced) : t ∈ f.reaped :=
  (List.mem_append.mp ((perm_range h).mem_iff.mpr (List.mem_range.mpr ht))).resolve_right hnot

lemma not_mem_referenced (h : f.socket.WellFormed) {t : ℕ} (ht : t ∈ f.reaped) :
    t ∉ f.referenced := by
  obtain ⟨-, -, hdisjoint⟩ :=
    List.nodup_append.mp ((perm_range h).nodup_iff.mpr List.nodup_range)
  exact fun href => hdisjoint t ht t href rfl

/-- What has been reaped stays so. -/
lemma reaped_subset_step (hf : f.socket.WellFormed) (h : f.step asserts a = some f') :
    f.reaped ⊆ f'.reaped := by
  cases a with
  | act a =>
    obtain ⟨-, socket, hsocket, rfl⟩ := act_eq_some_iff.mp h
    cases Socket.stepped hsocket with
    | post _ =>
      rw [reaped, reaped, List.take_append_of_le_length hf.head_le]
      exact List.Subset.refl _
    | take _ _ _ =>
      refine List.map_subset _ ?_
      exact (List.take_prefix_take_left (Nat.le_succ _)).subset
    | _ => exact List.Subset.refl _
  | destroy t =>
    obtain ⟨-, rfl⟩ := destroy_eq_some_iff.mp h
    exact List.Subset.refl _

/-- Where the entry of each call has been reaped before its frame is destroyed, that is so of all
frames that have been destroyed. -/
lemma destroyed_subset_reaped
    (hdestroy : ∀ f t, Takes (step asserts) {} as f (.destroy t) → t ∈ f.reaped)
    (h : Visits (step asserts) {} as f) : f.destroyed ⊆ f.reaped := by
  refine h.induction (P := fun f => f.destroyed ⊆ f.reaped) (List.nil_subset _)
    fun f a f' htakes hf hstep => ?_
  have hreaped := reaped_subset_step (wellFormed htakes.visits_source) hstep
  cases a with
  | act a =>
    obtain ⟨-, socket, -, rfl⟩ := act_eq_some_iff.mp hstep
    exact List.Subset.trans hf hreaped
  | destroy t =>
    obtain ⟨-, rfl⟩ := destroy_eq_some_iff.mp hstep
    exact List.cons_subset.mpr ⟨hreaped (hdestroy f t htakes), List.Subset.trans hf hreaped⟩

lemma valid_of_reaped
    (hdestroy : ∀ f t, Takes (step asserts) {} as f (.destroy t) → t ∈ f.reaped)
    (h : Visits (step asserts) {} as f) : f.Valid := fun _ ht =>
  not_mem_referenced (wellFormed h) (destroyed_subset_reaped hdestroy h ht)

/-- In a run nothing ever points into a frame that has been destroyed, just when no task is
destroyed before the entry of its own operation has been reaped, be the task done or not. -/
theorem valid_iff (asserts : Bool) (as : List Action) :
    (∀ f, Visits (step asserts) {} as f → f.Valid) ↔
      ∀ f t, Takes (step asserts) {} as f (.destroy t) → t ∈ f.reaped := by
  refine ⟨fun h f t htakes => ?_, fun h f hf => valid_of_reaped h hf⟩
  obtain ⟨f', hstep⟩ := htakes.exists_step
  have hvalid := h f' (htakes.visits hstep)
  obtain ⟨⟨-, hlt, -⟩, rfl⟩ := destroy_eq_some_iff.mp hstep
  exact mem_reaped (wellFormed htakes.visits_source) hlt (hvalid t List.mem_cons_self)

/-- A send takes the entry of a receive before it, is done and destroyed, and the kernel still works
on its operation. -/
example : ∃ f, exec (step true) {} [.act (.receiveAsync true), .act .advance,
      .act (.sendAsync true true), .act .advance, .act (.post ⟨0, 5⟩), .act (.resume 1),
      .act .advance, .act .advance, .destroy 1] = some f ∧
    f.socket.tasks = [.pending, .done 5] ∧ f.destroyed = [1] ∧ f.referenced = [1] :=
  ⟨_, rfl, rfl, rfl, rfl⟩

/-! ### One operation at a time -/

lemma sequential (hcall : ∀ f a, Takes (step asserts) {} as f (.act a) → a.isCall →
    .pending ∉ f.socket.tasks) (h : Visits (step asserts) {} as f) :
    f.socket.Sequential ∧ f.socket.InOrder := by
  refine h.induction (P := fun f => f.socket.Sequential ∧ f.socket.InOrder)
    ⟨.none (by simp) rfl rfl, .init⟩ fun f a f' htakes hf hstep => ?_
  have hwf := wellFormed htakes.visits_source
  cases a with
  | act a =>
    have hcall := hcall f a htakes
    obtain ⟨-, socket, hsocket, rfl⟩ := act_eq_some_iff.mp hstep
    exact ⟨hf.1.step hwf hcall hsocket, Socket.InOrder.step hwf hf.1 hf.2 hcall hsocket⟩
  | destroy t =>
    obtain ⟨-, rfl⟩ := destroy_eq_some_iff.mp hstep
    exact hf

/-- The entry of a task that is done has been reaped when the entries are taken in order. -/
lemma mem_reaped_of_done (h : f.socket.InOrder) {t : ℕ} {result : Int32}
    (ht : f.socket.tasks[t]? = some (.done result)) : t ∈ f.reaped := by
  obtain ⟨rest, hrest, htasks⟩ := h.tasks
  have hlt : t < (f.socket.cqes.take f.socket.head).length := by
    by_contra hge
    have hle : List.length ((f.socket.cqes.take f.socket.head).map fun cqe => Task.done cqe.res) ≤
        t := by
      rw [List.length_map]
      exact not_lt.mp hge
    rw [htasks, List.getElem?_append_right hle] at ht
    have hmem := List.mem_of_getElem? ht
    rcases hrest with rfl | rfl <;> simp at hmem
  rw [List.length_take, Nat.lt_min] at hlt
  rw [reaped, List.map_take, h.ops, List.take_range, List.mem_range, Nat.lt_min]
  exact hlt

/-- When each operation is started after all tasks before it are done, and only tasks that are done
are destroyed, nothing ever points into a frame that has been destroyed. -/
theorem valid_of_sequential (asserts : Bool) (as : List Action)
    (hcall : ∀ f a, Takes (step asserts) {} as f (.act a) → a.isCall → .pending ∉ f.socket.tasks)
    (hdestroy : ∀ f t, Takes (step asserts) {} as f (.destroy t) →
      ∃ result, f.socket.tasks[t]? = some (.done result))
    (h : Visits (step asserts) {} as f) : f.Valid := by
  refine valid_of_reaped (fun f t htakes => ?_) h
  obtain ⟨result, hresult⟩ := hdestroy f t htakes
  exact mem_reaped_of_done (sequential hcall htakes.visits_source).2 hresult

/-- A send that is done and destroyed, and a receive that is resumed, done and destroyed. -/
def sendReceiveFrames : List Action :=
  sendReceive.map .act ++ [.destroy 0, .act (.resume 1), .act (.post ⟨1, 5⟩), .act .advance,
    .act .advance, .destroy 1]

/-- The action starts no operation while a task is not done, and destroys no such task. -/
def isOrderly (f : Frames) : Action → Bool
  | .act a     => !a.isCall || .pending ∉ f.socket.tasks
  | .destroy t => f.socket.isGone t

lemma isOrderly_sendReceive :
    ∀ f a, Takes (step true) {} sendReceiveFrames f a → f.isOrderly a := by
  iterate 13 refine forall_takes_cons rfl (by decide) ?_
  exact fun _ _ h => absurd h not_takes_nil

theorem valid_of_sequential_receive :
    Valid ⟨⟨[.done 2, .done 5], [], [⟨0, 2⟩, ⟨1, 5⟩], 2, .idle⟩, [1, 0]⟩ := by
  refine valid_of_sequential true sendReceiveFrames (fun f a htakes ha => ?_)
    (fun f t htakes => ?_) ⟨_, List.prefix_rfl, rfl⟩
  · simpa [isOrderly, ha] using isOrderly_sendReceive f (.act a) htakes
  · have hgone : f.socket.isGone t := isOrderly_sendReceive f (.destroy t) htakes
    rw [isGone] at hgone
    split at hgone
    · next result hresult => exact ⟨result, hresult⟩
    · cases hgone

end Frames

end Socket

end Udp
