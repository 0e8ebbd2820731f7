import LibUdp.Udp.Socket.Properties

/-!
# One operation at a time

The callers of a socket resume a task that is not done right after the call, so that at most one
operation is outstanding. Used that way, the ring is a queue of the results of the calls: each
call takes the one entry that the kernel posts for it.
-/

namespace Udp

namespace Socket

open Run

variable {asserts : Bool} {s s' : Socket} {a : Action}

/-- At most one operation is outstanding, and it is the one of the last task. -/
inductive Sequential (s : Socket) : Prop where
  | none (htasks : .pending ∉ s.tasks) (hflight : s.inFlight = []) (hhead : s.cqes.drop s.head = [])
  | submitted (ts : List Task) (htasks : s.tasks = ts ++ [.pending]) (hts : .pending ∉ ts)
      (hflight : s.inFlight = [ts.length]) (hhead : s.cqes.drop s.head = [])
  | posted (ts : List Task) (htasks : s.tasks = ts ++ [.pending]) (hts : .pending ∉ ts)
      (hflight : s.inFlight = []) (res : Int32) (hhead : s.cqes.drop s.head = [⟨ts.length, res⟩])

lemma waitCqe_eq_head? (s : Socket) : s.waitCqe = (s.cqes.drop s.head).head? := by
  rw [waitCqe, List.head?_drop]

/-- Only the last task can be pending when the others are done. -/
lemma eq_length_of_pending {ts : List Task} (hts : .pending ∉ ts) {t : ℕ}
    (ht : (ts ++ [Task.pending])[t]? = some .pending) : t = ts.length := by
  by_cases hlt : t < ts.length
  · rw [List.getElem?_append_left hlt] at ht
    exact absurd (List.mem_of_getElem? ht) hts
  · have hle := (List.getElem?_eq_some_iff.mp ht).1
    rw [List.length_append, List.length_singleton] at hle
    exact Nat.le_antisymm (Nat.lt_succ_iff.mp hle) (not_lt.mp hlt)

namespace Sequential

lemma congr (h : s.Sequential) (htasks : s'.tasks = s.tasks) (hflight : s'.inFlight = s.inFlight)
    (hcqes : s'.cqes = s.cqes) (hhead : s'.head = s.head) : s'.Sequential := by
  cases h with
  | none hdone hnone hseen =>
    exact .none (htasks ▸ hdone) (hflight.trans hnone) (by rw [hcqes, hhead, hseen])
  | submitted ts hlast hts hone hseen =>
    exact .submitted ts (htasks.trans hlast) hts (hflight.trans hone) (by rw [hcqes, hhead, hseen])
  | posted ts hlast hts hnone res hentry =>
    exact .posted ts (htasks.trans hlast) hts (hflight.trans hnone) res
      (by rw [hcqes, hhead, hentry])

/-- A task that finds an entry is the last one, and the entry is that of its own operation. -/
lemma exists_posted (hs : WellFormed s) (h : s.Sequential) {t : ℕ} {cqe : Cqe}
    (hcontrol : s.control = .waiting t) (hcqe : s.waitCqe = some cqe) :
    ∃ ts, t = ts.length ∧ s.tasks = ts ++ [.pending] ∧ .pending ∉ ts ∧ s.inFlight = [] ∧
      s.cqes.drop s.head = [⟨t, cqe.res⟩] := by
  rw [waitCqe_eq_head?] at hcqe
  cases h with
  | none _ _ hhead => simp [hhead] at hcqe
  | submitted _ _ _ _ hhead => simp [hhead] at hcqe
  | posted ts htasks hts hflight res hhead =>
    have ht := hs.pending t (.inr hcontrol)
    rw [htasks] at ht
    obtain rfl := eq_length_of_pending hts ht
    rw [hhead, List.head?_cons, Option.some.injEq] at hcqe
    exact ⟨ts, rfl, htasks, hts, hflight, hcqe ▸ hhead⟩

lemma step (hs : WellFormed s) (h : s.Sequential)
    (hcall : a.isCall → .pending ∉ s.tasks) (hstep : step asserts s a = some s') :
    s'.Sequential := by
  cases stepped hstep with
  | submit _ ha =>
    cases h with
    | none htasks hflight hhead =>
      exact .submitted s.tasks rfl htasks (by simp [Socket.submit, hflight]) hhead
    | submitted ts htasks _ _ _ => exact absurd (by simp [htasks]) (hcall ha)
    | posted ts htasks _ _ _ _ => exact absurd (by simp [htasks]) (hcall ha)
  | @post cqe hop =>
    cases h with
    | none _ hflight _ => simp [hflight] at hop
    | posted _ _ _ hflight _ _ => simp [hflight] at hop
    | submitted ts htasks hts hflight hhead =>
      obtain ⟨op, res⟩ := cqe
      obtain rfl : op = ts.length := by simpa [hflight] using hop
      refine .posted ts htasks hts (by simp [hflight]) res ?_
      rw [List.drop_append_of_le_length hs.head_le, hhead]
      rfl
  | @take t cqe hcontrol hcqe hres =>
    obtain ⟨ts, rfl, htasks, hts, hflight, hhead⟩ := exists_posted hs h hcontrol hcqe
    have hdone : s.tasks.set ts.length (.done cqe.res) = ts ++ [.done cqe.res] := by
      simp [htasks]
    refine .none (by simp [hdone, hts]) hflight ?_
    rw [← List.drop_drop, hhead]
    rfl
  | finish hcontrol => exact h.congr (hs.set_completed hcontrol) rfl rfl rfl
  | _ => exact h.congr rfl rfl rfl rfl

end Sequential

/-! ### The results in their order -/

/-- The entries are those of the calls in their order, and each task has the result of its entry,
except for a last one that is not done. -/
structure InOrder (s : Socket) : Prop where
  ops : s.cqes.map Cqe.op = List.range s.cqes.length
  tasks : ∃ rest, (rest = [] ∨ rest = [.pending]) ∧
    s.tasks = (s.cqes.take s.head).map (fun cqe => .done cqe.res) ++ rest
  completed : ∀ t result, s.control = .completed t result → .pending ∉ s.tasks

namespace InOrder

lemma init : InOrder {} := ⟨rfl, ⟨[], .inl rfl, rfl⟩, by simp⟩

lemma congr (h : s.InOrder) (htasks : s'.tasks = s.tasks) (hcqes : s'.cqes = s.cqes)
    (hhead : s'.head = s.head)
    (hcontrol : ∀ t result, s'.control = .completed t result → s.control = .completed t result) :
    s'.InOrder where
  ops := hcqes ▸ h.ops
  tasks := by
    rw [htasks, hcqes, hhead]
    exact h.tasks
  completed t result ht := by
    rw [htasks]
    exact h.completed t result (hcontrol t result ht)

/-- The tasks before the last one when that one is pending. -/
lemma eq_of_pending (h : s.InOrder) {ts : List Task} (htasks : s.tasks = ts ++ [.pending]) :
    ts = (s.cqes.take s.head).map fun cqe => .done cqe.res := by
  obtain ⟨rest, rfl | rfl, heq⟩ := h.tasks
  · have hmem : Task.pending ∈ s.tasks := by simp [htasks]
    rw [heq, List.append_nil, List.mem_map] at hmem
    obtain ⟨cqe, -, hcqe⟩ := hmem
    cases hcqe
  · rw [htasks] at heq
    exact (List.append_inj' heq rfl).1

lemma step (hs : WellFormed s) (hseq : s.Sequential) (h : s.InOrder)
    (hcall : a.isCall → .pending ∉ s.tasks) (hstep : step asserts s a = some s') : s'.InOrder := by
  cases stepped hstep with
  | submit _ ha =>
    refine ⟨h.ops, ⟨[.pending], .inr rfl, ?_⟩, by simp [Socket.submit]⟩
    obtain ⟨rest, rfl | rfl, heq⟩ := h.tasks
    · simp [Socket.submit, heq]
    · exact absurd (by simp [heq]) (hcall ha)
  | @post cqe hop =>
    cases hseq with
    | none _ hflight _ => simp [hflight] at hop
    | posted _ _ _ hflight _ _ => simp [hflight] at hop
    | submitted ts htasks hts hflight hhead =>
      have hlast : s.head = s.cqes.length :=
        Nat.le_antisymm hs.head_le (List.drop_eq_nil_iff.mp hhead)
      have hts' := h.eq_of_pending htasks
      have hop' : cqe.op = s.cqes.length := by
        have hop : cqe.op = ts.length := by simpa [hflight] using hop
        rw [hop, hts', List.length_map, hlast, List.take_length]
      refine ⟨?_, ⟨[.pending], .inr rfl, ?_⟩, h.completed⟩
      · simp [h.ops, hop', List.range_succ]
      · rw [htasks, hts', List.take_append_of_le_length hs.head_le]
  | @take t cqe hcontrol hcqe hres =>
    obtain ⟨ts, rfl, htasks, hts, -, -⟩ := Sequential.exists_posted hs hseq hcontrol hcqe
    have hhead : s.cqes[s.head]? = some cqe := hcqe
    refine ⟨h.ops, ⟨[], .inl rfl, ?_⟩, ?_⟩
    · rw [List.take_add_one, hhead, htasks]
      simp [h.eq_of_pending htasks]
    · simp [htasks, hts]
  | finish hcontrol => exact h.congr (hs.set_completed hcontrol) rfl rfl (by simp)
  | _ => exact h.congr rfl rfl rfl (by simp)

/-- Every finished task holds the result of its own operation. -/
lemma ownResults (h : s.InOrder) : s.OwnResults := by
  intro t result ht
  have hop : ∀ cqe, s.cqes[t]? = some cqe → cqe.op = t := by
    intro cqe hcqe
    have hmap := congrArg (·[t]?) h.ops
    simpa [hcqe, List.getElem?_range (List.getElem?_eq_some_iff.mp hcqe).1] using hmap
  obtain ⟨rest, hrest, htasks⟩ := h.tasks
  rw [htasks, List.getElem?_append] at ht
  split_ifs at ht with hlt
  · rw [List.getElem?_map, Option.map_eq_some_iff] at ht
    obtain ⟨cqe, hcqe, heq⟩ := ht
    cases heq
    have hcqe' : s.cqes[t]? = some cqe := by
      rw [List.length_map, List.length_take] at hlt
      rwa [List.getElem?_take_of_lt (by omega)] at hcqe
    obtain rfl := hop cqe hcqe'
    exact List.mem_of_getElem? hcqe'
  · have hmem := List.mem_of_getElem? ht
    rcases hrest with rfl | rfl <;> simp at hmem

end InOrder

/-! ### Runs -/

section runs

variable {as : List Action}

lemma sequential_of_calls (hcall : ∀ s a, Takes (step asserts) {} as s a → a.isCall →
    .pending ∉ s.tasks) (hs : Visits (step asserts) {} as s) : s.Sequential ∧ s.InOrder := by
  refine hs.induction (P := fun s => s.Sequential ∧ s.InOrder)
    ⟨.none (by simp) rfl rfl, .init⟩ fun s a s' htakes hs hstep => ?_
  have hwf := WellFormed.visits htakes.visits_source
  have hcall := hcall s a htakes
  exact ⟨hs.1.step hwf hcall hstep, InOrder.step hwf hs.1 hs.2 hcall hstep⟩

end runs

/-- When each operation is started after all tasks before it are done, the results of the calls
are those that the kernel posts, in their order: each task gets that of its own operation, and a
coroutine that has taken it finds no further entry. -/
theorem results_in_order (asserts : Bool) (as : List Action)
    (hcall : ∀ s a, Takes (step asserts) {} as s a → a.isCall → .pending ∉ s.tasks)
    (hs : Visits (step asserts) {} as s) :
    s.InOrder ∧ s.OwnResults ∧ ∀ t result, s.control = .completed t result → s.cqReady = 0 := by
  have h := sequential_of_calls hcall hs
  refine ⟨h.2, h.2.ownResults, ?_⟩
  intro t result hcontrol
  have hdone := h.2.completed t result hcontrol
  cases h.1 with
  | none _ _ hhead => exact Nat.sub_eq_zero_of_le (List.drop_eq_nil_iff.mp hhead)
  | submitted ts htasks _ _ _ => exact absurd (by simp [htasks]) hdone
  | posted ts htasks _ _ _ _ => exact absurd (by simp [htasks]) hdone

/-- A send whose entry is there when it has been submitted, and a receive that is suspended. -/
def sendReceive : List Action :=
  [.sendAsync true true, .post ⟨0, 2⟩, .advance, .advance, .advance, .receiveAsync true, .advance]

/-- The receive is started when the send is done. It is resumed, and its entry is posted while it
waits. -/
theorem results_in_order_receive :
    InOrder ⟨[.done 2, .done 5], [], [⟨0, 2⟩, ⟨1, 5⟩], 2, .completed 1 5⟩ ∧
      OwnResults ⟨[.done 2, .done 5], [], [⟨0, 2⟩, ⟨1, 5⟩], 2, .completed 1 5⟩ ∧
      ∀ t result, Control.completed 1 5 = .completed t result →
        cqReady ⟨[.done 2, .done 5], [], [⟨0, 2⟩, ⟨1, 5⟩], 2, .completed 1 5⟩ = 0 := by
  refine results_in_order true (sendReceive ++ [.resume 1, .post ⟨1, 5⟩, .advance]) ?_
    ⟨_, List.prefix_rfl, rfl⟩
  iterate 10 refine forall_takes_cons rfl (by decide) ?_
  exact fun _ _ h => absurd h not_takes_nil

/-- A task that waits takes the entry that is not seen, and its caller goes on. -/
lemma exec_waiting {t : ℕ} {res : Int32} (hres : (asserts && isTransient res) = false)
    (ht : s.tasks[t]? = some .pending) (hcontrol : s.control = .waiting t)
    (hhead : s.cqes.drop s.head = [⟨t, res⟩]) :
    exec (step asserts) s [.advance, .advance] = some { s with
      tasks   := s.tasks.set t (.done res)
      head    := s.head + 1
      control := .idle } := by
  have hcqe : s.waitCqe = some ⟨t, res⟩ := by rw [waitCqe_eq_head?, hhead, List.head?_cons]
  have hready : s.cqes.length - (s.head + 1) = 0 := by
    have hlength := congrArg List.length hhead
    rw [List.length_drop, List.length_singleton] at hlength
    omega
  have hstops : s.stops asserts ⟨t, res⟩ = false := by simp [stops, isGone, ht, hres]
  have htake : step asserts s .advance = some { s with
      tasks   := s.tasks.set t (.done res)
      head    := s.head + 1
      control := .completed t res } := by
    simp [Socket.step, advance, hcontrol, hcqe, reap, hstops]
  rw [exec_cons, htake]
  simp [exec_cons, Socket.step, advance, cqReady, hready]

/-- Resuming the task that is not done lets it finish: with the entry of its operation if the
kernel has posted that, and otherwise with the next one that the kernel posts, which can only be
that of its operation. -/
theorem resume_finishes (asserts : Bool) (as : List Action)
    (hcall : ∀ s a, Takes (step asserts) {} as s a → a.isCall → .pending ∉ s.tasks)
    (hs : Visits (step asserts) {} as s) (hidle : s.control = .idle) {t : ℕ}
    (ht : s.tasks[t]? = some .pending) :
    (∃ res, s.cqes.drop s.head = [⟨t, res⟩] ∧ s.inFlight = [] ∧
      ((asserts && isTransient res) = false →
        exec (step asserts) s [.resume t, .advance, .advance] = some { s with
          tasks := s.tasks.set t (.done res)
          head  := s.head + 1 })) ∨
    s.cqes.drop s.head = [] ∧ s.inFlight = [t] ∧ ∀ res, (asserts && isTransient res) = false →
      exec (step asserts) s [.resume t, .post ⟨t, res⟩, .advance, .advance] = some { s with
        tasks    := s.tasks.set t (.done res)
        inFlight := []
        cqes     := s.cqes ++ [⟨t, res⟩]
        head     := s.head + 1 } := by
  have hresume : step asserts s (.resume t) = some { s with control := .waiting t } := by
    simp [Socket.step, hidle, ht]
  cases (sequential_of_calls hcall hs).1 with
  | none htasks _ _ => exact absurd (List.mem_of_getElem? ht) htasks
  | posted ts htasks hts hflight res hhead =>
    left
    obtain rfl := eq_length_of_pending hts (htasks ▸ ht)
    refine ⟨res, hhead, hflight, fun hres => ?_⟩
    have hfinish := exec_waiting (s := { s with control := .waiting ts.length }) hres ht rfl hhead
    rw [exec_cons, hresume, Option.bind_some, hfinish, ← hidle]
  | submitted ts htasks hts hflight hhead =>
    right
    obtain rfl := eq_length_of_pending hts (htasks ▸ ht)
    refine ⟨hhead, hflight, fun res hres => ?_⟩
    have hpost : step asserts { s with control := .waiting ts.length } (.post ⟨ts.length, res⟩) =
        some { s with
          inFlight := []
          cqes     := s.cqes ++ [⟨ts.length, res⟩]
          control  := .waiting ts.length } := by
      simp [Socket.step, hflight]
    have hdrop : (s.cqes ++ [Cqe.mk ts.length res]).drop s.head = [⟨ts.length, res⟩] := by
      rw [List.drop_append_of_le_length (WellFormed.visits hs).head_le, hhead]
      rfl
    have hfinish := exec_waiting (s := { s with
      inFlight := []
      cqes     := s.cqes ++ [Cqe.mk ts.length res]
      control  := .waiting ts.length }) hres ht rfl hdrop
    rw [exec_cons, hresume, Option.bind_some, exec_cons, hpost, Option.bind_some, hfinish,
      ← hidle]

/-- The socket when the receive is suspended, as its entry has not been posted. -/
def suspended : Socket :=
  { tasks := [.done 2, .pending], inFlight := [1], cqes := [⟨0, 2⟩], head := 1 }

theorem resume_finishes_receive :
    (∃ res, suspended.cqes.drop suspended.head = [⟨1, res⟩] ∧ suspended.inFlight = [] ∧
      ((true && isTransient res) = false →
        exec (step true) suspended [.resume 1, .advance, .advance] = some { suspended with
          tasks := suspended.tasks.set 1 (.done res)
          head  := suspended.head + 1 })) ∨
    suspended.cqes.drop suspended.head = [] ∧ suspended.inFlight = [1] ∧
      ∀ res, (true && isTransient res) = false →
        exec (step true) suspended [.resume 1, .post ⟨1, res⟩, .advance, .advance] =
          some { suspended with
            tasks    := suspended.tasks.set 1 (.done res)
            inFlight := []
            cqes     := suspended.cqes ++ [⟨1, res⟩]
            head     := suspended.head + 1 } := by
  refine resume_finishes true sendReceive ?_ ⟨_, List.prefix_rfl, rfl⟩ rfl rfl
  iterate 7 refine forall_takes_cons rfl (by decide) ?_
  exact fun _ _ h => absurd h not_takes_nil

end Socket

end Udp
