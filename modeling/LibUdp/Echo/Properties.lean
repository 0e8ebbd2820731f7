import LibUdp.Echo.Basic

/-!
# What the two sides of the echo agree on

The data is the same whatever the network does. Without repetitions the two sides go in lockstep
with at most one datagram between them, so that one datagram that is lost stops both for good:
neither side sends again or gives up waiting.
-/

namespace Echo

open Bytes Run

namespace System

variable {asserts : Bool} {total : ℕ} {message : Buffer} {s s' : System} {a : Action}

/-- The steps, by the action that makes them. -/
inductive Steps (asserts : Bool) (total : ℕ) (message : Buffer) (s : System) :
    Action → System → Prop where
  | clientSend (accepted : Bool) (h : s.clientSends total) :
      Steps asserts total message s (.clientSend accepted) { s with
        client   := { s.client with sent := true }
        inFlight := if accepted then s.inFlight ++ [⟨.server, message⟩] else s.inFlight }
  | clientReceive {data : Buffer} (h : s.clientWaits) (hdata : ⟨.client, data⟩ ∈ s.inFlight) :
      Steps asserts total message s (.clientReceive data) { s with
        client   :=
          { iteration := s.client.iteration + 1
            sent      := false
            log       := s.client.log ++ [received data] }
        inFlight := s.inFlight.erase ⟨.client, data⟩ }
  | serverReceive {data : Buffer} (h : s.serverWaits total)
      (hdata : ⟨.server, data⟩ ∈ s.inFlight) :
      Steps asserts total message s (.serverReceive data) { s with
        server   :=
          { s.server with
            buffer := overwrite s.server.buffer (received data)
            result := some (received data).length }
        inFlight := s.inFlight.erase ⟨.server, data⟩ }
  | serverSend (accepted : Bool) {n : ℕ} (hexited : s.exited = false)
      (hresult : s.server.result = some n) :
      Steps asserts total message s (.serverSend accepted) (s.serverSend asserts accepted n)
  | fail {party : Party} (hexited : s.exited = false) (h : s.iteration party < total) :
      Steps asserts total message s (.fail party) { s with exited := true }
  | lose {d : Datagram} (hd : d ∈ s.inFlight) :
      Steps asserts total message s (.lose d) { s with inFlight := s.inFlight.erase d }
  | duplicate {d : Datagram} (hd : d ∈ s.inFlight) :
      Steps asserts total message s (.duplicate d) { s with inFlight := d :: s.inFlight }

lemma steps_of_step (h : step asserts total message s a = some s') :
    Steps asserts total message s a s' := by
  cases a with
  | clientSend accepted =>
    simp only [step, Option.ite_none_right_eq_some, Option.some.injEq] at h
    obtain ⟨hsends, rfl⟩ := h
    exact .clientSend accepted hsends
  | clientReceive data =>
    simp only [step, Option.ite_none_right_eq_some, Option.some.injEq] at h
    obtain ⟨⟨hwaits, hdata⟩, rfl⟩ := h
    exact .clientReceive hwaits hdata
  | serverReceive data =>
    simp only [step, Option.ite_none_right_eq_some, Option.some.injEq] at h
    obtain ⟨⟨hwaits, hdata⟩, rfl⟩ := h
    exact .serverReceive hwaits hdata
  | serverSend accepted =>
    simp only [step, Option.ite_none_left_eq_some, Option.map_eq_some_iff] at h
    obtain ⟨hexited, n, hresult, rfl⟩ := h
    exact .serverSend accepted (by simpa using hexited) hresult
  | fail party =>
    simp only [step, Option.ite_none_right_eq_some, Option.some.injEq] at h
    obtain ⟨⟨hexited, hiteration⟩, rfl⟩ := h
    exact .fail hexited hiteration
  | lose d =>
    simp only [step, Option.ite_none_right_eq_some, Option.some.injEq] at h
    obtain ⟨hd, rfl⟩ := h
    exact .lose hd
  | duplicate d =>
    simp only [step, Option.ite_none_right_eq_some, Option.some.injEq] at h
    obtain ⟨hd, rfl⟩ := h
    exact .duplicate hd

/-! ### The data -/

lemma received_received (data : Buffer) : received (received data) = received data := by
  simp [received]

lemma take_overwrite (buffer data : Buffer) :
    (overwrite buffer data).take data.length = data := by
  simp [overwrite]

/-- What is sent to a party. -/
def payload (message : Buffer) : Party → Buffer
  | .server => message
  | .client => received message

/-- All that is sent and logged is the message, as far as it fits into a buffer. -/
structure Intact (message : Buffer) (s : System) : Prop where
  inFlight : ∀ d ∈ s.inFlight, d.data = payload message d.destination
  buffer : ∀ n, s.server.result = some n → s.server.buffer.take n = received message
  server : ∀ data ∈ s.server.log, data = received message
  client : ∀ data ∈ s.client.log, data = received message

/-- A datagram that is sent joins those in flight, if the kernel accepts it. -/
lemma Intact.inFlight_send (h : s.Intact message) {d : Datagram}
    (hd : d.data = payload message d.destination) (accepted : Bool) :
    ∀ d' ∈ if accepted then s.inFlight ++ [d] else s.inFlight,
      d'.data = payload message d'.destination := by
  intro d' hd'
  cases accepted with
  | false => exact h.inFlight d' hd'
  | true =>
    rcases List.mem_append.mp hd' with hd' | hd'
    · exact h.inFlight d' hd'
    · rw [List.mem_singleton.mp hd', hd]

lemma Intact.step (h : s.Intact message) (hstep : step asserts total message s a = some s') :
    s'.Intact message := by
  have herase : ∀ d, ∀ d' ∈ s.inFlight.erase d, d'.data = payload message d'.destination :=
    fun _ d' hd' => h.inFlight d' (List.mem_of_mem_erase hd')
  cases steps_of_step hstep with
  | clientSend accepted _ => exact ⟨h.inFlight_send rfl accepted, h.buffer, h.server, h.client⟩
  | @clientReceive data _ hdata =>
    refine ⟨herase _, h.buffer, h.server, ?_⟩
    intro data' hdata'
    rcases List.mem_append.mp hdata' with hdata' | hdata'
    · exact h.client data' hdata'
    · have hdata : data = received message := h.inFlight _ hdata
      rw [List.mem_singleton.mp hdata', hdata, received_received]
  | @serverReceive data _ hdata =>
    refine ⟨herase _, ?_, h.server, h.client⟩
    intro n hn
    cases hn
    have hdata : data = message := h.inFlight _ hdata
    rw [take_overwrite, hdata]
  | @serverSend accepted n _ hresult =>
    have hbuffer := h.buffer n hresult
    refine ⟨h.inFlight_send hbuffer accepted, by simp [serverSend], ?_, h.client⟩
    intro data hdata
    rcases List.mem_append.mp hdata with hdata | hdata
    · exact h.server data hdata
    · rw [List.mem_singleton.mp hdata, hbuffer]
  | fail _ _ => exact ⟨h.inFlight, h.buffer, h.server, h.client⟩
  | lose _ => exact ⟨herase _, h.buffer, h.server, h.client⟩
  | @duplicate d hd =>
    exact ⟨List.forall_mem_cons.mpr ⟨h.inFlight d hd, h.inFlight⟩, h.buffer, h.server, h.client⟩

lemma intact_init : Intact message {} := ⟨by simp, by simp, by simp, by simp⟩

/-- Whatever the network loses, repeats and reorders, each side logs only the message, as far as it
fits into a buffer. -/
theorem logs_intact (asserts : Bool) (total : ℕ) (message : Buffer) (as : List Action)
    (hs : Visits (step asserts total message) {} as s) :
    ∀ data ∈ s.server.log ++ s.client.log, data = message.take bufferSize := by
  have h : s.Intact message := hs.invariant (fun _ _ _ h hstep => h.step hstep) intact_init
  intro data hdata
  rcases List.mem_append.mp hdata with hdata | hdata
  · exact h.server data hdata
  · exact h.client data hdata

/-- The client gets the echo of its first message, which the network has repeated. -/
theorem logs_intact_duplicate :
    ∃ s, Visits (step true totalMessages helloWorld) {} [.clientSend true,
        .duplicate ⟨.server, helloWorld⟩, .serverReceive helloWorld, .serverSend true,
        .clientReceive helloWorld, .serverReceive helloWorld, .serverSend true] s ∧
      ∀ data ∈ s.server.log ++ s.client.log, data = helloWorld.take bufferSize :=
  ⟨_, ⟨_, List.prefix_refl _, rfl⟩,
    logs_intact true totalMessages helloWorld [.clientSend true, .duplicate ⟨.server, helloWorld⟩,
      .serverReceive helloWorld, .serverSend true, .clientReceive helloWorld,
      .serverReceive helloWorld, .serverSend true] ⟨_, List.prefix_refl _, rfl⟩⟩

/-! ### Lockstep -/

/-- The states of the runs in which nothing is lost or repeated, by the number of steps. -/
inductive Phase (total : ℕ) (message : Buffer) : ℕ → System → Prop where
  | idle (i : ℕ) (buffer : Buffer) (hi : i ≤ total) : Phase total message (4 * i)
      { server   := ⟨i, buffer, none, List.replicate i (received message)⟩
        client   := ⟨i, false, List.replicate i (received message)⟩
        inFlight := [] }
  | request (i : ℕ) (buffer : Buffer) (hi : i < total) : Phase total message (4 * i + 1)
      { server   := ⟨i, buffer, none, List.replicate i (received message)⟩
        client   := ⟨i, true, List.replicate i (received message)⟩
        inFlight := [⟨.server, message⟩] }
  | served (i : ℕ) (buffer : Buffer) (hi : i < total)
      (hbuffer : buffer.take (received message).length = received message) :
      Phase total message (4 * i + 2)
      { server   := ⟨i, buffer, some (received message).length,
          List.replicate i (received message)⟩
        client   := ⟨i, true, List.replicate i (received message)⟩
        inFlight := [] }
  | reply (i : ℕ) (buffer : Buffer) (hi : i < total) : Phase total message (4 * i + 3)
      { server   := ⟨i + 1, buffer, none, List.replicate (i + 1) (received message)⟩
        client   := ⟨i, true, List.replicate i (received message)⟩
        inFlight := [⟨.client, received message⟩] }

/-- The process is gone, or the client waits and nothing comes any more. -/
def Dead (total : ℕ) (s : System) : Prop :=
  s.exited = true ∨
    (s.client.iteration < total ∧ s.client.sent = true) ∧ s.server.result = none ∧ s.inFlight = []

/-- A step that neither loses nor repeats anything leads to the next phase, and one that loses
something ends all hope. -/
lemma Phase.step {k : ℕ} (h : Phase total message k s) (ha : a.duplicates = false)
    (hstep : step asserts total message s a = some s') :
    a.loses = false ∧ Phase total message (k + 1) s' ∨ a.loses = true ∧ s'.Dead total := by
  cases h with
  | idle i buffer hi =>
    cases steps_of_step hstep with
    | clientSend accepted h =>
      cases accepted with
      | true => exact .inl ⟨rfl, .request i buffer h.2.1⟩
      | false => exact .inr ⟨rfl, .inr ⟨⟨h.2.1, rfl⟩, rfl, rfl⟩⟩
    | clientReceive h _ => cases h.2
    | serverReceive _ hdata => cases hdata
    | serverSend _ _ hresult => cases hresult
    | fail _ _ => exact .inr ⟨rfl, .inl rfl⟩
    | lose hd => cases hd
    | duplicate _ => cases ha
  | request i buffer hi =>
    cases steps_of_step hstep with
    | clientSend _ h => cases h.2.2
    | clientReceive _ hdata => cases List.mem_singleton.mp hdata
    | serverReceive _ hdata =>
      cases List.mem_singleton.mp hdata
      left
      refine ⟨rfl, ?_⟩
      simp only [List.erase_cons_head]
      exact .served i _ hi (take_overwrite _ _)
    | serverSend _ _ hresult => cases hresult
    | fail _ _ => exact .inr ⟨rfl, .inl rfl⟩
    | lose hd =>
      cases List.mem_singleton.mp hd
      exact .inr ⟨rfl, .inr ⟨⟨hi, rfl⟩, rfl, List.erase_cons_head ..⟩⟩
    | duplicate _ => cases ha
  | served i buffer hi hbuffer =>
    cases steps_of_step hstep with
    | clientSend _ h => cases h.2.2
    | clientReceive _ hdata => cases hdata
    | serverReceive h _ => cases h.2.2
    | serverSend accepted _ hresult =>
      cases hresult
      cases accepted with
      | true =>
        left
        refine ⟨rfl, ?_⟩
        simp only [serverSend, hbuffer, ← List.replicate_succ', Bool.not_true, Bool.and_false]
        exact .reply i buffer hi
      | false =>
        right
        refine ⟨rfl, ?_⟩
        cases asserts with
        | true => exact .inl rfl
        | false => exact .inr ⟨⟨hi, rfl⟩, rfl, rfl⟩
    | fail _ _ => exact .inr ⟨rfl, .inl rfl⟩
    | lose hd => cases hd
    | duplicate _ => cases ha
  | reply i buffer hi =>
    cases steps_of_step hstep with
    | clientSend _ h => cases h.2.2
    | clientReceive _ hdata =>
      cases List.mem_singleton.mp hdata
      left
      refine ⟨rfl, ?_⟩
      simp only [List.erase_cons_head, received_received, ← List.replicate_succ']
      exact .idle (i + 1) buffer hi
    | serverReceive _ hdata => cases List.mem_singleton.mp hdata
    | serverSend _ _ hresult => cases hresult
    | fail _ _ => exact .inr ⟨rfl, .inl rfl⟩
    | lose hd =>
      cases List.mem_singleton.mp hd
      exact .inr ⟨rfl, .inr ⟨⟨hi, rfl⟩, rfl, List.erase_cons_head ..⟩⟩
    | duplicate _ => cases ha

/-- Nothing gets a dead system going again. -/
lemma Dead.step (h : s.Dead total) (hstep : step asserts total message s a = some s') :
    s'.Dead total := by
  rcases h with hexited | ⟨⟨hiteration, hsent⟩, hresult, hflight⟩
  · left
    cases steps_of_step hstep with
    | clientSend _ _ => exact hexited
    | clientReceive _ _ => exact hexited
    | serverReceive _ _ => exact hexited
    | serverSend _ hrunning _ =>
      rw [hexited] at hrunning
      cases hrunning
    | fail _ _ => rfl
    | lose _ => exact hexited
    | duplicate _ => exact hexited
  · cases steps_of_step hstep with
    | clientSend _ h =>
      have hunsent := h.2.2
      rw [hsent] at hunsent
      cases hunsent
    | clientReceive _ hdata =>
      rw [hflight] at hdata
      cases hdata
    | serverReceive _ hdata =>
      rw [hflight] at hdata
      cases hdata
    | serverSend _ _ hresult' =>
      rw [hresult] at hresult'
      cases hresult'
    | fail _ _ => exact .inl rfl
    | lose hd =>
      rw [hflight] at hd
      cases hd
    | duplicate hd =>
      rw [hflight] at hd
      cases hd

lemma Dead.not_done (h : s.Dead total) : ¬ s.Done total := by
  intro hdone
  rcases h with hexited | ⟨⟨hiteration, -⟩, -⟩
  · rw [hdone.exited] at hexited
    cases hexited
  · exact hiteration.ne hdone.client

/-- What a run without repetitions has come to. -/
lemma phase_or_dead {as : List Action} (hdup : ∀ a ∈ as, a.duplicates = false)
    (h : exec (System.step asserts total message) {} as = some s) :
    (∀ a ∈ as, a.loses = false) ∧ Phase total message as.length s ∨
      (∃ a ∈ as, a.loses = true) ∧ s.Dead total := by
  induction as using List.reverseRecOn generalizing s with
  | nil =>
    cases h
    exact .inl ⟨by simp, .idle 0 _ (Nat.zero_le total)⟩
  | append_singleton as a ih =>
    obtain ⟨t, ht, hstep⟩ := exec_concat_eq_some_iff.mp h
    rw [List.forall_mem_append] at hdup
    rcases ih hdup.1 ht with ⟨hloses, hphase⟩ | ⟨⟨a', ha', hloses⟩, hdead⟩
    · rcases hphase.step (hdup.2 a (List.mem_singleton_self a)) hstep with ⟨ha, h⟩ | ⟨ha, h⟩
      · left
        rw [List.length_append, List.length_singleton]
        exact ⟨List.forall_mem_append.mpr ⟨hloses, List.forall_mem_singleton.mpr ha⟩, h⟩
      · exact .inr ⟨⟨a, by simp, ha⟩, h⟩
    · exact .inr ⟨⟨a', List.mem_append_left _ ha', hloses⟩, hdead.step hstep⟩

namespace Phase

lemma done_iff {k : ℕ} (h : Phase total message k s) : s.Done total ↔ k = 4 * total := by
  cases h with
  | idle i buffer hi =>
    constructor
    · intro hdone
      exact congrArg (4 * ·) hdone.client
    · intro hk
      obtain rfl : i = total := Nat.eq_of_mul_eq_mul_left (by decide) hk
      exact ⟨rfl, rfl, rfl⟩
  | request i buffer hi => exact iff_of_false (fun hdone => hi.ne hdone.client) (by omega)
  | served i buffer hi _ => exact iff_of_false (fun hdone => hi.ne hdone.client) (by omega)
  | reply i buffer hi => exact iff_of_false (fun hdone => hi.ne hdone.client) (by omega)

lemma le {k : ℕ} (h : Phase total message k s) : k ≤ 4 * total := by
  cases h <;> omega

/-- Before the end some side can go on, and nothing has to be lost for that. -/
lemma exists_step (asserts : Bool) {k : ℕ} (h : Phase total message k s) (hk : k < 4 * total) :
    ∃ a s', a.loses = false ∧ a.duplicates = false ∧
      System.step asserts total message s a = some s' := by
  cases h with
  | idle i buffer hi =>
    refine ⟨.clientSend true, _, rfl, rfl, if_pos ⟨rfl, ?_, rfl⟩⟩
    change i < total
    omega
  | request i buffer hi =>
    exact ⟨.serverReceive message, _, rfl, rfl, if_pos ⟨⟨rfl, hi, rfl⟩, by simp⟩⟩
  | served i buffer hi hbuffer => exact ⟨.serverSend true, _, rfl, rfl, rfl⟩
  | reply i buffer hi =>
    exact ⟨.clientReceive (received message), _, rfl, rfl, if_pos ⟨⟨rfl, rfl⟩, by simp⟩⟩

/-- From every phase the two sides can go on to the end. -/
lemma exists_done (asserts : Bool) {k : ℕ} (h : Phase total message k s) :
    ∃ bs s', exec (System.step asserts total message) s bs = some s' ∧ s'.Done total := by
  obtain ⟨n, hn⟩ := Nat.exists_eq_add_of_le h.le
  induction n generalizing k s with
  | zero => exact ⟨[], s, rfl, h.done_iff.mpr hn.symm⟩
  | succ n ih =>
    obtain ⟨a, t, hloses, hdup, hstep⟩ := h.exists_step asserts (by omega)
    rcases h.step hdup hstep with ⟨-, ht⟩ | ⟨ha, -⟩
    · obtain ⟨bs, s', hexec, hdone⟩ := ih ht (by omega)
      refine ⟨a :: bs, s', ?_, hdone⟩
      rw [exec_cons, hstep]
      exact hexec
    · rw [hloses] at ha
      cases ha

lemma logs {k : ℕ} (h : Phase total message k s) (hdone : s.Done total) :
    s.server.log = List.replicate total (received message) ∧
      s.client.log = List.replicate total (received message) := by
  have hk := h.done_iff.mp hdone
  cases h with
  | idle i buffer hi =>
    obtain rfl : i = total := Nat.eq_of_mul_eq_mul_left (by decide) hk
    exact ⟨rfl, rfl⟩
  | request i buffer hi => omega
  | served i buffer hi _ => omega
  | reply i buffer hi => omega

end Phase

/-- After a run without repetitions both sides can still get to their end just when the run has
lost nothing: there is no timeout and no second try. -/
theorem can_finish_iff (asserts : Bool) (total : ℕ) (message : Buffer) (as : List Action)
    (hdup : ∀ a ∈ as, a.duplicates = false)
    (h : exec (step asserts total message) {} as = some s) :
    (∃ bs s', exec (step asserts total message) s bs = some s' ∧ s'.Done total) ↔
      ∀ a ∈ as, a.loses = false := by
  rcases phase_or_dead hdup h with ⟨hloses, hphase⟩ | ⟨⟨a, ha, hloses⟩, hdead⟩
  · exact iff_of_true (hphase.exists_done asserts) hloses
  · refine iff_of_false ?_ ?_
    · rintro ⟨bs, s', hexec, hdone⟩
      have hvisits : Visits (step asserts total message) s bs s' := ⟨bs, List.prefix_refl bs, hexec⟩
      have hdead' : s'.Dead total := hvisits.invariant (fun _ _ _ h hstep => h.step hstep) hdead
      exact hdead'.not_done hdone
    · intro hall
      rw [hall a ha] at hloses
      cases hloses

/-- The echo of the first message is lost. -/
theorem can_finish_iff_lose :
    ∃ s, exec (step true totalMessages helloWorld) {} [.clientSend true, .serverReceive helloWorld,
        .serverSend true, .lose ⟨.client, helloWorld⟩] = some s ∧
      ((∃ bs s', exec (step true totalMessages helloWorld) s bs = some s' ∧
          s'.Done totalMessages) ↔
        ∀ a ∈ [Action.clientSend true, .serverReceive helloWorld, .serverSend true,
          .lose ⟨.client, helloWorld⟩], a.loses = false) := by
  refine ⟨_, rfl, can_finish_iff true totalMessages helloWorld _ ?_ rfl⟩
  simp [Action.duplicates]

/-- As long as nothing is lost or repeated, some side can go on until both are done, which takes
four steps for each message, and then both have logged every message. -/
theorem lossless_run (asserts : Bool) (total : ℕ) (message : Buffer) (as : List Action)
    (has : ∀ a ∈ as, a.loses = false ∧ a.duplicates = false)
    (h : exec (step asserts total message) {} as = some s) :
    as.length ≤ 4 * total ∧ (s.Done total ↔ as.length = 4 * total) ∧
      (¬ s.Done total → ∃ a s', a.loses = false ∧ a.duplicates = false ∧
        step asserts total message s a = some s') ∧
      (s.Done total → s.server.log = List.replicate total (message.take bufferSize) ∧
        s.client.log = List.replicate total (message.take bufferSize)) := by
  rcases phase_or_dead (fun a ha => (has a ha).2) h with ⟨-, hphase⟩ | ⟨⟨a, ha, hloses⟩, -⟩
  · refine ⟨hphase.le, hphase.done_iff, ?_, hphase.logs⟩
    intro hdone
    exact hphase.exists_step asserts (hphase.le.lt_of_ne (mt hphase.done_iff.mpr hdone))
  · rw [(has a ha).1] at hloses
    cases hloses

/-- The first round. -/
theorem lossless_run_round :
    ∃ s, exec (step true totalMessages helloWorld) {} [.clientSend true, .serverReceive helloWorld,
        .serverSend true, .clientReceive helloWorld] = some s ∧
      4 ≤ 4 * totalMessages ∧ (s.Done totalMessages ↔ 4 = 4 * totalMessages) ∧
      (¬ s.Done totalMessages → ∃ a s', a.loses = false ∧ a.duplicates = false ∧
        step true totalMessages helloWorld s a = some s') ∧
      (s.Done totalMessages →
        s.server.log = List.replicate totalMessages (helloWorld.take bufferSize) ∧
          s.client.log = List.replicate totalMessages (helloWorld.take bufferSize)) := by
  refine ⟨_, rfl, lossless_run true totalMessages helloWorld [.clientSend true,
    .serverReceive helloWorld, .serverSend true, .clientReceive helloWorld] ?_ rfl⟩
  simp [Action.loses, Action.duplicates]

/-! ### At most one datagram -/

/-- How many datagrams are on the way to a party. -/
def flight (party : Party) (inFlight : List Datagram) : ℕ :=
  inFlight.countP (·.destination = party)

lemma flight_erase_le (party : Party) (inFlight : List Datagram) (d : Datagram) :
    flight party (inFlight.erase d) ≤ flight party inFlight := List.erase_sublist.countP_le

lemma flight_erase {inFlight : List Datagram} {d : Datagram} (hd : d ∈ inFlight) :
    flight d.destination (inFlight.erase d) + 1 = flight d.destination inFlight := by
  have hperm := (List.perm_cons_erase hd).countP_eq (·.destination = d.destination)
  rw [flight, flight, hperm, List.countP_cons_of_pos (by simp)]

lemma flight_send (inFlight : List Datagram) (accepted : Bool) (d : Datagram) :
    flight d.destination (if accepted then inFlight ++ [d] else inFlight) ≤
      flight d.destination inFlight + 1 := by
  cases accepted <;> simp [flight, List.countP_append]

lemma flight_send_ne (inFlight : List Datagram) (accepted : Bool) {d : Datagram} {party : Party}
    (hne : d.destination ≠ party) :
    flight party (if accepted then inFlight ++ [d] else inFlight) = flight party inFlight := by
  cases accepted <;> simp [flight, List.countP_append, hne]

lemma length_eq_flight (inFlight : List Datagram) :
    inFlight.length = flight .server inFlight + flight .client inFlight := by
  induction inFlight with
  | nil => rfl
  | cons d inFlight ih =>
    simp only [flight, List.countP_cons, List.length_cons] at ih ⊢
    cases d.destination <;> simp <;> omega

/-- Each side answers what it has received, and nothing is received twice. -/
structure Lockstep (total : ℕ) (s : System) : Prop where
  requests : flight .server s.inFlight + (s.server.iteration + s.server.result.isSome.toNat) ≤
    s.client.iteration + s.client.sent.toNat
  replies : flight .client s.inFlight + s.client.iteration ≤ s.server.iteration
  server : s.server.log.length = s.server.iteration
  client : s.client.log.length = s.client.iteration
  le_total : s.client.iteration + s.client.sent.toNat ≤ total

lemma lockstep_init : Lockstep total {} := ⟨le_rfl, le_rfl, rfl, rfl, Nat.zero_le total⟩

lemma Lockstep.step (h : s.Lockstep total) (ha : a.duplicates = false)
    (hstep : System.step asserts total message s a = some s') : s'.Lockstep total := by
  obtain ⟨hrequests, hreplies, hserver, hclient, htotal⟩ := h
  cases steps_of_step hstep with
  | clientSend accepted h =>
    obtain ⟨-, hlt, hsent⟩ := h
    have hsend := flight_send s.inFlight accepted ⟨.server, message⟩
    have hclients : flight .client (if accepted then s.inFlight ++ [⟨.server, message⟩]
        else s.inFlight) = flight .client s.inFlight := flight_send_ne _ _ (by simp)
    rw [hsent, Bool.toNat_false] at hrequests
    refine ⟨?_, hclients ▸ hreplies, hserver, hclient, hlt⟩
    dsimp only [Bool.toNat_true] at hsend ⊢
    omega
  | clientReceive h hdata =>
    have herase := flight_erase hdata
    rw [h.2, Bool.toNat_true] at hrequests htotal
    refine ⟨?_, ?_, hserver, by simp [hclient], htotal⟩
    · exact (Nat.add_le_add_right (flight_erase_le _ _ _) _).trans hrequests
    · dsimp only at herase ⊢
      omega
  | serverReceive h hdata =>
    have herase := flight_erase hdata
    rw [h.2.2, Option.isSome_none, Bool.toNat_false] at hrequests
    refine ⟨?_, ?_, hserver, hclient, htotal⟩
    · dsimp only [Option.isSome_some, Bool.toNat_true] at herase ⊢
      omega
    · exact (Nat.add_le_add_right (flight_erase_le _ _ _) _).trans hreplies
  | @serverSend accepted n hexited hresult =>
    rw [hresult, Option.isSome_some, Bool.toNat_true] at hrequests
    have hservers : flight .server (if accepted then s.inFlight ++
        [⟨.client, s.server.buffer.take n⟩] else s.inFlight) = flight .server s.inFlight :=
      flight_send_ne _ _ (by simp)
    have hsend := flight_send s.inFlight accepted ⟨.client, s.server.buffer.take n⟩
    refine ⟨?_, ?_, by simp [serverSend, hserver], hclient, htotal⟩
    · exact hservers ▸ hrequests
    · dsimp only [serverSend] at hsend ⊢
      omega
  | fail _ _ => exact ⟨hrequests, hreplies, hserver, hclient, htotal⟩
  | lose _ =>
    exact ⟨(Nat.add_le_add_right (flight_erase_le _ _ _) _).trans hrequests,
      (Nat.add_le_add_right (flight_erase_le _ _ _) _).trans hreplies, hserver, hclient, htotal⟩
  | duplicate _ => cases ha

/-- In a run without repetitions there is at most one datagram on the way, and the server is at
most one message ahead of the echoes that the client has got. -/
theorem lockstep (asserts : Bool) (total : ℕ) (message : Buffer) (as : List Action)
    (hdup : ∀ a ∈ as, a.duplicates = false) (hs : Visits (step asserts total message) {} as s) :
    s.inFlight.length ≤ 1 ∧ s.client.log.length ≤ s.server.log.length ∧
      s.server.log.length ≤ s.client.log.length + 1 ∧ s.server.log.length ≤ total := by
  have h : s.Lockstep total := by
    apply hs.induction lockstep_init
    intro t a u htakes ht hstep
    exact ht.step (hdup a htakes.mem) hstep
  obtain ⟨hrequests, hreplies, hserver, hclient, htotal⟩ := h
  have hsent := Bool.toNat_le s.client.sent
  rw [length_eq_flight, hserver, hclient]
  omega

/-- The server has answered, and the client has still to receive the echo. -/
theorem lockstep_reply :
    ∃ s, Visits (step true totalMessages helloWorld) {} [.clientSend true,
        .serverReceive helloWorld, .serverSend true] s ∧
      s.inFlight.length ≤ 1 ∧ s.client.log.length ≤ s.server.log.length ∧
      s.server.log.length ≤ s.client.log.length + 1 ∧ s.server.log.length ≤ totalMessages := by
  refine ⟨_, ⟨_, List.prefix_refl _, rfl⟩, lockstep true totalMessages helloWorld [.clientSend true,
    .serverReceive helloWorld, .serverSend true] ?_ ⟨_, List.prefix_refl _, rfl⟩⟩
  simp [Action.duplicates]

end System

end Echo
