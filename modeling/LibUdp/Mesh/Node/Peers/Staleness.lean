import LibUdp.Mesh.Node.Liveness
import Mathlib.Tactic.Linarith

/-!
# How long a peer stays in the table

A pass removes what is older than 30 seconds, and nothing else removes a peer. So the age of the
peers is bounded by the time between two passes, whatever is done in between.
-/

namespace Mesh

open Run

/-- The time of the last pass among the operations, or of the start. -/
def lastPass (ops : List Operation) : Time :=
  ops.foldl (fun time op => match op with
    | .healthCheck now _ => now
    | _                  => time) 0

/-- Every operation takes place at most `gap` after the last pass before it. -/
def PassesWithin (gap : Time) (ops : List Operation) : Prop :=
  ∀ pre op, pre ++ [op] <+: ops → op.time - lastPass pre ≤ gap

variable {node node' : Node} {op : Operation} {ops : List Operation} {gap : Time}

lemma lastPass_concat (ops : List Operation) (op : Operation) :
    lastPass (ops ++ [op]) = match op with
      | .healthCheck now _ => now
      | _                  => lastPass ops := by
  rw [lastPass, List.foldl_concat]
  rfl

/-- A run ends at the time of its last operation. -/
lemma clock_of_step (hstep : node.step op = some node') :
    node'.clock = op.time ∧ node.clock ≤ op.time := by
  cases Node.steps_of_step hstep with
  | addPeer endpoint hclock => exact ⟨rfl, hclock⟩
  | receive d hclock => exact ⟨rfl, hclock⟩
  | healthCheck hclock horder => exact ⟨rfl, hclock⟩

lemma lastPass_le_clock (hexec : exec Node.step {} ops = some node) :
    lastPass ops ≤ node.clock := by
  induction ops using List.reverseRecOn generalizing node with
  | nil =>
    cases hexec
    exact le_refl (0 : ℤ)
  | append_singleton ops op ih =>
    obtain ⟨node₀, hexec₀, hstep⟩ := exec_concat_eq_some_iff.mp hexec
    obtain ⟨hclock, hle⟩ := clock_of_step hstep
    rw [lastPass_concat, hclock]
    cases op with
    | healthCheck now order => exact le_refl now
    | addPeer now endpoint => exact (ih hexec₀).trans hle
    | receive now d => exact (ih hexec₀).trans hle

/-- What a pass leaves is at most 30 seconds old. -/
lemma age_of_healthCheck {now : Time} {order : List Text}
    (hstep : node.step (.healthCheck now order) = some node') {id : Text} {peer : Peer}
    (hpeer : node'.peers.lookup id = some peer) : now - peer.lastSeen ≤ seconds 30 := by
  cases Node.steps_of_step hstep with
  | healthCheck hclock horder =>
    rw [Node.update, lookup_checkPeers] at hpeer
    split_ifs at hpeer with hid
    · simpa [Peer.isExpired] using (Option.filter_eq_some_iff.mp hpeer).2
    · exact absurd ((horder.2 id).mpr (Finmap.mem_of_lookup_eq_some hpeer)) hid

/-- At the time of the last pass no peer of now was older than 30 seconds. -/
lemma age_at_lastPass (hexec : exec Node.step {} ops = some node) {id : Text} {peer : Peer}
    (hpeer : node.peers.lookup id = some peer) :
    lastPass ops - peer.lastSeen ≤ seconds 30 := by
  induction ops using List.reverseRecOn generalizing node with
  | nil =>
    cases hexec
    simp at hpeer
  | append_singleton ops op ih =>
    obtain ⟨node₀, hexec₀, hstep⟩ := exec_concat_eq_some_iff.mp hexec
    have hle := lastPass_le_clock hexec₀
    have hclock := (clock_of_step hstep).2
    rw [lastPass_concat]
    cases op with
    | healthCheck now order => exact age_of_healthCheck hstep hpeer
    | receive now d =>
      rcases lookup_of_step hstep hpeer with hold | ⟨⟨⟩, -⟩
      exact ih hexec₀ hold
    | addPeer now endpoint =>
      rcases lookup_of_step hstep hpeer with hold | ⟨hnew, -⟩
      · exact ih hexec₀ hold
      · -- the peer is younger than the last pass
        cases hnew
        simp only [Operation.time, seconds] at hclock ⊢
        linarith

/-- No more time than the gap has gone by since the last pass. -/
lemma PassesWithin.clock_le (hgap : PassesWithin gap ops) (hne : ops ≠ [])
    (hexec : exec Node.step {} ops = some node) : node.clock - lastPass ops ≤ gap := by
  obtain ⟨pre, op, rfl⟩ := List.eq_nil_or_concat' ops |>.resolve_left hne
  obtain ⟨node₀, hexec₀, hstep⟩ := exec_concat_eq_some_iff.mp hexec
  obtain ⟨hclock, hle⟩ := clock_of_step hstep
  have hpre := lastPass_le_clock hexec₀
  have hop := hgap pre op List.prefix_rfl
  rw [lastPass_concat, hclock]
  cases op with
  | healthCheck now order =>
    simp only [Operation.time] at hop hle ⊢
    linarith
  | addPeer now endpoint => exact hop
  | receive now d => exact hop

lemma PassesWithin.mono (hgap : PassesWithin gap ops) {pre : List Operation}
    (hpre : pre <+: ops) : PassesWithin gap pre :=
  fun pre' op hop => hgap pre' op (hop.trans hpre)

/-- In a run whose operations come at most `gap` after a pass, no peer is ever older than 30 seconds
and `gap`. A peer leaves the table in a pass, when it is more than 30 seconds old, and not later
than that. -/
theorem peer_lifetime (gap : Time) (ops : List Operation) (hgap : PassesWithin gap ops) :
    (∀ node, Visits Node.step {} ops node → ∀ id peer, node.peers.lookup id = some peer →
      node.clock - peer.lastSeen ≤ seconds 30 + gap) ∧
    ∀ node op node', Takes Node.step {} ops node op → node.step op = some node' →
      ∀ id peer, node.peers.lookup id = some peer → node'.peers.lookup id ≠ some peer →
        (∃ order, op = .healthCheck op.time order) ∧
          seconds 30 < op.time - peer.lastSeen ∧
          op.time - peer.lastSeen ≤ seconds 30 + gap ∧
          node'.peers.lookup id = none := by
  constructor
  · rintro node ⟨pre, hpre, hexec⟩ id peer hpeer
    have hne : pre ≠ [] := by
      rintro rfl
      cases hexec
      simp at hpeer
    have hage := age_at_lastPass hexec hpeer
    have hclock := (hgap.mono hpre).clock_le hne hexec
    linarith
  · rintro node op node' ⟨pre, hpre, hexec, -⟩ hstep id peer hpeer hleft
    obtain ⟨hpass, hexpired, hnone⟩ := (lookup_step hstep hpeer).resolve_left hleft
    have hage := age_at_lastPass hexec hpeer
    have hclock := hgap pre op hpre
    refine ⟨hpass, by simpa [Peer.isExpired] using hexpired, ?_, hnone⟩
    linarith

/-- A peer is added at the start, a pass 20 seconds later leaves it alone and one 40 seconds later
removes it. -/
def oldPeerRun : List Operation :=
  [.addPeer 0 ⟨"127.0.0.1".toList, 8081⟩, .healthCheck (seconds 20) ["127.0.0.1:8081".toList],
    .healthCheck (seconds 40) ["127.0.0.1:8081".toList]]

lemma passesWithin_oldPeerRun : PassesWithin (seconds 20) oldPeerRun := by
  rintro pre op ⟨suffix, heq⟩
  rcases pre with _ | ⟨a, _ | ⟨b, _ | ⟨c, pre⟩⟩⟩
  · cases heq
    decide
  · cases heq
    decide
  · cases heq
    decide
  · have hlength := congrArg List.length heq
    simp [oldPeerRun] at hlength

theorem peer_lifetime_oldPeerRun : ∃ (node node' : Node) (peer : Peer),
    Takes Node.step {} oldPeerRun node
      (.healthCheck (seconds 40) ["127.0.0.1:8081".toList]) ∧
    node.peers.lookup "127.0.0.1:8081".toList = some peer ∧
    node'.peers.lookup "127.0.0.1:8081".toList = none ∧
    seconds 40 - peer.lastSeen ≤ seconds 30 + seconds 20 := by
  have htakes : Takes Node.step {} oldPeerRun _
      (.healthCheck (seconds 40) ["127.0.0.1:8081".toList]) :=
    ⟨[_, _], List.prefix_refl _, rfl, rfl⟩
  have hlifetime := (peer_lifetime (seconds 20) oldPeerRun passesWithin_oldPeerRun).2 _ _ _ htakes
    rfl "127.0.0.1:8081".toList _ rfl (by decide)
  exact ⟨_, _, _, htakes, rfl, hlifetime.2.2.2, hlifetime.2.2.1⟩

end Mesh
