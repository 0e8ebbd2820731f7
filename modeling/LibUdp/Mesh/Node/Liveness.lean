import LibUdp.Mesh.Node.Peers.Properties

/-!
# Peers that are heard from

`receive_loop` does not touch the peer table, so `m_last_seen` stays the time at which a peer was
added. A pass expires a peer by that time, whether or not it was heard from since.
-/

namespace Mesh

open Run

variable {node node' : Node} {ops : List Operation}

/-- A datagram from the endpoint of the peer was received at most 30 seconds before `now`. -/
def Heard (node : Node) (now : Time) (peer : Peer) : Prop :=
  ∃ time, (time, peer.endpoint) ∈ node.datagrams ∧ now - time ≤ seconds 30

/-- No pass of the run removes or disconnects a peer that was heard from. -/
def KeepsHeard (ops : List Operation) : Prop :=
  ∀ node now order node', Takes Node.step {} ops node (.healthCheck now order) →
    node.step (.healthCheck now order) = some node' →
    ∀ id peer, node.peers.lookup id = some peer → Heard node now peer →
      node'.peers.lookup id = some peer ∧
        ∃ events, node'.events = node.events ++ events ∧ .peerDisconnected id ∉ events

/-- A datagram from the endpoint is among those received at most 30 seconds before `now`. -/
def HeardFrom (ops : List Operation) (now : Time) (e : Endpoint) : Prop :=
  ∃ time d, .receive time d ∈ ops ∧ d.source = e ∧ now - time ≤ seconds 30

/-- No pass of the run from `node` removes the entry of the endpoint. -/
def KeptBy (ops : List Operation) (node : Node) (e : Endpoint) : Prop :=
  ∀ node₁ now order node₂, Takes Node.step node ops node₁ (.healthCheck now order) →
    node₁.step (.healthCheck now order) = some node₂ →
    e.toPeerId ∈ node₁.peers → e.toPeerId ∈ node₂.peers

/-- An `add_peer` of the endpoint at `time` put in an entry that no pass has removed since. -/
def AddedAt (ops : List Operation) (time : Time) (e : Endpoint) : Prop :=
  ∃ pre post node₁ node₂, ops = pre ++ .addPeer time e :: post ∧
    exec Node.step {} pre = some node₁ ∧ e.toPeerId ∉ node₁.peers ∧
    node₁.step (.addPeer time e) = some node₂ ∧ KeptBy post node₂ e

/-! ### Entries and the calls that put them in -/

/-- An entry that a step does not find in the table is one that `add_peer` puts there. -/
lemma lookup_of_step {op : Operation} (hstep : node.step op = some node') {id : Text} {peer : Peer}
    (hpeer : node'.peers.lookup id = some peer) :
    node.peers.lookup id = some peer ∨
      op = .addPeer peer.lastSeen peer.endpoint ∧ id ∉ node.peers := by
  cases Node.steps_of_step hstep with
  | addPeer endpoint _ =>
    by_cases hmem : endpoint.toPeerId ∈ node.peers
    · rw [addPeer_of_mem hmem] at hpeer
      exact .inl hpeer
    · rw [addPeer_of_not_mem hmem] at hpeer
      by_cases hid : id = endpoint.toPeerId
      · subst hid
        simp only [Node.update, Finmap.lookup_insert, Option.some.injEq] at hpeer
        subst hpeer
        exact .inr ⟨rfl, hmem⟩
      · simp only [Node.update, Finmap.lookup_insert_of_ne _ hid] at hpeer
        exact .inl hpeer
  | receive d _ => exact .inl hpeer
  | healthCheck _ _ =>
    simp only [Node.update, lookup_checkPeers] at hpeer
    split_ifs at hpeer
    · exact .inl (Option.filter_eq_some_iff.mp hpeer).1
    · exact .inl hpeer

/-- What a step leaves of the entry of a peer: it stays as it is unless a pass finds it expired. -/
lemma lookup_step (hstep : node.step op = some node') {id : Text} {peer : Peer}
    (hpeer : node.peers.lookup id = some peer) :
    node'.peers.lookup id = some peer ∨
      (∃ order, op = .healthCheck op.time order) ∧ peer.isExpired op.time = true ∧
        node'.peers.lookup id = none := by
  cases Node.steps_of_step hstep with
  | addPeer endpoint hclock =>
    left
    by_cases hmem : endpoint.toPeerId ∈ node.peers
    · rw [Node.update, addPeer_of_mem hmem, hpeer]
    · have hne : id ≠ endpoint.toPeerId := by
        rintro rfl
        exact hmem (Finmap.mem_of_lookup_eq_some hpeer)
      rw [Node.update, addPeer_of_not_mem hmem, Finmap.lookup_insert_of_ne _ hne, hpeer]
  | receive d hclock => exact .inl hpeer
  | @healthCheck now order hclock horder =>
    have hid : id ∈ order := (horder.2 id).mpr (Finmap.mem_of_lookup_eq_some hpeer)
    rw [Node.update, lookup_checkPeers, if_pos hid, hpeer]
    cases hexpired : peer.isExpired now with
    | false => exact .inl (by rw [Option.filter, hexpired]; rfl)
    | true => exact .inr ⟨⟨order, rfl⟩, hexpired, by rw [Option.filter, hexpired]; rfl⟩

lemma KeptBy.lookup {e : Endpoint} (h : KeptBy ops node e) {peer : Peer}
    (hpeer : node.peers.lookup e.toPeerId = some peer)
    (hexec : exec Node.step node ops = some node') :
    node'.peers.lookup e.toPeerId = some peer := by
  have hvisits : Visits Node.step node ops node' := ⟨ops, List.prefix_rfl, hexec⟩
  apply hvisits.induction (P := fun node => node.peers.lookup e.toPeerId = some peer) hpeer
  intro node₁ op node₂ htakes hpeer hstep
  rcases lookup_step hstep hpeer with hpeer | ⟨⟨order, hop⟩, -, hnone⟩
  · exact hpeer
  · rw [hop] at htakes hstep
    have hmem := h node₁ op.time order node₂ htakes hstep (Finmap.mem_of_lookup_eq_some hpeer)
    exact absurd hmem (Finmap.lookup_eq_none.mp hnone)

/-- A further operation that leaves the entry in the table. -/
lemma KeptBy.concat {e : Endpoint} {node₀ : Node} (h : KeptBy ops node₀ e)
    (hexec : exec Node.step node₀ ops = some node) {op : Operation}
    (hstep : node.step op = some node') (hmem : e.toPeerId ∈ node'.peers) :
    KeptBy (ops ++ [op]) node₀ e := by
  intro a now order b htakes hb ha
  rcases (takes_concat_iff hexec).mp htakes with htakes | ⟨rfl, rfl, -⟩
  · exact h a now order b htakes hb ha
  · cases hstep.symm.trans hb
    exact hmem

/-- After a run `m_last_seen` is the time of the `add_peer` that put in the entry. -/
lemma addedAt_iff (h : exec Node.step {} ops = some node) {time : Time} {e : Endpoint} :
    AddedAt ops time e ↔
      ∃ peer, node.peers.lookup e.toPeerId = some peer ∧ peer.lastSeen = time := by
  constructor
  · rintro ⟨pre, post, a, b, rfl, ha, hnew, hb, hkept⟩
    rw [exec_append, ha, Option.bind_some, exec_cons, hb, Option.bind_some] at h
    refine ⟨{ isActive := true, endpoint := e, lastSeen := time }, hkept.lookup ?_ h, rfl⟩
    cases Node.steps_of_step hb with
    | addPeer _ _ => rw [Node.update, addPeer_of_not_mem hnew, Finmap.lookup_insert]
  · rintro ⟨peer, hpeer, rfl⟩
    induction ops using List.reverseRecOn generalizing node with
    | nil =>
      cases h
      simp at hpeer
    | append_singleton ops op ih =>
      have hconsistent := Consistent.visits ⟨ops ++ [op], List.prefix_rfl, h⟩
      obtain ⟨node₁, hexec, hstep⟩ := exec_concat_eq_some_iff.mp h
      rcases lookup_of_step hstep hpeer with hpeer' | ⟨rfl, hnew⟩
      · obtain ⟨pre, post, a, b, rfl, ha, hnew, hb, hkept⟩ := ih hexec hpeer'
        refine ⟨pre, post ++ [op], a, b, by simp, ha, hnew, hb, ?_⟩
        rw [exec_append, ha, Option.bind_some, exec_cons, hb, Option.bind_some] at hexec
        exact hkept.concat hexec hstep (Finmap.mem_of_lookup_eq_some hpeer)
      · -- the entry has just been put in, by a call for the same endpoint
        obtain rfl : peer.endpoint = e :=
          Endpoint.toPeerId_injective (hconsistent.entry hpeer).2
        refine ⟨ops, [], node₁, node, rfl, hexec, hnew, hstep, ?_⟩
        rintro a now order b ⟨pre, hpre, -⟩
        simp at hpre

/-- The history of the node has the datagrams of the run. -/
lemma mem_datagrams_iff (h : exec Node.step {} ops = some node) {time : Time} {e : Endpoint} :
    (time, e) ∈ node.datagrams ↔ ∃ d, .receive time d ∈ ops ∧ d.source = e := by
  induction ops using List.reverseRecOn generalizing node with
  | nil =>
    cases h
    simp
  | append_singleton ops op ih =>
    obtain ⟨node₁, hexec, hstep⟩ := exec_concat_eq_some_iff.mp h
    have hold := ih hexec
    cases Node.steps_of_step hstep with
    | addPeer _ _ => simpa [Node.update] using hold
    | healthCheck _ _ => simpa [Node.update] using hold
    | receive d _ =>
      rw [List.mem_append, hold]
      constructor
      · rintro (⟨d', hd', hsource⟩ | hlast)
        · exact ⟨d', List.mem_append_left _ hd', hsource⟩
        · cases List.mem_singleton.mp hlast
          exact ⟨d, by simp, rfl⟩
      · rintro ⟨d', hd', rfl⟩
        rcases List.mem_append.mp hd' with hd' | hlast
        · exact .inl ⟨d', hd', rfl⟩
        · cases List.mem_singleton.mp hlast
          exact .inr List.mem_cons_self

lemma heard_iff (h : exec Node.step {} ops = some node) {now : Time} {peer : Peer} :
    Heard node now peer ↔ HeardFrom ops now peer.endpoint := by
  simp only [Heard, HeardFrom, mem_datagrams_iff h, exists_and_right, ← and_assoc]

/-! ### The exact condition -/

/-- A pass leaves a stored peer alone just when it was added at most 30 seconds ago. -/
lemma Passes.keeps_iff {now : Time} (h : Passes now node node') {id : Text} {peer : Peer}
    (hpeer : node.peers.lookup id = some peer) :
    (node'.peers.lookup id = some peer ∧
        ∃ events, node'.events = node.events ++ events ∧ .peerDisconnected id ∉ events) ↔
      now - peer.lastSeen ≤ seconds 30 := by
  obtain ⟨events, hevents, -, hmem⟩ := h.events
  have hexpired : peer.isExpired now = false ↔ now - peer.lastSeen ≤ seconds 30 := by
    simp [Peer.isExpired]
  rw [h.lookup_peers, hpeer, ← hexpired]
  constructor
  · rintro ⟨hkept, -⟩
    simpa [Option.filter_eq_some_iff] using hkept
  · intro hfresh
    refine ⟨by simp [Option.filter, hfresh], events, hevents, ?_⟩
    rw [hmem]
    rintro ⟨id', peer', hpeer', hexpired', heq⟩
    cases heq
    rw [hpeer] at hpeer'
    cases hpeer'
    exact absurd hexpired' (by simp [hfresh])

/-- A run keeps the peers that are heard from just when none of them was added more than 30
seconds before a pass that comes at most 30 seconds after one of its datagrams. -/
theorem keepsHeard_iff (ops : List Operation) :
    KeepsHeard ops ↔
      ∀ pre now order, pre ++ [.healthCheck now order] <+: ops →
        (exec Node.step {} (pre ++ [.healthCheck now order])).isSome →
        ∀ e time, AddedAt pre time e → HeardFrom pre now e → now - time ≤ seconds 30 := by
  constructor
  · intro h pre now order hpre hexec e time hadded hheard
    obtain ⟨node', hexec⟩ := Option.isSome_iff_exists.mp hexec
    obtain ⟨node, hexec, hstep⟩ := exec_concat_eq_some_iff.mp hexec
    have htakes : Takes Node.step {} ops node (.healthCheck now order) :=
      ⟨pre, hpre, hexec, by rw [hstep]; rfl⟩
    obtain ⟨peer, hpeer, rfl⟩ := (addedAt_iff hexec).mp hadded
    obtain rfl : peer.endpoint = e :=
      Endpoint.toPeerId_injective ((Consistent.visits htakes.visits_source).entry hpeer).2
    have hkept := h node now order node' htakes hstep _ peer hpeer ((heard_iff hexec).mpr hheard)
    exact ((Consistent.passes_of_takes htakes hstep).keeps_iff hpeer).mp hkept
  · intro h node now order node' htakes hstep id peer hpeer hheard
    obtain ⟨pre, hpre, hexec, -⟩ := htakes
    have htakes : Takes Node.step {} ops node (.healthCheck now order) :=
      ⟨pre, hpre, hexec, by rw [hstep]; rfl⟩
    have hid := ((Consistent.visits htakes.visits_source).entry hpeer).2
    have hfresh := h pre now order hpre (by rw [exec_concat, hexec, Option.bind_some, hstep]; rfl)
      peer.endpoint peer.lastSeen ((addedAt_iff hexec).mpr ⟨peer, hid ▸ hpeer, rfl⟩)
      ((heard_iff hexec).mp hheard)
    exact ((Consistent.passes_of_takes htakes hstep).keeps_iff hpeer).mpr hfresh

/-- A peer is added, sends a datagram 25 seconds later, and is removed by the pass 6 seconds after
that. -/
theorem not_keepsHeard_of_old_peer :
    ¬ KeepsHeard [.addPeer 0 ⟨"127.0.0.1".toList, 8081⟩,
      .receive (seconds 25) ⟨⟨"127.0.0.1".toList, 8081⟩, [72, 105], by decide⟩,
      .healthCheck (seconds 31) ["127.0.0.1:8081".toList]] := by
  intro h
  have htakes : Takes Node.step {} [.addPeer 0 ⟨"127.0.0.1".toList, 8081⟩,
      .receive (seconds 25) ⟨⟨"127.0.0.1".toList, 8081⟩, [72, 105], by decide⟩,
      .healthCheck (seconds 31) ["127.0.0.1:8081".toList]] _
      (.healthCheck (seconds 31) ["127.0.0.1:8081".toList]) :=
    ⟨[_, _], List.prefix_refl _, rfl, rfl⟩
  have hkept := (h _ _ _ _ htakes rfl "127.0.0.1:8081".toList _ rfl
    ⟨seconds 25, by decide, by decide⟩).1
  exact absurd hkept (by decide)

end Mesh
