import LibUdp.Mesh.Network.Basic
import LibUdp.Mesh.Node.Contents

/-!
# What a node hears, and whom it knows

Whatever the network does, a node's table is made by its own calls alone, and its messages are made
of datagrams that were sent to it by nodes that had added it.
-/

namespace Mesh

open Bytes Coroutine Execution Run

/-! ### What a call sends -/

section sends

variable {A : Type} {inetPton : Text → Option A} {ring : Send A → Handling} {s : Send A}
  {buffer : Buffer} {peers : PeerTable}

lemma mem_sends_iff {e : Execution (Effect A) Text} : s ∈ sends e ↔ .send s ∈ e.effects := by
  rw [sends, List.mem_filterMap]
  constructor
  · rintro ⟨effect, hmem, heffect⟩
    cases effect with
    | send s' =>
      cases heffect
      exact hmem
    | dispatch event => cases heffect
  · intro hmem
    exact ⟨.send s, hmem, rfl⟩

lemma send_mem_effects_sendAsync {address : Text} {port : UInt16} {n : Int32}
    (h : .send s ∈ (sendAsync inetPton ring address port buffer n).effects) :
    ∃ ip, inetPton address = some ip ∧ s = ⟨ip, port, buffer, iovLen n⟩ := by
  rw [sendAsync, effects_terminating] at h
  cases hip : inetPton address with
  | none =>
    rw [hip] at h
    cases h
  | some ip =>
    rw [hip] at h
    refine ⟨ip, rfl, ?_⟩
    cases hring : ring ⟨ip, port, buffer, iovLen n⟩ <;>
      simp_all [throws, emit, andThen, terminates]

/-- The send is of the buffer, to an active entry of the table. -/
def ToEntry (inetPton : Text → Option A) (peers : PeerTable) (buffer : Buffer) (s : Send A) :
    Prop :=
  ∃ id peer, peers.lookup id = some peer ∧
    ∃ ip, inetPton peer.endpoint.address = some ip ∧
      s = ⟨ip, peer.endpoint.port, buffer, iovLen (.ofNat buffer.length)⟩

lemma toEntry_of_mem_submitToPeer {endpoint : Endpoint}
    (h : s ∈ sends (submitToPeer inetPton ring endpoint buffer peers)) :
    ToEntry inetPton peers buffer s := by
  rw [mem_sends_iff, submitToPeer, List.mem_flatMap] at h
  obtain ⟨call, hcall, hsend⟩ := h
  obtain ⟨ip, hip, rfl⟩ := send_mem_effects_sendAsync hsend
  rw [sendToPeer] at hcall
  split at hcall
  · cases hcall
  · next peer hpeer =>
    split_ifs at hcall
    · rw [effects_swallowing] at hcall
      obtain rfl := List.mem_singleton.mp hcall
      exact ⟨_, peer, hpeer, ip, hip, rfl⟩
    · cases hcall

lemma toEntry_of_mem_broadcast {order : List Text}
    (h : s ∈ sends (broadcast inetPton ring buffer order peers)) :
    ToEntry inetPton peers buffer s := by
  rw [mem_sends_iff, broadcast, effects_swallowing] at h
  obtain ⟨id, -, hsend⟩ := exists_mem_effects h
  rw [sendToEntry] at hsend
  split at hsend
  · cases hsend
  · next peer hpeer =>
    split_ifs at hsend
    · obtain ⟨ip, hip, rfl⟩ := send_mem_effects_sendAsync hsend
      exact ⟨id, peer, hpeer, ip, hip, rfl⟩
    · cases hsend

end sends

/-! ### A node among its own calls -/

/-- The event carries no message. -/
def Event.isQuiet (event : Event) : Bool := event.data?.isNone

lemma messages_append (events events' : List Event) :
    messages (events ++ events') = messages events ++ messages events' := List.filterMap_append

lemma messages_of_isQuiet {events : List Event} (h : ∀ event ∈ events, event.isQuiet) :
    messages events = [] :=
  List.filterMap_eq_nil_iff.mpr fun event hevent => Option.isNone_iff_eq_none.mp (h event hevent)

lemma isQuiet_addPeer (now : Time) (endpoint : Endpoint) (peers : PeerTable) :
    ∀ event ∈ (addPeer now endpoint peers).2, event.isQuiet := by
  by_cases hmem : endpoint.toPeerId ∈ peers
  · rw [addPeer_of_mem hmem]
    exact List.forall_mem_nil _
  · rw [addPeer_of_not_mem hmem, List.forall_mem_singleton]
    rfl

lemma isQuiet_checkPeers {order : List Text} (hnodup : order.Nodup) (now : Time)
    (peers : PeerTable) : ∀ event ∈ (checkPeers now order peers).2, event.isQuiet := by
  intro event hevent
  rw [events_checkPeers hnodup] at hevent
  obtain ⟨id, -, rfl⟩ := List.mem_map.mp hevent
  rfl

/-- The node as it would be if it had received nothing. -/
structure Node.Unheard (node node' : Node) : Prop where
  peers : node.peers = node'.peers
  events : node.events = node'.events.filter Event.isQuiet
  clock : node.clock ≤ node'.clock

namespace Node.Unheard

variable {node node' node₁ : Node} {op : Operation}

/-- An operation on the table does not depend on what was received. -/
lemma step (h : node.Unheard node') (hstep : node'.step op = some node₁)
    (hop : ∀ now d, op ≠ .receive now d) :
    ∃ node₂, node.step op = some node₂ ∧ node₂.Unheard node₁ := by
  cases Node.steps_of_step hstep with
  | @addPeer now endpoint hclock =>
    refine ⟨_, if_pos (h.clock.trans hclock), ?_, ?_, le_rfl⟩
    · rw [Node.update, Node.update, h.peers]
    · rw [Node.update, Node.update, List.filter_append, ← h.events, ← h.peers,
        List.filter_eq_self.mpr (isQuiet_addPeer now endpoint node.peers)]
  | receive d _ => exact absurd rfl (hop _ d)
  | @healthCheck now order hclock horder =>
    rw [← h.peers] at horder
    refine ⟨_, (if_pos (h.clock.trans hclock)).trans (if_pos horder), ?_, ?_, le_rfl⟩
    · rw [Node.update, Node.update, h.peers]
    · rw [Node.update, Node.update, List.filter_append, ← h.events, ← h.peers,
        List.filter_eq_self.mpr (isQuiet_checkPeers horder.1 now node.peers)]

lemma message (h : node.Unheard node') {data : Buffer}
    (hpeers : node₁.peers = node'.peers)
    (hevents : node₁.events = node'.events ++ [.messageReceived data []])
    (hclock : node'.clock ≤ node₁.clock) : node.Unheard node₁ where
  peers := h.peers.trans hpeers.symm
  events := by
    rw [hevents, List.filter_append, h.events]
    exact (List.append_nil _).symm
  clock := h.clock.trans hclock

end Node.Unheard

namespace Network

variable {ι A : Type} [DecidableEq ι] {a : Action ι A} {run : List (Action ι A)}
  {inetPton : Text → Option A}

/-- The calls of the node `i` that work on its own table. -/
def ownCalls (i : ι) (run : List (Action ι A)) : List Operation := run.filterMap (Action.ownCall i)

lemma ownCalls_concat (i : ι) (run : List (Action ι A)) (a : Action ι A) :
    ownCalls i (run ++ [a]) = ownCalls i run ++ (a.ownCall i).toList :=
  filterMap_concat _ run a

lemma ownCall_ne_receive {i : ι} {op : Operation} (h : a.ownCall i = some op) (now : Time)
    (d : Datagram) : op ≠ .receive now d := by
  rintro rfl
  cases a with
  | addPeer j now' endpoint =>
    rw [Action.ownCall, Option.ite_none_right_eq_some] at h
    cases h.2
  | healthCheck j now' order =>
    rw [Action.ownCall, Option.ite_none_right_eq_some] at h
    cases h.2
  | _ => cases h

lemma forall_update {nodes : ι → Node} {node : Node} {j : ι} {P : ι → Node → Prop}
    (hself : P j node) (hother : ∀ i, i ≠ j → P i (nodes i)) (i : ι) :
    P i (Function.update nodes j node i) := by
  by_cases hij : i = j
  · subst hij
    rwa [Function.update_self]
  · rw [Function.update_of_ne hij]
    exact hother i hij

/-! ### What a node receives -/

/-- The datagrams that the node `i` receives, in their order. -/
def receipts (i : ι) (run : List (Action ι A)) : List (Send A) := run.filterMap (Action.receipt i)

lemma receipts_concat (i : ι) (run : List (Action ι A)) (a : Action ι A) :
    receipts i (run ++ [a]) = receipts i run ++ (a.receipt i).toList :=
  filterMap_concat _ run a

lemma receipts_of_none {i : ι} (ha : a.receipt i = none) :
    receipts i (run ++ [a]) = receipts i run :=
  filterMap_concat_of_none ha run

lemma receipt_of_ownCall {i : ι} {op : Operation} (h : a.ownCall i = some op) (j : ι) :
    a.receipt j = none := by
  cases a with
  | receive => cases h
  | _ => rfl

/-- What the node `i` has in its buffer after the run, if it does not write to it otherwise. -/
def heard (i : ι) (run : List (Action ι A)) : Buffer :=
  contents maxPacket ((receipts i run).map Send.wire)

lemma heard_receive {i : ι} {now : Time} {source : Endpoint} {s : Send A}
    (h : ∀ s ∈ receipts i run, s.length ≤ maxPacket) (hlength : s.length ≤ maxPacket) :
    heard i (run ++ [.receive i now source s]) = overwrite (heard i run) s.wire := by
  have hlengths : ∀ bytes ∈ (receipts i run).map Send.wire, bytes.length ≤ maxPacket := by
    intro bytes hbytes
    obtain ⟨s', hs', rfl⟩ := List.mem_map.mp hbytes
    exact s'.length_wire_le (h s' hs')
  have hself : (Action.receive i now source s).receipt i = some s := if_pos rfl
  rw [heard, receipts_concat, hself, Option.toList_some, List.map_append, List.map_singleton,
    contents_concat hlengths (s.length_wire_le hlength)]
  rfl

/-- The buffer and the messages of the node `i` show what it received, up to now or before. -/
structure Hears (run : List (Action ι A)) (i : ι) (node : Node) : Prop where
  buffer : node.buffer = heard i run
  messages : ∀ data ∈ messages node.events, ∃ pre, pre <+: run ∧ data = heard i pre

namespace Hears

variable {i : ι} {node node' : Node}

/-- The node does not receive a datagram, and dispatches no message. -/
lemma quiet (h : Hears run i node) (ha : a.receipt i = none) (hbuffer : node'.buffer = node.buffer)
    (hmessages : Mesh.messages node'.events = Mesh.messages node.events) :
    Hears (run ++ [a]) i node' where
  buffer := by
    rw [hbuffer, h.buffer, heard, heard, receipts_of_none ha]
  messages data hdata := by
    rw [hmessages] at hdata
    obtain ⟨pre, hpre, hdata⟩ := h.messages data hdata
    exact ⟨pre, hpre.trans (List.prefix_append run [a]), hdata⟩

/-- The node dispatches a message with its buffer. -/
lemma message (h : Hears run i node) (hbuffer : node'.buffer = heard i (run ++ [a]))
    (hevents : node'.events = node.events ++ [.messageReceived node'.buffer []]) :
    Hears (run ++ [a]) i node' where
  buffer := hbuffer
  messages := by
    have hlast : Mesh.messages [.messageReceived node'.buffer []] = [node'.buffer] := rfl
    rw [hevents, messages_append, hlast, List.forall_mem_append, List.forall_mem_singleton]
    refine ⟨fun data hdata => ?_, run ++ [a], List.prefix_rfl, hbuffer⟩
    obtain ⟨pre, hpre, hdata⟩ := h.messages data hdata
    exact ⟨pre, hpre.trans (List.prefix_append run [a]), hdata⟩

/-- An operation on the table. -/
lemma operate {op : Operation} (h : Hears run i node) (hcall : a.ownCall i = some op)
    (hstep : node.step op = some node') : Hears (run ++ [a]) i node' := by
  have hreceipt := receipt_of_ownCall hcall i
  cases Node.steps_of_step hstep with
  | addPeer endpoint hclock =>
    refine h.quiet hreceipt rfl ?_
    rw [Node.update, messages_append, messages_of_isQuiet (isQuiet_addPeer _ _ _), List.append_nil]
  | receive d _ => exact absurd rfl (ownCall_ne_receive hcall _ d)
  | healthCheck hclock horder =>
    refine h.quiet hreceipt rfl ?_
    rw [Node.update, messages_append, messages_of_isQuiet (isQuiet_checkPeers horder.1 _ _),
      List.append_nil]

end Hears

/-! ### Where datagrams come from -/

/-- The action is a call of the node `i` that sends the buffer. -/
def Action.Sends (i : ι) (buffer : Buffer) : Action ι A → Prop
  | .sendToPeer i' _ _ buffer' => i' = i ∧ buffer' = buffer
  | .broadcast i' _ _ buffer'  => i' = i ∧ buffer' = buffer
  | _                          => False

/-- The send belongs to a call of a node to which an endpoint with its address and port has been
added by then, and has not been removed since. -/
def SentIn (inetPton : Text → Option A) (run : List (Action ι A)) (s : Send A) : Prop :=
  ∃ pre a i e, pre ++ [a] <+: run ∧ a.Sends i s.data ∧ s.length = iovLen (.ofNat s.data.length) ∧
    Present (ownCalls i pre) e ∧ inetPton e.address = some s.address ∧ e.port = s.port

lemma SentIn.mono {run' : List (Action ι A)} {s : Send A} (h : SentIn inetPton run s)
    (hrun : run <+: run') : SentIn inetPton run' s := by
  obtain ⟨pre, a, i, e, hpre, hsent⟩ := h
  exact ⟨pre, a, i, e, hpre.trans hrun, hsent⟩

/-- Everything under way has been sent, everything received has been under way, and the nodes show
what they received. -/
structure Traced (inetPton : Text → Option A) (isBound : ι → A → UInt16 → Bool)
    (run : List (Action ι A)) (net : Network ι A) : Prop where
  inFlight : ∀ s ∈ net.inFlight, SentIn inetPton run s
  receipts : ∀ i, ∀ s ∈ receipts i run,
    s.length ≤ maxPacket ∧ isBound i s.address s.port ∧ SentIn inetPton run s
  hears : ∀ i, Hears run i (net.nodes i)

/-- A step in which no node receives a datagram. -/
lemma Traced.concat {isBound : ι → A → UInt16 → Bool} {net net' : Network ι A}
    (h : Traced inetPton isBound run net) (hnone : ∀ i, a.receipt i = none)
    (hflight : ∀ s ∈ net'.inFlight, SentIn inetPton (run ++ [a]) s)
    (hhears : ∀ i, Hears (run ++ [a]) i (net'.nodes i)) :
    Traced inetPton isBound (run ++ [a]) net' where
  inFlight := hflight
  receipts i s hs := by
    rw [receipts_of_none (hnone i)] at hs
    obtain ⟨hlength, hbound, hsent⟩ := h.receipts i s hs
    exact ⟨hlength, hbound, hsent.mono (List.prefix_append run [a])⟩
  hears := hhears

lemma traced_init {isBound : ι → A → UInt16 → Bool} : Traced inetPton isBound [] {} where
  inFlight _ h := by cases h
  receipts _ _ h := by cases h
  hears _ := ⟨(contents_nil maxPacket).symm, List.forall_mem_nil _⟩

/-! ### Runs -/

variable [DecidableEq A] {asserts : Bool} {isBound : ι → A → UInt16 → Bool}
  {net net' : Network ι A}

/-- What a step does to a node that has made some calls, it does when the node has received nothing,
too. -/
lemma unheard_step {owns : ι → Node} (h : ∀ i, (owns i).Unheard (net.nodes i))
    (hstep : net.step asserts inetPton isBound a = some net') (i : ι) :
    ∃ node', exec Node.step (owns i) (a.ownCall i).toList = some node' ∧
      node'.Unheard (net'.nodes i) := by
  cases steps_of_step hstep with
  | @operate _ j op node₁ hcall hop =>
    rw [hcall i]
    by_cases hij : j = i
    · subst hij
      have hself := hcall j
      rw [if_pos rfl] at hself
      obtain ⟨node₂, hnode₂, hunheard⟩ := (h j).step hop (ownCall_ne_receive hself)
      dsimp only
      rw [if_pos rfl, Function.update_self]
      refine ⟨node₂, ?_, hunheard⟩
      rw [Option.toList_some, exec_cons, hnode₂]
      rfl
    · dsimp only
      rw [if_neg hij, Function.update_of_ne (Ne.symm hij)]
      exact ⟨owns i, rfl, h i⟩
  | transmit hsending =>
    have hcall : a.ownCall i = none := by cases hsending <;> rfl
    rw [hcall]
    exact ⟨owns i, rfl, h i⟩
  | @receive j now source s node₁ hlength hmem hbound hreceive =>
    refine ⟨owns i, rfl, forall_update (P := fun i => (owns i).Unheard) ?_ (fun i _ => h i) i⟩
    cases Node.steps_of_step hreceive with
    | receive _ hclock => exact (h j).message rfl rfl hclock
  | receiveError j res hres =>
    refine ⟨owns i, rfl, forall_update (P := fun i => (owns i).Unheard) ?_ (fun i _ => h i) i⟩
    exact (h j).message rfl rfl le_rfl
  | other hcall _ hnodes _ =>
    rw [hcall i, hnodes]
    exact ⟨owns i, rfl, h i⟩

lemma exists_unheard (h : exec (step asserts inetPton isBound) {} run = some net) (i : ι) :
    ∃ node, exec Node.step {} (ownCalls i run) = some node ∧ node.Unheard (net.nodes i) := by
  induction run using List.reverseRecOn generalizing net i with
  | nil =>
    cases h
    exact ⟨{}, rfl, rfl, rfl, le_rfl⟩
  | append_singleton run a ih =>
    obtain ⟨net₁, hexec, hstep⟩ := exec_concat_eq_some_iff.mp h
    choose owns howns hunheard using fun i => ih hexec i
    obtain ⟨node, hnode, hnode'⟩ := unheard_step hunheard hstep i
    refine ⟨node, ?_, hnode'⟩
    rw [ownCalls_concat, exec_append, howns i]
    exact hnode

/-- A node of the network has the table, and all events but the messages, that its own calls of
`add_peer` and its own passes give a node that receives nothing. So no node learns of a peer from
what it receives or sends. -/
theorem exists_own_run (h : exec (step asserts inetPton isBound) {} run = some net) (i : ι) :
    ∃ node, exec Node.step {} (ownCalls i run) = some node ∧
      node.peers = (net.nodes i).peers ∧
      node.events = (net.nodes i).events.filter Event.isQuiet := by
  obtain ⟨node, hexec, hunheard⟩ := exists_unheard h i
  exact ⟨node, hexec, hunheard.peers, hunheard.events⟩

/-- A node adds another one and sends it two bytes, which arrive. -/
def hiRun : List (Action Bool (List ℕ)) :=
  [.addPeer false 0 ⟨"127.0.0.1".toList, 8081⟩,
    .sendToPeer false (fun _ => .completed) ⟨"127.0.0.1".toList, 8081⟩ [72, 105],
    .receive true 1 ⟨"127.0.0.1".toList, 8080⟩ ⟨[127, 0, 0, 1], 8081, [72, 105], 2⟩]

/-- The first node has port 8080 and the second one 8081. -/
def localPorts (i : Bool) (ip : List ℕ) (port : UInt16) : Bool :=
  ip == [127, 0, 0, 1] && port == if i then 8081 else 8080

lemma exists_exec_hiRun : ∃ net, exec (step true dottedQuad localPorts) {} hiRun = some net :=
  ⟨_, rfl⟩

theorem exists_own_run_hi : ∃ net, exec (step true dottedQuad localPorts) {} hiRun = some net ∧
    ∃ node, exec Node.step {} (ownCalls false hiRun) = some node ∧
      node.peers = (net.nodes false).peers ∧
      node.events = (net.nodes false).events.filter Event.isQuiet := by
  obtain ⟨net, hexec⟩ := exists_exec_hiRun
  exact ⟨net, hexec, exists_own_run hexec false⟩

/-- What a node is sent, it is sent by a call of a node that has the endpoint in its table. -/
lemma sentIn_of_sending {pre : List (Action ι A)} {i : ι} {buffer : Buffer}
    {e : Execution (Effect A) Text} {s : Send A}
    (hexec : exec (step asserts inetPton isBound) {} pre = some net)
    (hrun : pre ++ [a] <+: run) (hsending : Sending inetPton net a i buffer e)
    (hs : s ∈ sends e) : SentIn inetPton run s := by
  obtain ⟨node, hnode, hunheard⟩ := exists_unheard hexec i
  have hentry : ToEntry inetPton (net.nodes i).peers buffer s := by
    cases hsending with
    | sendToPeer => exact toEntry_of_mem_submitToPeer hs
    | broadcast => exact toEntry_of_mem_broadcast hs
  obtain ⟨id, peer, hpeer, ip, hip, rfl⟩ := hentry
  rw [← hunheard.peers] at hpeer
  have hconsistent : Consistent node := Consistent.visits ⟨_, List.prefix_rfl, hnode⟩
  have hmem : peer.endpoint.toPeerId ∈ node.peers := by
    rw [(hconsistent.entry hpeer).2]
    exact Finmap.mem_of_lookup_eq_some hpeer
  refine ⟨pre, a, i, peer.endpoint, hrun, ?_, rfl, (mem_peers_iff_present hnode).mp hmem, hip, rfl⟩
  cases hsending <;> exact ⟨rfl, rfl⟩

/-- What a run makes of the network, step by step. -/
lemma Traced.step (h : Traced inetPton isBound run net)
    (hexec : exec (step asserts inetPton isBound) {} run = some net)
    (hstep : net.step asserts inetPton isBound a = some net') :
    Traced inetPton isBound (run ++ [a]) net' := by
  have hflight : ∀ s ∈ net.inFlight, SentIn inetPton (run ++ [a]) s :=
    fun s hs => (h.inFlight s hs).mono (List.prefix_append run [a])
  cases steps_of_step hstep with
  | @operate _ j op node hcall hop =>
    have hself := hcall j
    rw [if_pos rfl] at hself
    have hnone := receipt_of_ownCall hself
    exact h.concat hnone hflight
      (forall_update ((h.hears j).operate hself hop) fun i _ => (h.hears i).quiet (hnone i) rfl rfl)
  | @transmit _ j buffer e hsending =>
    have hnone : ∀ i, a.receipt i = none := fun i => by cases hsending <;> rfl
    refine h.concat hnone ?_ fun i => (h.hears i).quiet (hnone i) rfl rfl
    rw [transmit, List.forall_mem_append]
    exact ⟨hflight, fun s hs => sentIn_of_sending hexec List.prefix_rfl hsending hs⟩
  | @receive j now source s node hlength hmem hbound hreceive =>
    have hother : ∀ i, i ≠ j → (Action.receive j now source s).receipt i = none :=
      fun i hij => if_neg (Ne.symm hij)
    refine ⟨fun s' hs' => hflight s' (List.erase_subset hs'), fun i s' hs' => ?_,
      forall_update ?_ fun i hij => (h.hears i).quiet (hother i hij) rfl rfl⟩
    · rw [receipts_concat, List.mem_append, Option.mem_toList] at hs'
      rcases hs' with hs' | hs'
      · obtain ⟨hlength, hbound, hsent⟩ := h.receipts i s' hs'
        exact ⟨hlength, hbound, hsent.mono (List.prefix_append run _)⟩
      · obtain ⟨rfl, heq⟩ := Option.ite_none_right_eq_some.mp hs'
        cases heq
        exact ⟨hlength, hbound, hflight s hmem⟩
    · cases Node.steps_of_step hreceive with
      | receive _ _ =>
        refine (h.hears j).message ?_ rfl
        rw [heard_receive (fun s hs => (h.receipts j s hs).1) hlength, ← (h.hears j).buffer]
        rfl
  | receiveError j res hres =>
    refine h.concat (fun _ => rfl) hflight
      (forall_update ((h.hears j).message ?_ rfl) fun i _ => (h.hears i).quiet rfl rfl rfl)
    rw [heard, receipts_of_none rfl]
    exact (h.hears j).buffer
  | other hcall hreceipt hnodes hsubset =>
    refine h.concat hreceipt (fun s hs => hflight s (hsubset hs)) fun i => ?_
    rw [hnodes]
    exact (h.hears i).quiet (hreceipt i) rfl rfl

lemma traced (h : exec (step asserts inetPton isBound) {} run = some net) :
    Traced inetPton isBound run net := by
  induction run using List.reverseRecOn generalizing net with
  | nil =>
    cases h
    exact traced_init
  | append_singleton run a ih =>
    obtain ⟨net₁, hexec, hstep⟩ := exec_concat_eq_some_iff.mp h
    exact (ih hexec).step hexec hstep

/-- In every run, each message that a node dispatches shows what the node had received by then, each
datagram on top of what the ones before it left in the buffer. All of these can reach the node, and
were sent by a call of a node that had added the endpoint and had not removed it since. -/
theorem messages_heard (h : exec (step asserts inetPton isBound) {} run = some net) (i : ι) :
    (∀ data ∈ messages (net.nodes i).events, ∃ pre, pre <+: run ∧ data = heard i pre) ∧
      ∀ s ∈ receipts i run, isBound i s.address s.port ∧ SentIn inetPton run s :=
  ⟨((traced h).hears i).messages, fun s hs => ((traced h).receipts i s hs).2⟩

theorem messages_heard_hi : ∃ net, exec (step true dottedQuad localPorts) {} hiRun = some net ∧
    (∀ data ∈ messages (net.nodes true).events, ∃ pre, pre <+: hiRun ∧ data = heard true pre) ∧
      ∀ s ∈ receipts true hiRun, localPorts true s.address s.port ∧
        SentIn dottedQuad hiRun s := by
  obtain ⟨net, hexec⟩ := exists_exec_hiRun
  exact ⟨net, hexec, messages_heard hexec true⟩

end Network

end Mesh
