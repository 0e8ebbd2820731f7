import LibUdp.Mesh.Node.Broadcast
import Mathlib.Data.List.Forall2

/-!
# Reporting failures

The loops of a node put what their `try` blocks throw into `error_message`, and dispatch that as
an unhealthy `Network_state_changed` event. In two of the three loops the message is declared in
front of the loop and never cleared, so it is dispatched in every iteration that follows.
-/

namespace Mesh

/-- The status of an event that says that the network is not healthy. -/
def Event.unhealthy? : Event → Option Text
  | .networkStateChanged false status => some status
  | _ => none

/-- The statuses of the unhealthy events among the events. -/
def unhealthy (events : List Event) : List Text := events.filterMap Event.unhealthy?

/-- The `try` block of a loop in one iteration: the events it dispatches, none of which is an
unhealthy one, and `e.what()` where it throws. -/
structure TryBlock where
  events    : List Event
  exception : Option Text
  quiet     : unhealthy events = []

namespace TryBlock

def Throws (body : TryBlock) : Prop := body.exception.isSome

instance (body : TryBlock) : Decidable body.Throws :=
  inferInstanceAs (Decidable (body.exception.isSome = true))

/-- `error_message` behind the `catch` block. -/
def catchBlock (label errorMessage : Text) (body : TryBlock) : Text :=
  match body.exception with
  | some what => label ++ what
  | none      => errorMessage

end TryBlock

namespace Reporting

/-- `if (!error_message.empty()) { .. }`. -/
def notify (errorMessage : Text) : List Event :=
  if errorMessage.isEmpty then [] else [.networkStateChanged false errorMessage]

/-- A loop with `error_message` in front of it, as the events of each of its iterations. -/
def carryingLoop (label : Text) (rest : List Event) (errorMessage : Text) :
    List TryBlock → List (List Event)
  | []             => []
  | body :: bodies =>
    let errorMessage := body.catchBlock label errorMessage
    (body.events ++ notify errorMessage ++ rest) :: carryingLoop label rest errorMessage bodies

/-- `Node::receive_loop`. -/
def receiveLoop : List TryBlock → List (List Event) :=
  carryingLoop "Receive error: ".toList [] []

/-- `Node::health_check_loop`. -/
def healthCheckLoop : List TryBlock → List (List Event) :=
  carryingLoop "Health check error: ".toList [.sleepFor (seconds 5)] []

/-- `Node::discovery_loop`, which has `error_message` in the loop. -/
def discoveryLoop (bodies : List TryBlock) : List (List Event) :=
  bodies.map fun body =>
    let errorMessage := body.catchBlock "Discovery error: ".toList []
    body.events ++ notify errorMessage ++ [.sleepFor (seconds 30)]

/-- The iteration dispatches an unhealthy event just when its own `try` block throws, and the event
says what was thrown. -/
def Reports (label : Text) (body : TryBlock) (events : List Event) : Prop :=
  unhealthy events = (body.exception.map (label ++ ·)).toList

/-- Each iteration of the loop reports its own failure. -/
def ReportsEach (label : Text) (loop : List TryBlock → List (List Event))
    (bodies : List TryBlock) : Prop :=
  List.Forall₂ (Reports label) bodies (loop bodies)

/-- After an iteration that throws all others throw as well. -/
def NeverRecovers (bodies : List TryBlock) : Prop :=
  bodies.Pairwise fun body later => body.Throws → later.Throws

/-! ### One iteration -/

variable {label errorMessage : Text} {rest : List Event} {body : TryBlock}
  {bodies : List TryBlock}

lemma unhealthy_append (events events' : List Event) :
    unhealthy (events ++ events') = unhealthy events ++ unhealthy events' :=
  List.filterMap_append

lemma unhealthy_notify (errorMessage : Text) :
    unhealthy (notify errorMessage) = if errorMessage = [] then [] else [errorMessage] := by
  cases errorMessage <;> rfl

/-- What an iteration dispatches is the message it has behind the `catch` block. -/
lemma unhealthy_iteration (hrest : unhealthy rest = []) (body : TryBlock) (errorMessage : Text) :
    unhealthy (body.events ++ notify errorMessage ++ rest) =
      if errorMessage = [] then [] else [errorMessage] := by
  rw [unhealthy_append, unhealthy_append, body.quiet, hrest, unhealthy_notify, List.nil_append,
    List.append_nil]

lemma catchBlock_of_throws (hlabel : label ≠ []) (h : body.Throws) (errorMessage : Text) :
    body.catchBlock label errorMessage ≠ [] ∧
      (body.exception.map (label ++ ·)).toList = [body.catchBlock label errorMessage] := by
  obtain ⟨what, hwhat⟩ := Option.isSome_iff_exists.mp h
  simp [TryBlock.catchBlock, hwhat, hlabel]

lemma catchBlock_of_not_throws (label : Text) (h : ¬ body.Throws) (errorMessage : Text) :
    body.catchBlock label errorMessage = errorMessage ∧
      (body.exception.map (label ++ ·)).toList = [] := by
  have hnone : body.exception = none := Option.not_isSome_iff_eq_none.mp h
  simp [TryBlock.catchBlock, hnone]

/-- An iteration reports its failure unless it completes with a message that is left over. -/
lemma reports_iff (hlabel : label ≠ []) (hrest : unhealthy rest = []) :
    Reports label body (body.events ++ notify (body.catchBlock label errorMessage) ++ rest) ↔
      (errorMessage ≠ [] → body.Throws) := by
  rw [Reports, unhealthy_iteration hrest]
  by_cases h : body.Throws
  · obtain ⟨hne, hstatus⟩ := catchBlock_of_throws hlabel h errorMessage
    simp [h, hne, hstatus]
  · obtain ⟨heq, hstatus⟩ := catchBlock_of_not_throws label h errorMessage
    simp [h, heq, hstatus]

/-! ### The `try` blocks of the loops -/

section blocks

open Bytes Coroutine Execution

/-- The blocks of `receive_loop` that the process lives to see the end of. -/
def receiveBlocks (asserts : Bool) (buffer : Buffer) : List Reception → List TryBlock
  | []                      => []
  | reception :: receptions =>
    if reception.aborts asserts then []
    else
      let buffer := reception.write buffer
      ⟨[.messageReceived buffer []], none, rfl⟩ :: receiveBlocks asserts buffer receptions

/-- As long as nothing is thrown the loop dispatches messages only. -/
lemma flatten_receiveLoop (asserts : Bool) (buffer : Buffer) (receptions : List Reception) :
    (receiveLoop (receiveBlocks asserts buffer receptions)).flatten =
      Mesh.receiveLoop asserts buffer receptions := by
  induction receptions generalizing buffer with
  | nil => rfl
  | cons reception receptions ih =>
    rw [receiveBlocks, Mesh.receiveLoop]
    split_ifs
    · rfl
    · exact congrArg _ (ih (reception.write buffer))

lemma unhealthy_checkPeers (now : Time) (order : List Text) (peers : PeerTable) :
    unhealthy (checkPeers now order peers).2 = [] := by
  induction order generalizing peers with
  | nil => rfl
  | cons id order ih =>
    rw [checkPeers, unhealthy_append, ih, List.append_nil, checkPeer]
    cases peers.lookup id with
    | none => rfl
    | some peer =>
      dsimp only
      split_ifs <;> rfl

/-- The block of `health_check_loop` around a pass that throws nothing. -/
def passBlock (now : Time) (order : List Text) (peers : PeerTable) : TryBlock :=
  ⟨(checkPeers now order peers).2, none, unhealthy_checkPeers now order peers⟩

lemma events_of_healthCheck {node node' : Node} {now : Time} {order : List Text}
    (h : node.step (.healthCheck now order) = some node') :
    node'.events = node.events ++ (passBlock now order node.peers).events := by
  cases Node.steps_of_step h with
  | healthCheck _ _ => rfl

variable {A : Type} {inetPton : Text → Option A} {ring : Send A → Handling} {buffer : Buffer}
  {order : List Text} {peers : PeerTable}

/-- The event that is dispatched, unless something is sent. -/
def Effect.event? : Effect A → Option Event
  | .send _         => none
  | .dispatch event => some event

lemma filterMap_sendToEntry (id : Text) :
    (sendToEntry inetPton ring buffer peers id).effects.filterMap Effect.event? = [] := by
  rw [sendToEntry]
  cases peers.lookup id with
  | none => rfl
  | some peer =>
    dsimp only
    split_ifs
    · rw [sendAsync]
      cases inetPton peer.endpoint.address with
      | none => rfl
      | some ip =>
        dsimp only
        cases ring ⟨ip, peer.endpoint.port, buffer, iovLen (.ofNat buffer.length)⟩ <;> rfl
    · rfl

/-- The block of `discovery_loop` dispatches nothing when the broadcast survives. -/
lemma filterMap_discoveryIteration
    (h : (broadcast inetPton ring [68, 73, 83, 67] order peers).outcome ≠ .terminated) :
    (discoveryIteration inetPton ring order peers).effects.filterMap Effect.event? =
      (discoveryLoop [⟨[], none, rfl⟩]).flatten := by
  have heffects : (discoveryIteration inetPton ring order peers).effects =
      (order.flatMap fun id => (sendToEntry inetPton ring [68, 73, 83, 67] peers id).effects) ++
        [.dispatch (.sleepFor (seconds 30))] := by
    rw [discoveryIteration, broadcast_of_returned (returned_of_survives h)]
    rfl
  have hsends : (order.flatMap fun id =>
      (sendToEntry inetPton ring [68, 73, 83, 67] peers id).effects).filterMap Effect.event? =
        [] := by
    rw [List.filterMap_flatMap, List.flatMap_eq_nil_iff]
    exact fun id _ => filterMap_sendToEntry id
  rw [heffects, List.filterMap_append, hsends]
  rfl

end blocks

/-! ### The loops -/

lemma reportsEach_cons_iff (hlabel : label ≠ []) (hrest : unhealthy rest = []) :
    ReportsEach label (carryingLoop label rest errorMessage) (body :: bodies) ↔
      (errorMessage ≠ [] → body.Throws) ∧
        ReportsEach label (carryingLoop label rest (body.catchBlock label errorMessage)) bodies := by
  rw [ReportsEach, carryingLoop, List.forall₂_cons, reports_iff hlabel hrest, ReportsEach]

lemma neverRecovers_cons :
    NeverRecovers (body :: bodies) ↔
      (∀ later ∈ bodies, body.Throws → later.Throws) ∧ NeverRecovers bodies :=
  List.pairwise_cons

/-- The message is never cleared, so once it is there every iteration has to throw. -/
lemma reportsEach_carryingLoop_iff (hlabel : label ≠ []) (hrest : unhealthy rest = []) :
    ReportsEach label (carryingLoop label rest errorMessage) bodies ↔
      (errorMessage ≠ [] → ∀ body ∈ bodies, body.Throws) ∧ NeverRecovers bodies := by
  induction bodies generalizing errorMessage with
  | nil => simp [ReportsEach, carryingLoop, NeverRecovers]
  | cons body bodies ih =>
    rw [reportsEach_cons_iff hlabel hrest, ih, List.forall_mem_cons, neverRecovers_cons]
    by_cases h : body.Throws
    · have hne := (catchBlock_of_throws hlabel h errorMessage).1
      constructor
      · rintro ⟨-, hall, hnever⟩
        exact ⟨fun _ => ⟨h, hall hne⟩, fun later hlater _ => hall hne later hlater, hnever⟩
      · rintro ⟨-, hall, hnever⟩
        exact ⟨fun _ => h, fun _ later hlater => hall later hlater h, hnever⟩
    · rw [(catchBlock_of_not_throws label h errorMessage).1]
      constructor
      · rintro ⟨hthrows, hall, hnever⟩
        exact ⟨fun hne => absurd (hthrows hne) h, fun _ _ hthrow => absurd hthrow h, hnever⟩
      · rintro ⟨hall, -, hnever⟩
        exact ⟨fun hne => (hall hne).1, fun hne => (hall hne).2, hnever⟩

lemma reportsEach_discoveryLoop (bodies : List TryBlock) :
    ReportsEach "Discovery error: ".toList discoveryLoop bodies := by
  rw [ReportsEach, discoveryLoop, List.forall₂_map_right_iff, List.forall₂_same]
  intro body _
  exact (reports_iff (List.cons_ne_nil _ _) rfl).mpr fun hne => absurd rfl hne

/-- The loops with the message in front of them report their failures one by one just when no
iteration completes after one that has thrown, and the other loop does always. -/
theorem reportsEach_iff (bodies : List TryBlock) :
    (ReportsEach "Receive error: ".toList receiveLoop bodies ↔ NeverRecovers bodies) ∧
      (ReportsEach "Health check error: ".toList healthCheckLoop bodies ↔ NeverRecovers bodies) ∧
      ReportsEach "Discovery error: ".toList discoveryLoop bodies := by
  have hcarrying : ∀ {label : Text} {rest : List Event}, label ≠ [] → unhealthy rest = [] →
      (ReportsEach label (carryingLoop label rest []) bodies ↔ NeverRecovers bodies) := by
    intro label rest hlabel hrest
    rw [reportsEach_carryingLoop_iff hlabel hrest]
    exact and_iff_right fun hne => absurd rfl hne
  refine ⟨?_, ?_, reportsEach_discoveryLoop bodies⟩
  · exact hcarrying (List.cons_ne_nil _ _) rfl
  · exact hcarrying (List.cons_ne_nil _ _) rfl

/-- An iteration that throws, and one that gets a datagram of two bytes and completes. -/
def recovery : List TryBlock :=
  [⟨[], some "std::bad_alloc".toList, rfl⟩,
    ⟨[.messageReceived ([72, 105] ++ List.replicate (maxPacket - 2) 0) []], none, rfl⟩]

/-- An exception in one iteration is reported again in the next. -/
theorem not_reportsEach_of_recovery :
    receiveLoop recovery =
      [[.networkStateChanged false "Receive error: std::bad_alloc".toList],
        [.messageReceived ([72, 105] ++ List.replicate (maxPacket - 2) 0) [],
          .networkStateChanged false "Receive error: std::bad_alloc".toList]] ∧
      ¬ ∀ bodies, ReportsEach "Receive error: ".toList receiveLoop bodies ∧
        ReportsEach "Health check error: ".toList healthCheckLoop bodies ∧
        ReportsEach "Discovery error: ".toList discoveryLoop bodies := by
  refine ⟨rfl, ?_⟩
  intro h
  obtain ⟨hreceive, -, -⟩ := h recovery
  have hsecond := (List.forall₂_cons.mp (List.forall₂_cons.mp hreceive).2).1
  cases hsecond

end Reporting

end Mesh
