import LibUdp.Coroutine.Basic
import LibUdp.Mesh.Node.Peers.Basic
import LibUdp.Text.Numeric
import LibUdp.Udp.Socket.Basic

/-!
# Broadcasting

`Node::broadcast` sends a buffer to all active peers, and `Node::discovery_loop` broadcasts in a
`try` block. `inet_pton` and the way the ring deals with a send are parameters.
-/

namespace Mesh

open Bytes Coroutine Execution

/-- A send operation that is submitted: its address, the data, and `iov_len`. -/
structure Send (A : Type) where
  address : A
  port    : UInt16
  data    : Buffer
  length  : ℕ
  deriving DecidableEq

inductive Effect (A : Type) where
  | send (s : Send A)
  | dispatch (event : Event)
  deriving DecidableEq

/-- What becomes of a send: no submission, a completion that the assertion in `reap` stops the
process at, or any other completion. -/
inductive Handling where
  | refused
  | transient
  | completed
  deriving DecidableEq

variable {A : Type} (inetPton : Text → Option A) (ring : Send A → Handling)

/-- `iov_len`, a `size_t` that is assigned an `int`. -/
def iovLen (n : Int32) : ℕ := (n.toInt % 2 ^ 64).toNat

/-- `Socket::send_async` and the `resume` after it, which runs the task to its end. -/
def sendAsync (address : Text) (port : UInt16) (data : Buffer) (n : Int32) :
    Execution (Effect A) Text :=
  terminating <| match inetPton address with
    | none    => throws "Invalid address".toList
    | some ip =>
      let send : Send A := ⟨ip, port, data, iovLen n⟩
      match ring send with
      | .refused   => throws "Failed to submit SEND operation".toList
      | .transient => (emit (.send send)).andThen terminates
      | .completed => emit (.send send)

/-- An iteration of the loop in `broadcast`. -/
def sendToEntry (buffer : Buffer) (peers : PeerTable) (id : Text) : Execution (Effect A) Text :=
  match peers.lookup id with
  | none      => done
  | some peer =>
    if peer.isActive then
      sendAsync inetPton ring peer.endpoint.address peer.endpoint.port buffer
        (.ofNat buffer.length)
    else done

/-- `Node::broadcast`, with the order in which the iterator goes through the table. -/
def broadcast (buffer : Buffer) (order : List Text) (peers : PeerTable) :
    Execution (Effect A) Text :=
  swallowing (forEach (sendToEntry inetPton ring buffer peers) order)

/-- An iteration of `Node::discovery_loop`. -/
def discoveryIteration (order : List Text) (peers : PeerTable) : Execution (Effect A) Text :=
  let msg : Buffer := [68, 73, 83, 67]
  (tryCatch (broadcast inetPton ring msg order peers) fun what =>
      emit (.dispatch (.networkStateChanged false ("Discovery error: ".toList ++ what)))).andThen
    (emit (.dispatch (.sleepFor (seconds 30))))

/-! ### The length of a send -/

lemma iovLen_ofNat_of_lt {n : ℕ} (h : n < 2 ^ 31) : iovLen (.ofNat n) = n := by
  rw [iovLen, Int32.toInt_ofNat_of_lt h]
  omega

/-- The length of a buffer survives the conversion to `int` just when it fits there. -/
lemma iovLen_ofNat_eq_iff {n : ℕ} (h : n < 2 ^ 63) : iovLen (.ofNat n) = n ↔ n < 2 ^ 31 := by
  refine ⟨fun heq => ?_, iovLen_ofNat_of_lt⟩
  by_contra hle
  have hint := Int32.toInt_lt (.ofNat n)
  have hint' := Int32.le_toInt (.ofNat n)
  rw [iovLen] at heq
  omega

/-! ### What a broadcast should do -/

/-- The send of the whole buffer to an entry that is active and whose address is accepted. -/
def wholeSend (buffer : Buffer) (peers : PeerTable) (id : Text) : Option (Effect A) := do
  let peer ← peers.lookup id
  if peer.isActive then
    let ip ← inetPton peer.endpoint.address
    return .send ⟨ip, peer.endpoint.port, buffer, buffer.length⟩
  else none

/-- Some active peer has an address that `inet_pton` does not accept. -/
def HasBadAddress (peers : PeerTable) : Prop :=
  ∃ id peer, peers.lookup id = some peer ∧ peer.isActive ∧ inetPton peer.endpoint.address = none

/-- A broadcast reaches everyone it can reach, and a bad address is an error for its caller. -/
structure Robust (buffer : Buffer) (order : List Text) (peers : PeerTable) : Prop where
  sends : (broadcast inetPton ring buffer order peers).effects.Perm
    (order.filterMap (wholeSend inetPton buffer peers))
  survives : HasBadAddress inetPton peers →
    (broadcast inetPton ring buffer order peers).outcome ≠ .terminated
  surfaces : HasBadAddress inetPton peers →
    ∃ what, (broadcast inetPton ring buffer order peers).outcome = .threw what
  recovers : HasBadAddress inetPton peers →
    (discoveryIteration inetPton ring order peers).outcome = .returned ∧
      ∃ status, .dispatch (.networkStateChanged false status) ∈
        (discoveryIteration inetPton ring order peers).effects

def HasActive (peers : PeerTable) : Prop :=
  ∃ id peer, peers.lookup id = some peer ∧ peer.isActive

/-- The operation for an entry that is active and whose address is accepted. -/
def sendOf (buffer : Buffer) (peers : PeerTable) (id : Text) : Option (Send A) := do
  let peer ← peers.lookup id
  if peer.isActive then
    let ip ← inetPton peer.endpoint.address
    return ⟨ip, peer.endpoint.port, buffer, iovLen (.ofNat buffer.length)⟩
  else none

/-- The ring takes all sends: it completes those before the last one, and it submits that one. -/
def SubmitsAll (sends : List (Send A)) : Prop :=
  (∀ s ∈ sends.dropLast, ring s = .completed) ∧ ∀ s ∈ sends.getLast?, ring s ≠ .refused

instance (sends : List (Send A)) : Decidable (SubmitsAll ring sends) :=
  inferInstanceAs (Decidable (_ ∧ _))

/-- `send_async` once the address is accepted. -/
def issue (s : Send A) : Execution (Effect A) Text :=
  match ring s with
  | .refused   => terminates
  | .transient => (emit (.send s)).andThen terminates
  | .completed => emit (.send s)

variable {inetPton ring} {buffer : Buffer} {order : List Text} {peers : PeerTable}

lemma sendToEntry_of_active {id : Text} {peer : Peer} (hpeer : peers.lookup id = some peer)
    (hactive : peer.isActive) : sendToEntry inetPton ring buffer peers id =
      sendAsync inetPton ring peer.endpoint.address peer.endpoint.port buffer
        (.ofNat buffer.length) := by
  simp [sendToEntry, hpeer, hactive]

lemma sendToEntry_ne_threw (id : Text) (e : Text) :
    (sendToEntry inetPton ring buffer peers id).outcome ≠ .threw e := by
  rw [sendToEntry]
  cases peers.lookup id with
  | none => simp [done]
  | some peer =>
    dsimp only
    split_ifs
    · exact terminating_ne_threw _ e
    · simp [done]

/-- A broadcast that survives has sent to every entry. -/
lemma returned_of_survives
    (h : (broadcast inetPton ring buffer order peers).outcome ≠ .terminated) :
    ∀ id ∈ order, (sendToEntry inetPton ring buffer peers id).outcome = .returned := by
  by_contra hex
  simp only [not_forall, exists_prop] at hex
  have hterm := forEach_of_terminated (fun id _ => sendToEntry_ne_threw id) hex
  rw [broadcast, swallowing_of_terminated hterm] at h
  exact h hterm

lemma broadcast_of_returned
    (h : ∀ id ∈ order, (sendToEntry inetPton ring buffer peers id).outcome = .returned) :
    broadcast inetPton ring buffer order peers =
      ⟨order.flatMap fun id => (sendToEntry inetPton ring buffer peers id).effects, .returned⟩ := by
  rw [broadcast, forEach_of_returned h, swallowing]

/-- No exception gets out of a broadcast. -/
lemma broadcast_ne_threw (e : Text) :
    (broadcast inetPton ring buffer order peers).outcome ≠ .threw e := by
  rw [broadcast, swallowing]
  split
  · simp
  · next h => exact h e

/-! ### The sends in a row -/

lemma submitsAll_cons {s : Send A} {sends : List (Send A)} : SubmitsAll ring (s :: sends) ↔
    ring s = .completed ∧ SubmitsAll ring sends ∨ ring s = .transient ∧ sends = [] := by
  cases sends with
  | nil => cases h : ring s <;> simp [SubmitsAll, h]
  | cons t sends => simp [SubmitsAll, and_assoc]

lemma prefix_effects_issue (sends : List (Send A)) :
    (forEach (issue ring) sends).effects <+: sends.map .send := by
  induction sends with
  | nil => exact List.prefix_rfl
  | cons s sends ih =>
    rw [forEach, issue, List.map_cons]
    cases ring s with
    | refused => exact List.nil_prefix
    | transient => exact List.prefix_append [_] _
    | completed => exact (List.prefix_cons_inj _).mpr ih

lemma effects_issue_eq_iff (sends : List (Send A)) :
    (forEach (issue ring) sends).effects = sends.map .send ↔ SubmitsAll ring sends := by
  induction sends with
  | nil => simp [forEach, done, SubmitsAll]
  | cons s sends ih =>
    rw [forEach, issue, submitsAll_cons, ← ih]
    cases ring s <;> simp [andThen, emit, terminates]

lemma sendAsync_of_some {address : Text} {port : UInt16} {data : Buffer} {n : Int32} {ip : A}
    (hip : inetPton address = some ip) :
    sendAsync inetPton ring address port data n = issue ring ⟨ip, port, data, iovLen n⟩ := by
  simp only [sendAsync, hip, issue]
  cases ring ⟨ip, port, data, iovLen n⟩ <;> rfl

lemma sendOf_of_active {id : Text} {peer : Peer} {ip : A} (hpeer : peers.lookup id = some peer)
    (hactive : peer.isActive) (hip : inetPton peer.endpoint.address = some ip) :
    sendOf inetPton buffer peers id =
      some ⟨ip, peer.endpoint.port, buffer, iovLen (.ofNat buffer.length)⟩ := by
  simp [sendOf, hpeer, hactive, hip]

/-- Without a bad address an entry is skipped or sent to. -/
lemma sendToEntry_eq (hgood : ¬ HasBadAddress inetPton peers) (id : Text) :
    sendToEntry inetPton ring buffer peers id =
      (sendOf inetPton buffer peers id).elim done (issue ring) := by
  cases hpeer : peers.lookup id with
  | none => simp [sendToEntry, sendOf, hpeer]
  | some peer =>
    cases hactive : peer.isActive with
    | false => simp [sendToEntry, sendOf, hpeer, hactive]
    | true =>
      cases hip : inetPton peer.endpoint.address with
      | none => exact absurd ⟨id, peer, hpeer, hactive, hip⟩ hgood
      | some ip =>
        rw [sendToEntry_of_active hpeer hactive, sendAsync_of_some hip,
          sendOf_of_active hpeer hactive hip]
        rfl

lemma effects_broadcast (hgood : ¬ HasBadAddress inetPton peers) :
    (broadcast inetPton ring buffer order peers).effects =
      (forEach (issue ring) (order.filterMap (sendOf inetPton buffer peers))).effects := by
  rw [broadcast, effects_swallowing]
  congr 1
  induction order with
  | nil => rfl
  | cons id order ih =>
    rw [forEach, ih, sendToEntry_eq hgood, List.filterMap_cons]
    cases sendOf inetPton buffer peers id with
    | none => exact andThen_of_returned rfl
    | some s => rfl

/-- The sends that should be issued are those that are, up to their length. -/
lemma wholeSend_eq (id : Text) : wholeSend inetPton buffer peers id =
    (sendOf inetPton buffer peers id).map fun s => .send { s with length := buffer.length } := by
  rw [wholeSend, sendOf]
  cases peers.lookup id with
  | none => rfl
  | some peer =>
    cases hactive : peer.isActive <;> cases hip : inetPton peer.endpoint.address <;>
      simp [hactive, hip]

lemma filterMap_wholeSend (order : List Text) :
    order.filterMap (wholeSend inetPton buffer peers) =
      (order.filterMap (sendOf inetPton buffer peers)).map
        fun s => .send { s with length := buffer.length } := by
  rw [List.map_filterMap, funext wholeSend_eq]

lemma length_of_sendOf {id : Text} {s : Send A} (h : sendOf inetPton buffer peers id = some s) :
    HasActive peers ∧ s.length = iovLen (.ofNat buffer.length) := by
  simp only [sendOf, Option.bind_eq_bind, Option.bind_eq_some_iff] at h
  obtain ⟨peer, hpeer, h⟩ := h
  split_ifs at h with hactive
  obtain ⟨ip, -, h⟩ := Option.bind_eq_some_iff.mp h
  cases h
  exact ⟨⟨id, peer, hpeer, hactive⟩, rfl⟩

/-- A broadcast is robust just when no active peer has a bad address, the ring takes all sends, and
the length of the buffer survives the conversion to `int`. -/
theorem robust_iff (horder : IsOrder order peers) :
    Robust inetPton ring buffer order peers ↔
      ¬ HasBadAddress inetPton peers ∧
        SubmitsAll ring (order.filterMap (sendOf inetPton buffer peers)) ∧
        (HasActive peers → iovLen (.ofNat buffer.length) = buffer.length) := by
  constructor
  · intro h
    have hgood : ¬ HasBadAddress inetPton peers := fun hbad =>
      let ⟨what, hthrew⟩ := h.surfaces hbad
      broadcast_ne_threw what hthrew
    have hsends := h.sends
    rw [effects_broadcast hgood, filterMap_wholeSend] at hsends
    -- as many sends as there should be are all the sends that there are
    have hall := (prefix_effects_issue _).eq_of_length
      (hsends.length_eq.trans ((List.length_map _).trans (List.length_map _).symm))
    refine ⟨hgood, (effects_issue_eq_iff _).mp hall, ?_⟩
    rintro ⟨id, peer, hpeer, hactive⟩
    have hid := (horder.2 id).mpr (Finmap.mem_of_lookup_eq_some hpeer)
    cases hip : inetPton peer.endpoint.address with
    | none => exact absurd ⟨id, peer, hpeer, hactive, hip⟩ hgood
    | some ip =>
      rw [hall] at hsends
      have hmem : _ ∈ order.filterMap (sendOf inetPton buffer peers) :=
        List.mem_filterMap.mpr ⟨id, hid, sendOf_of_active hpeer hactive hip⟩
      obtain ⟨s, -, heq⟩ := List.mem_map.mp (hsends.mem_iff.mp (List.mem_map_of_mem hmem))
      exact (congrArg Send.length (Effect.send.inj heq)).symm
  · rintro ⟨hgood, hsubmits, hlen⟩
    refine ⟨?_, fun h => absurd h hgood, fun h => absurd h hgood, fun h => absurd h hgood⟩
    rw [effects_broadcast hgood, (effects_issue_eq_iff _).mpr hsubmits, filterMap_wholeSend]
    refine .of_eq (List.map_congr_left fun s hs => ?_)
    obtain ⟨id, -, hsend⟩ := List.mem_filterMap.mp hs
    obtain ⟨hactive, hlength⟩ := length_of_sendOf hsend
    rw [← hlen hactive, ← hlength]

/-! ### Two tables -/

/-- `inet_pton` for IPv4: four numbers up to 255 without leading zeros, with dots between them. -/
def dottedQuad (address : Text) : Option (List ℕ) :=
  let octets := address.splitOn '.'
  if octets.length = 4 ∧ ∀ octet ∈ octets, octet ≠ [] ∧ octet.length ≤ 3 ∧
      octet.all Char.isDigit ∧ (octet.length = 1 ∨ octet.head? ≠ some '0') ∧
      Text.ofDigits 10 octet ≤ 255 then
    some (octets.map (Text.ofDigits 10))
  else none

lemma hasBadAddress_iff (horder : IsOrder order peers) : HasBadAddress inetPton peers ↔
    ∃ id ∈ order, ∃ peer ∈ peers.lookup id,
      peer.isActive ∧ inetPton peer.endpoint.address = none := by
  refine exists_congr fun id => ⟨?_, ?_⟩
  · rintro ⟨peer, hpeer, hbad⟩
    exact ⟨(horder.2 id).mpr (Finmap.mem_of_lookup_eq_some hpeer), peer, hpeer, hbad⟩
  · rintro ⟨-, peer, hpeer, hbad⟩
    exact ⟨peer, hpeer, hbad⟩

/-- The ring reports the send to the second peer in a way that stops the process. -/
theorem robust_of_local_peers :
    Robust dottedQuad (fun s => if s.port = 8082 then .transient else .completed) [72, 105]
      ["127.0.0.1:8081".toList, "127.0.0.1:8082".toList]
      (addPeer 0 ⟨"127.0.0.1".toList, 8082⟩ (addPeer 0 ⟨"127.0.0.1".toList, 8081⟩ ∅).1).1 := by
  have horder : IsOrder ["127.0.0.1:8081".toList, "127.0.0.1:8082".toList]
      (addPeer 0 ⟨"127.0.0.1".toList, 8082⟩ (addPeer 0 ⟨"127.0.0.1".toList, 8081⟩ ∅).1).1 := by
    decide
  refine (robust_iff horder).mpr ⟨?_, by decide, fun _ => rfl⟩
  rw [hasBadAddress_iff horder]
  decide

/-- The name of a host is no address for `inet_pton`, and the process ends. -/
theorem not_robust_of_host_name :
    ¬ Robust dottedQuad (fun _ => .completed) [72, 105] ["localhost:8081".toList]
      (addPeer 0 ⟨"localhost".toList, 8081⟩ ∅).1 := by
  intro h
  have hbad : HasBadAddress dottedQuad (addPeer 0 ⟨"localhost".toList, 8081⟩ ∅).1 :=
    ⟨"localhost:8081".toList, _, rfl, rfl, by decide⟩
  exact h.survives hbad rfl

end Mesh
