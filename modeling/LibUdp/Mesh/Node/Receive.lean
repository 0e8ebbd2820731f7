import LibUdp.Mesh.Events
import LibUdp.Udp.Socket.Basic

/-!
# Receiving messages

`Node::receive_loop` receives into one buffer and dispatches a `Message_received` event after each
receive. It never asks a receive for its result, so the event carries the whole buffer whatever
the receive brought.
-/

namespace Mesh

open Bytes

/-- Max size of a UDP packet, and the size of the buffer. -/
abbrev maxPacket : ℕ := 65536

/-- A datagram that the kernel writes to the start of the buffer. -/
structure Datagram where
  source : Endpoint
  data : Buffer
  length_le : data.length ≤ maxPacket

/-- How a receive ends. -/
inductive Reception where
  | datagram (d : Datagram)
  | error (res : Int32) (h : res < 0)

namespace Reception

/-- The data of the datagram, if there is one. -/
def data? : Reception → Option Buffer
  | .datagram d => some d.data
  | .error _ _  => none

/-- The assertion in `Receive_operation::reap` fails on the result. -/
def aborts (asserts : Bool) : Reception → Bool
  | .datagram _  => false
  | .error res _ => asserts && Udp.Socket.isTransient res

/-- The buffer after the receive. -/
def write (buffer : Buffer) : Reception → Buffer
  | .datagram d => overwrite buffer d.data
  | .error _ _  => buffer

end Reception

/-- The events `Node::receive_loop` dispatches, given how its receives end, as long as nothing in the
`try` block throws and `error_message` stays empty. -/
def receiveLoop (asserts : Bool) (buffer : Buffer) : List Reception → List Event
  | []                      => []
  | reception :: receptions =>
    if reception.aborts asserts then []
    else
      let buffer := reception.write buffer
      .messageReceived buffer [] :: receiveLoop asserts buffer receptions

/-- `m_data` of a `Message_received` event. -/
def Event.data? : Event → Option Buffer
  | .messageReceived data _ => some data
  | _ => none

/-- The messages among the events. -/
def messages (events : List Event) : List Buffer := events.filterMap Event.data?

/-- The receptions that the process lives to see the end of. -/
def seen (asserts : Bool) (receptions : List Reception) : List Reception :=
  receptions.takeWhile fun reception => !reception.aborts asserts

/-- The datagrams that arrived. -/
def datagrams (receptions : List Reception) : List Buffer := receptions.filterMap Reception.data?

/-- A datagram as long as the buffer. -/
def Reception.IsFull : Reception → Prop
  | .datagram d => d.data.length = maxPacket
  | .error _ _  => False

variable {asserts : Bool} {buffer : Buffer}

lemma Reception.length_write (h : buffer.length = maxPacket) (reception : Reception) :
    (reception.write buffer).length = maxPacket := by
  cases reception with
  | datagram d =>
    have hle : d.data.length ≤ buffer.length := h ▸ d.length_le
    rw [write, length_overwrite hle, h]
  | error res hres => exact h

/-- The loop dispatches one message for each reception, be it a datagram or not. -/
lemma length_messages_receiveLoop (asserts : Bool) (buffer : Buffer)
    (receptions : List Reception) :
    (messages (receiveLoop asserts buffer receptions)).length =
      (seen asserts receptions).length := by
  induction receptions generalizing buffer with
  | nil => rfl
  | cons reception receptions ih =>
    cases habort : reception.aborts asserts with
    | true => simp [receiveLoop, seen, messages, habort]
    | false =>
      have h := ih (reception.write buffer)
      simpa [receiveLoop, seen, messages, habort, Event.data?] using h

lemma messages_receiveLoop_eq_iff (h : buffer.length = maxPacket) (receptions : List Reception) :
    messages (receiveLoop asserts buffer receptions) = datagrams (seen asserts receptions) ↔
      ∀ reception ∈ seen asserts receptions, reception.IsFull := by
  induction receptions generalizing buffer with
  | nil => simp [receiveLoop, messages, seen, datagrams]
  | cons reception receptions ih =>
    have hlength := reception.length_write h
    have hrest := ih hlength
    cases habort : reception.aborts asserts with
    | true => simp [receiveLoop, messages, seen, datagrams, habort]
    | false =>
      have hseen : seen asserts (reception :: receptions) =
          reception :: seen asserts receptions := by simp [seen, habort]
      have hmessages : messages (receiveLoop asserts buffer (reception :: receptions)) =
          reception.write buffer ::
            messages (receiveLoop asserts (reception.write buffer) receptions) := by
        simp [receiveLoop, messages, habort, Event.data?]
      rw [hseen, hmessages, List.forall_mem_cons]
      cases reception with
      | datagram d =>
        have hfull : overwrite buffer d.data = d.data ↔ d.data.length = maxPacket := by
          rw [overwrite_eq_iff, h]
          exact ⟨fun hle => le_antisymm d.length_le hle, fun heq => heq.ge⟩
        have hdata : datagrams (.datagram d :: seen asserts receptions) =
            d.data :: datagrams (seen asserts receptions) := rfl
        rw [hdata, List.cons.injEq, hrest]
        exact and_congr_left' hfull
      | error res hres =>
        -- one more message than there are datagrams
        refine iff_of_false ?_ (fun hfull => hfull.1)
        intro heq
        have hlengths := congrArg List.length heq
        have hle : (datagrams (seen asserts receptions)).length ≤
            (seen asserts receptions).length := List.length_filterMap_le _ _
        rw [List.length_cons, length_messages_receiveLoop] at hlengths
        exact absurd hlengths (Nat.ne_of_gt (Nat.lt_succ_of_le hle))

/-- The loop dispatches exactly the datagrams that arrive, just when it sees nothing but datagrams
that fill the buffer. -/
theorem messages_receiveLoop_iff (asserts : Bool) (receptions : List Reception) :
    messages (receiveLoop asserts (List.replicate maxPacket 0) receptions) =
        datagrams (seen asserts receptions) ↔
      ∀ reception ∈ seen asserts receptions, reception.IsFull :=
  messages_receiveLoop_eq_iff List.length_replicate receptions

/-- The event for a datagram of five bytes carries the rest of the buffer as well. -/
theorem messages_receiveLoop_hello_ne :
    messages (receiveLoop true (List.replicate maxPacket 0)
        [.datagram ⟨{}, [72, 101, 108, 108, 111], by decide⟩]) ≠
      datagrams (seen true [.datagram ⟨{}, [72, 101, 108, 108, 111], by decide⟩]) := by
  intro h
  have hfull : (5 : ℕ) = maxPacket :=
    (messages_receiveLoop_eq_iff List.length_replicate _).mp h _ (List.mem_singleton.mpr rfl)
  exact absurd hfull (by decide)

end Mesh
