import LibUdp.Bytes.Overlay
import LibUdp.Mesh.Node.Receive

/-!
# What the messages carry

Each message that `Node::receive_loop` dispatches carries all of its buffer, and the buffer keeps
what no datagram has reached since.
-/

namespace Mesh

open Bytes

variable {asserts : Bool} {receptions : List Reception}

lemma write_eq_foldl (buffer : Buffer) (reception : Reception) :
    reception.write buffer = (datagrams [reception]).foldl overwrite buffer := by
  cases reception <;> rfl

lemma datagrams_cons (reception : Reception) (receptions : List Reception) :
    datagrams (reception :: receptions) = datagrams [reception] ++ datagrams receptions :=
  List.filterMap_append (l := [reception])

lemma length_le_of_mem_datagrams {data : Buffer} (h : data ∈ datagrams receptions) :
    data.length ≤ maxPacket := by
  obtain ⟨reception, -, hdata⟩ := List.mem_filterMap.mp h
  cases reception with
  | datagram d =>
    cases hdata
    exact d.length_le
  | error res hres => cases hdata

/-- The shortest of the nonempty prefixes has the head alone. -/
lemma tail_inits_cons {α : Type*} (a : α) (l : List α) :
    (a :: l).inits.tail = [a] :: l.inits.tail.map (a :: ·) := by
  cases l with
  | nil => rfl
  | cons b l => simp

/-- There is a message for each reception, with the buffer as it is after all receptions so far. -/
lemma messages_receiveLoop_eq_foldl (asserts : Bool) (buffer : Buffer)
    (receptions : List Reception) : messages (receiveLoop asserts buffer receptions) =
      (seen asserts receptions).inits.tail.map fun sofar =>
        (datagrams sofar).foldl overwrite buffer := by
  induction receptions generalizing buffer with
  | nil => rfl
  | cons reception receptions ih =>
    cases habort : reception.aborts asserts with
    | true => simp [receiveLoop, messages, seen, habort]
    | false =>
      have hseen : seen asserts (reception :: receptions) =
          reception :: seen asserts receptions := by simp [seen, habort]
      have hmessages : messages (receiveLoop asserts buffer (reception :: receptions)) =
          reception.write buffer ::
            messages (receiveLoop asserts (reception.write buffer) receptions) := by
        simp [receiveLoop, messages, habort, Event.data?]
      rw [hseen, hmessages, ih, tail_inits_cons, List.map_cons, List.map_map, write_eq_foldl]
      congr 1
      refine List.map_congr_left fun sofar _ => ?_
      rw [Function.comp_apply, datagrams_cons reception sofar, List.foldl_append]

/-- Each message is as long as the buffer. At every place it has the byte of the last datagram so
far that was long enough to have one there, be it the one received last or an old one, and zero
when there was none. -/
theorem messages_receiveLoop_eq (asserts : Bool) (receptions : List Reception) :
    messages (receiveLoop asserts (List.replicate maxPacket 0) receptions) =
      (seen asserts receptions).inits.tail.map fun sofar =>
        contents maxPacket (datagrams sofar) := by
  rw [messages_receiveLoop_eq_foldl]
  exact List.map_congr_left fun sofar _ =>
    foldl_overwrite maxPacket fun data => length_le_of_mem_datagrams

end Mesh
