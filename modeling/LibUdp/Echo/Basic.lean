import LibUdp.Bytes.Buffer
import LibUdp.Run.Basic

/-!
# The echo example

A client sends a message to a server and waits for the echo, a number of times over. Each side
resumes the task of a call right away when it is not done, so that a call is one step here. The
network between the two may lose, repeat and reorder datagrams.
-/

namespace Echo

open Bytes

/-- The size of the buffers. -/
abbrev bufferSize : ℕ := 32

/-- `TOTAL_MESSAGES`. -/
def totalMessages : ℕ := 10

/-- The message of the client, "Hello, world!". -/
def helloWorld : Buffer := [72, 101, 108, 108, 111, 44, 32, 119, 111, 114, 108, 100, 33]

inductive Party where
  | server
  | client
  deriving DecidableEq

structure Datagram where
  destination : Party
  data : Buffer
  deriving DecidableEq

/-- What a receive into a buffer of `bufferSize` bytes gets of a datagram. -/
def received (data : Buffer) : Buffer := data.take bufferSize

/-- `Server::run`. -/
structure Server where
  /-- `i` -/
  iteration : ℕ := 0
  buffer : Buffer := List.replicate bufferSize 0
  /-- the result of `recv_task`, between the receive and the send -/
  result : Option ℕ := none
  /-- what it has logged as received -/
  log : List Buffer := []

/-- `Client::run`. -/
structure Client where
  /-- `i` -/
  iteration : ℕ := 0
  /-- the message of this iteration has been sent -/
  sent : Bool := false
  /-- what it has logged as received -/
  log : List Buffer := []

structure System where
  server : Server := {}
  client : Client := {}
  inFlight : List Datagram := []
  /-- the process is gone -/
  exited : Bool := false

inductive Action where
  /-- a send of the client, which the kernel accepts or not -/
  | clientSend (accepted : Bool)
  | clientReceive (data : Buffer)
  | serverReceive (data : Buffer)
  /-- a send of the server, which the kernel accepts or not -/
  | serverSend (accepted : Bool)
  /-- A call that ends the process: it throws, fails an assertion of the socket, or is a receive
  that fails, after which the text to log has a negative length. -/
  | fail (party : Party)
  | lose (d : Datagram)
  | duplicate (d : Datagram)
  deriving DecidableEq

namespace System

def iteration (s : System) : Party → ℕ
  | .server => s.server.iteration
  | .client => s.client.iteration

/-- The client has still to send a message. -/
def clientSends (total : ℕ) (s : System) : Prop :=
  s.exited = false ∧ s.client.iteration < total ∧ s.client.sent = false

/-- The client waits for the echo. -/
def clientWaits (s : System) : Prop := s.exited = false ∧ s.client.sent = true

/-- The server waits for a message. -/
def serverWaits (total : ℕ) (s : System) : Prop :=
  s.exited = false ∧ s.server.iteration < total ∧ s.server.result = none

instance (total : ℕ) (s : System) : Decidable (s.clientSends total) :=
  inferInstanceAs (Decidable (_ ∧ _ ∧ _))

instance (s : System) : Decidable s.clientWaits := inferInstanceAs (Decidable (_ ∧ _))

instance (total : ℕ) (s : System) : Decidable (s.serverWaits total) :=
  inferInstanceAs (Decidable (_ ∧ _ ∧ _))

/-- The rest of an iteration of the server: the send, the log and the assertion. -/
def serverSend (asserts accepted : Bool) (n : ℕ) (s : System) : System :=
  let data := s.server.buffer.take n
  { s with
    server   :=
      { s.server with
        iteration := s.server.iteration + 1
        result    := none
        log       := s.server.log ++ [data] }
    inFlight := if accepted then s.inFlight ++ [⟨.client, data⟩] else s.inFlight
    exited   := asserts && !accepted }

/-- `total` and `message` are the constants of the program, and `asserts` tells whether the
assertions are compiled in. -/
def step (asserts : Bool) (total : ℕ) (message : Buffer) (s : System) : Action → Option System
  | .clientSend accepted =>
    if s.clientSends total then
      some { s with
        client   := { s.client with sent := true }
        inFlight := if accepted then s.inFlight ++ [⟨.server, message⟩] else s.inFlight }
    else none
  | .clientReceive data =>
    if s.clientWaits ∧ ⟨.client, data⟩ ∈ s.inFlight then
      some { s with
        client   :=
          { iteration := s.client.iteration + 1
            sent      := false
            log       := s.client.log ++ [received data] }
        inFlight := s.inFlight.erase ⟨.client, data⟩ }
    else none
  | .serverReceive data =>
    if s.serverWaits total ∧ ⟨.server, data⟩ ∈ s.inFlight then
      some { s with
        server   :=
          { s.server with
            buffer := overwrite s.server.buffer (received data)
            result := some (received data).length }
        inFlight := s.inFlight.erase ⟨.server, data⟩ }
    else none
  | .serverSend accepted =>
    if s.exited then none else s.server.result.map fun n => s.serverSend asserts accepted n
  | .fail party =>
    if s.exited = false ∧ s.iteration party < total then some { s with exited := true } else none
  | .lose d => if d ∈ s.inFlight then some { s with inFlight := s.inFlight.erase d } else none
  | .duplicate d =>
    if d ∈ s.inFlight then some { s with inFlight := d :: s.inFlight } else none

/-- Both sides have gone through all their iterations. -/
structure Done (total : ℕ) (s : System) : Prop where
  exited : s.exited = false
  server : s.server.iteration = total
  client : s.client.iteration = total

end System

namespace Action

/-- The action loses a datagram, or what a receive should have brought. -/
def loses : Action → Bool
  | .clientSend accepted | .serverSend accepted => !accepted
  | .fail _ | .lose _ => true
  | _ => false

def duplicates : Action → Bool
  | .duplicate _ => true
  | _ => false

end Action

end Echo
