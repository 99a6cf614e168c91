import SikUdp.Library.LossyChannel
import SikUdp.Program.Main

/-!
# The server, its clients and the network between them

One server, client programs at any addresses and a network with a channel for each
destination. Anybody can put forged packets into it, and it loses, duplicates and reorders
what is in flight. Every party makes its steps at any time, with any answers of its system.
-/
namespace SikUdp

/-- A datagram in the network, with the address it seems to come from. -/
abbrev Packet := SockAddr × Datagram

def Attempt.datagram (attempt : Attempt) : Option Datagram :=
  if attempt.result.length = attempt.data.length then
    if h : attempt.data.length ≤ packetSize - 1 then some ⟨attempt.data, h⟩ else none
  else none

/-- What all programs are run with, and the address under which clients reach the server. -/
structure Setting where
  rule : EraseRule
  cast16 : LexicalCast 16
  cast64 : LexicalCast 64
  serverAddress : SockAddr

structure Network (bufferSize : ℕ) where
  server : Server bufferSize
  clients : SockAddr → Option Client
  channels : SockAddr → LossyChannel.Channel Packet
  /-- What the client programs at an address have written. -/
  outputs : SockAddr → List Client.Output

namespace Network

variable {bufferSize : ℕ}

def initial (server : Server bufferSize) : Network bufferSize where
  server := server
  clients := fun _ => none
  channels := fun _ => .empty
  outputs := fun _ => []

def useChannel (N : Network bufferSize) (a : SockAddr) (action : LossyChannel.Action Packet) :
    Network bufferSize :=
  { N with channels := Function.update N.channels a ((N.channels a).step action) }

/-- The effect of a call of `sendto` made at `source`. -/
def post (source : SockAddr) (N : Network bufferSize) (attempt : Attempt) : Network bufferSize :=
  match attempt.datagram with
  | some d => N.useChannel attempt.address (.post (source, d))
  | none => N

def postAll (source : SockAddr) (N : Network bufferSize) (attempts : List Attempt) :
    Network bufferSize :=
  attempts.foldl (post source) N

/-- What `recvfrom` answers when the packet at an index is the next to arrive. It fails if
there is none. -/
def recvfrom (channel : LossyChannel.Channel Packet) (i : ℕ) : RecvfromResult :=
  match channel.inFlight[i]? with
  | some packet => .received packet.1 packet.2
  | none => .failed

inductive Action where
  /-- The client program is run at an address. -/
  | start (a : SockAddr) (argv : List (List UInt8)) (env : List UInt8 → Client.Environment)
      (sendto : SendtoResult)
  | clientReceive (a : SockAddr) (i : ℕ)
  | serverReceive (i : ℕ) (arrivalTime connectionTime : ℤ)
  | serverSend (sendto : SendtoResult)
  | serverWait (answer : PollResult 1)
  | serverStop
  /-- A stranger sends a packet, under any source address. -/
  | forge (packet : Packet) (destination : SockAddr)
  | lose (destination : SockAddr) (i : ℕ)
  | duplicate (destination : SockAddr) (i : ℕ)

/-- A step of the server, whose calls of `sendto` reach the network. -/
def serverStep (setting : Setting) (N : Network bufferSize) (input : Server.Input) :
    Except Abort (Network bufferSize × List Event) := do
  let (server, events) ← N.server.step setting.rule input
  .ok (postAll setting.serverAddress { N with server } (events.filterMap Event.attempt), events)

/-- The events are those of the server. A client program that exits leaves no trace, and
none can be run at the address of the server. -/
def step (setting : Setting) (N : Network bufferSize) :
    Action → Except Abort (Network bufferSize × List Event)
  | .start a argv env sendto =>
    if a = setting.serverAddress then .ok (N, [])
    else
      match ClientProgram.start setting.cast16 setting.cast64 argv env sendto with
      | .error _ => .ok (N, [])
      | .ok started =>
        .ok (postAll a { N with clients := Function.update N.clients a (some started.client) }
          started.attempts, [])
  | .clientReceive a i =>
    match N.clients a with
    | none => .ok (N, [])
    | some client => do
      let (client, outputs) ← client.receive (recvfrom (N.channels a) i)
      .ok ({ N.useChannel a (.deliver i) with
        clients := Function.update N.clients a (some client)
        outputs := Function.update N.outputs a (N.outputs a ++ outputs) }, [])
  | .serverReceive i arrivalTime connectionTime =>
    (N.useChannel setting.serverAddress (.deliver i)).serverStep setting
      (.receive ⟨recvfrom (N.channels setting.serverAddress) i, arrivalTime, connectionTime⟩)
  | .serverSend sendto => N.serverStep setting (.send sendto)
  | .serverWait answer => N.serverStep setting (.wait answer)
  | .serverStop => N.serverStep setting .stop
  | .forge packet destination => .ok (N.useChannel destination (.post packet), [])
  | .lose destination i => .ok (N.useChannel destination (.lose i), [])
  | .duplicate destination i => .ok (N.useChannel destination (.duplicate i), [])

abbrev run (setting : Setting) (N : Network bufferSize) (actions : List Action) :
    Except Abort (Network bufferSize × List Event) :=
  TracedRun.run (step setting) N actions

end Network
end SikUdp
