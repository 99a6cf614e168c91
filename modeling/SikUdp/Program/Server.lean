import SikUdp.Program.Communication
import SikUdp.Program.Buffer
import SikUdp.Program.Connections
import SikUdp.Program.File
import SikUdp.Program.Poll

/-!
# The server

`receive` and `send` as the event loop calls them. The answers of the system
calls and the values read from the clock are inputs. Besides the next state each
call yields the events a reader of the source would log: accepted and rejected
datagrams, registrations, messages taken from the buffer with the recipients
computed for them, and calls of `sendto`.

Both functions are `noexcept`: an `Abort` returned by them is the end of the
process.
-/
namespace SikUdp

/-- The buffered data: arrival time, message, sender. -/
structure BufferData where
  arrivalTime : ℤ
  message : Option Message
  sender : SockAddr
  deriving DecidableEq

instance : Inhabited BufferData := ⟨⟨0, none, .zero⟩⟩

/-- Moving the tuple out leaves an empty message pointer. -/
instance : Movable BufferData := ⟨fun item => { item with message := none }⟩

inductive Event where
  /-- A datagram was pushed, possibly over the oldest item. -/
  | accepted (datagram : Datagram) (item : BufferData) (overwritten : Option BufferData)
  /-- `print_error` reported an invalid datagram. -/
  | rejected (address : SockAddr) (what : String)
  | receiveFailed
  | registered (address : SockAddr) (connectionTime : ℤ)
  | popped (item : BufferData) (recipients : List SockAddr)
  | attempted (attempt : Attempt)
  /-- The error message of `send`, which names the server's own address. -/
  | sendFailed (address : SockAddr)

def Event.attempt : Event → Option Attempt
  | .attempted attempt => some attempt
  | _ => none

structure Server (bufferSize : ℕ) where
  stopping : Bool
  sock : ℤ
  fileContent : List UInt8
  address : SockAddr
  poll : Poll 1
  buffer : Buffer BufferData bufferSize
  currentMessage : Option Message
  connections : Connections
  currentClients : List SockAddr
  receiver : Receiver

/-- The answers one call of `receive` gets: the first reading of the clock is made
for an accepted datagram only. -/
structure ReceiveInput where
  recvfrom : RecvfromResult
  arrivalTime : ℤ
  connectionTime : ℤ

namespace Server

variable {bufferSize : ℕ}

/-- `client_address` after `recvfrom` returned. -/
def clientAddress : RecvfromResult → SockAddr
  | .failed => .zero
  | .received source _ => source

def overwritten (b : Buffer BufferData bufferSize) : Option BufferData :=
  BoundedFifo.dropped bufferSize b.toList

/-- Push an accepted datagram and ask for both events. -/
def accept (s : Server bufferSize) (d : Datagram) (item : BufferData) :
    Server bufferSize × List Event × Except Abort Unit :=
  let events := [Event.accepted d item (overwritten s.buffer)]
  let s := { s with buffer := s.buffer.push item }
  match s.poll.setEvents s.sock (POLLIN ||| POLLOUT) with
  | .error a => (s, events, .error a)
  | .ok poll => ({ s with poll }, events, .ok ())

/-- The `try` block of `receive`: the state it leaves and how it ends. -/
def receiveTry (s : Server bufferSize) (input : ReceiveInput) :
    Server bufferSize × List Event × Except Abort Unit :=
  let (receiver, outcome) := s.receiver.receiveMessage input.recvfrom false
  let s := { s with receiver }
  match input.recvfrom, outcome with
  | _, .error a => (s, [], .error a)
  -- a failed call yields no message
  | .failed, .ok _ => (s, [], .error .undefined)
  | .received source d, .ok message =>
    if message.hasMessage then
      (s, [], .error (.throws
        (.invalidArgument "Only timestamp and a single character expected")))
    else s.accept d ⟨input.arrivalTime, some message, source⟩

/-- What the `catch` clauses print. Other exceptions leave the function. -/
def receiveCatch (address : SockAddr) : Except Abort Unit → Except Abort (List Event)
  | .ok () => .ok []
  | .error (.throws (.invalidArgument what)) => .ok [.rejected address what]
  | .error (.throws .connectionException) => .ok [.receiveFailed]
  | .error a => .error a

def receive (s : Server bufferSize) (input : ReceiveInput) :
    Except Abort (Server bufferSize × List Event) := do
  let (s, events, outcome) := s.receiveTry input
  let address := clientAddress input.recvfrom
  let printed ← receiveCatch address outcome
  let connections ← s.connections.addClient address input.connectionTime
  .ok ({ s with connections }, events ++ printed ++ [.registered address input.connectionTime])

/-- The body of the loop in `prepare_send_data`. -/
def prepareOne (rule : EraseRule) (s : Server bufferSize) :
    Except Abort (Server bufferSize × Event) := do
  let (item, buffer) ← s.buffer.pop
  let (connections, recipients) ←
    s.connections.getClients rule item.arrivalTime (some item.sender)
  match item.message with
  | none => .error .undefined
  | some message =>
    .ok ({ s with
      buffer, connections
      currentClients := recipients
      currentMessage := some (message.setMessage s.fileContent) }, .popped item recipients)

theorem prepareOne_buffer {rule : EraseRule} {s s' : Server bufferSize} {e : Event}
    (h : s.prepareOne rule = .ok (s', e)) : ∃ item, s.buffer.pop = .ok (item, s'.buffer) := by
  obtain ⟨⟨item, buffer⟩, hpop, h⟩ := TracedRun.bind_ok_iff.mp h
  obtain ⟨⟨connections, recipients⟩, -, h⟩ := TracedRun.bind_ok_iff.mp h
  dsimp only at h
  split at h
  · cases h
  · cases h
    exact ⟨item, hpop⟩

theorem prepareOne_size {rule : EraseRule} {s s' : Server bufferSize} {e : Event}
    (h : s.prepareOne rule = .ok (s', e)) : s'.buffer.size < s.buffer.size := by
  obtain ⟨item, hpop⟩ := prepareOne_buffer h
  have hlen := congrArg List.length (s.buffer.toList_of_pop hpop)
  rw [List.length_cons, Buffer.length_toList, Buffer.length_toList] at hlen
  unfold Buffer.size
  omega

def prepareSendData (rule : EraseRule) (s : Server bufferSize) :
    Except Abort (Server bufferSize × List Event) :=
  if s.currentClients.length = 0 ∧ s.buffer.size > 0 then
    match _hone : s.prepareOne rule with
    | .error a => .error a
    | .ok (s', e) => (prepareSendData rule s').map fun r => (r.1, e :: r.2)
  else .ok (s, [])
termination_by s.buffer.size
decreasing_by exact prepareOne_size _hone

/-- What the `catch` clauses of `send` do with the address that was popped. -/
def sendCatch (s : Server bufferSize) (clientAddress : SockAddr) :
    Except Abort Unit → Except Abort (Server bufferSize × List Event)
  | .ok () => .ok (s, [])
  | .error (.throws .wouldBlockException) =>
    .ok ({ s with currentClients := s.currentClients ++ [clientAddress] }, [])
  | .error (.throws .connectionException) => .ok (s, [.sendFailed s.address])
  | .error a => .error a

def send (rule : EraseRule) (s : Server bufferSize) (sendto : SendtoResult) :
    Except Abort (Server bufferSize × List Event) := do
  let (s, popped) ← s.prepareSendData rule
  match s.currentClients with
  | [] =>
    let poll ← s.poll.setEvents s.sock POLLIN
    .ok ({ s with poll }, popped)
  | clientAddress :: rest =>
    let s := { s with currentClients := rest }
    let (attempts, outcome) := Sender.sendMessage clientAddress s.currentMessage true sendto
    let (s, printed) ← s.sendCatch clientAddress outcome
    .ok (s, popped ++ attempts.map .attempted ++ printed)

def stop (s : Server bufferSize) : Server bufferSize := { s with stopping := true }

/-- What the constructor is given by the system: the results of `socket` and
`bind`, the answers while the file is read, and the receive buffer, which is not
initialized. -/
structure Environment where
  sock : ℤ
  bindResult : ℤ
  file : File.Reading
  receiver : Receiver

def openSocket (sock : ℤ) : Except Abort ℤ :=
  if sock < 0 then .error (.throws (.serverException "Error opening socket")) else .ok sock

/-- `INADDR_ANY` is zero. -/
def bindSocket (port : UInt16) (bindResult : ℤ) : Except Abort SockAddr :=
  if bindResult < 0 then .error (.throws (.serverException "Error binding to socket"))
  else .ok ⟨0, htons port⟩

/-- Failures to open or to read the file become a `ServerException`. -/
def readFile (file : File.Reading) : Except Abort (List UInt8) :=
  match file.outcome with
  | .error (.throws (.invalidArgument what)) => .error (.throws (.serverException what))
  | .error (.throws (.runtimeError what)) => .error (.throws (.serverException what))
  | other => other

def construct (hsize : 0 < bufferSize) (port : UInt16) (env : Environment) :
    Except Abort (Server bufferSize) := do
  let sock ← openSocket env.sock
  let address ← bindSocket port env.bindResult
  let fileContent ← readFile env.file
  let poll ← Poll.empty.addDescriptor sock (POLLIN ||| POLLOUT)
  .ok { stopping := false
        sock, fileContent, address, poll
        buffer := Buffer.empty hsize
        currentMessage := none
        connections := Connections.empty
        currentClients := []
        receiver := env.receiver }

/-- One thing the loop does, or the signal handler between two of them. -/
inductive Input where
  | wait (answer : PollResult 1)
  | receive (input : ReceiveInput)
  | send (sendto : SendtoResult)
  | stop

/-- The steps in any order, which includes every order the loop takes them in. An
exception thrown by `wait` is caught by the loop. -/
def step (rule : EraseRule) (s : Server bufferSize) :
    Input → Except Abort (Server bufferSize × List Event)
  | .wait answer =>
    match s.poll.wait answer with
    | (_, .error .undefined) => .error .undefined
    | (poll, _) => .ok ({ s with poll }, [])
  | .receive input => s.receive input
  | .send sendto => s.send rule sendto
  | .stop => .ok (s.stop, [])

/-- What one turn of the loop in `run` meets: a signal before the test of
`stopping` or while `poll` waits, and the answers to the calls it makes. -/
structure Turn where
  stopBefore : Bool
  stopDuringWait : Bool
  poll : PollResult 1
  receive : ReceiveInput
  send : SendtoResult

def stopIf (signal : Bool) (s : Server bufferSize) : Server bufferSize :=
  if signal then s.stop else s

def onEvent (s : Server bufferSize) (event : EventMask)
    (handler : Server bufferSize → Except Abort (Server bufferSize × List Event)) :
    Except Abort (Server bufferSize × List Event) := do
  let revents ← s.poll.revents s.sock
  if revents &&& event ≠ 0 then handler s else .ok (s, [])

/-- The part of a turn behind `wait`: serve the events that `poll` reported. -/
def serve (rule : EraseRule) (s : Server bufferSize) (turn : Turn) :
    Except Abort (Server bufferSize × List Event) := do
  let (s, received) ← s.onEvent POLLIN fun s => s.receive turn.receive
  let (s, sent) ← s.onEvent POLLOUT fun s => s.send rule turn.send
  .ok (s, received ++ sent)

def runLoop (rule : EraseRule) (s : Server bufferSize) :
    List Turn → Except Abort (Server bufferSize × List Event)
  | [] => .ok (s, [])
  | turn :: turns =>
    let s := stopIf turn.stopBefore s
    if s.stopping then .ok (s, [])
    else
      let (poll, outcome) := s.poll.wait turn.poll
      let s := stopIf turn.stopDuringWait { s with poll }
      match outcome with
      | .error (.throws _) => runLoop rule s turns
      | .error .undefined => .error .undefined
      | .ok () =>
        if s.stopping then .ok (s, [])
        else do
          let (s, served) ← s.serve rule turn
          let (s, later) ← runLoop rule s turns
          .ok (s, served ++ later)

def run (rule : EraseRule) (s : Server bufferSize) (turns : List Turn) :
    Except Abort (Server bufferSize × List Event) :=
  runLoop rule { s with stopping := false } turns

end Server
end SikUdp
