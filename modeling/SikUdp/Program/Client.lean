import SikUdp.Program.Communication
import SikUdp.Library.TracedRun

/-!
# The client

One message sent to the server, and the receiving loop: every datagram that decodes is
printed. The address that `recvfrom` stores is a local variable of `receive` which
nothing reads.
-/
namespace SikUdp

structure Client where
  sock : ℤ
  address : SockAddr
  stopping : Bool
  receiver : Receiver

namespace Client

inductive Output where
  | line (text : List UInt8)
  /-- `print_error`, which is given the server's address. -/
  | invalid (address : SockAddr) (what : String)
  | receiveFailed
  deriving DecidableEq

/-- What the constructor is given by the system: the first address that `getaddrinfo`
found, the result of `socket` and the receive buffer, which is not initialized. -/
structure Environment where
  lookup : Option UInt32
  sock : ℤ
  receiver : Receiver

def setupAddress (lookup : Option UInt32) (port : UInt16) : Except Abort SockAddr :=
  match lookup with
  | none => .error (.throws (.clientException "Error getting address"))
  | some addr => .ok ⟨addr, htons port⟩

def openSocket (sock : ℤ) : Except Abort ℤ :=
  if sock < 0 then .error (.throws (.clientException "Error opening socket")) else .ok sock

def construct (port : UInt16) (env : Environment) : Except Abort Client := do
  let address ← setupAddress env.lookup port
  let sock ← openSocket env.sock
  .ok { sock, address, stopping := false, receiver := env.receiver }

/-- The call of `sendto` and the lines on the error output. Every exception is caught. -/
def send (c : Client) (message : Option Message) (sendto : SendtoResult) :
    List Attempt × Except Abort (List String) :=
  match Sender.sendMessage c.address message false sendto with
  | (attempts, .ok ()) => (attempts, .ok [])
  | (attempts, .error (.throws _)) =>
    (attempts, .ok ["Error occurred while sending message to server"])
  | (attempts, .error .undefined) => (attempts, .error .undefined)

def receive (c : Client) (recvfrom : RecvfromResult) : Except Abort (Client × List Output) :=
  let (receiver, outcome) := c.receiver.receiveMessage recvfrom true
  let c := { c with receiver }
  match outcome with
  -- `std::endl` ends the line
  | .ok message => .ok (c, [.line (message.print ++ [10])])
  | .error (.throws (.invalidArgument what)) => .ok (c, [.invalid c.address what])
  | .error (.throws .connectionException) => .ok (c, [.receiveFailed])
  | .error a => .error a

def runLoop (c : Client) : List RecvfromResult → Except Abort (Client × List Output)
  | [] => .ok (c, [])
  | recvfrom :: later =>
    if c.stopping then .ok (c, [])
    else do
      let (c, outputs) ← c.receive recvfrom
      let (c, more) ← runLoop c later
      .ok (c, outputs ++ more)

def run (c : Client) (answers : List RecvfromResult) : Except Abort (Client × List Output) :=
  runLoop { c with stopping := false } answers

end Client
end SikUdp
