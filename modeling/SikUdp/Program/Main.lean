import SikUdp.Program.Client
import SikUdp.Program.Parse
import SikUdp.Program.Server

/-!
# The two programs

`main` of `server.cc` and of `client.cc` up to the call of `run`. The arguments include
`argv[0]`, so their number is `argc`. What the system answers for a file name or a host is
a function of it.
-/
namespace SikUdp

inductive Status where
  | ok
  | errorArgs
  deriving DecidableEq, Repr

def Status.code : Status → ℕ
  | ok => 0
  | errorArgs => 1

/-- How a program ends by itself. -/
inductive Ending where
  /-- The message was printed, behind `usage` or not. -/
  | exited (usage : Bool) (errorMessage : String) (exitCode : ℕ)
  /-- An exception that nothing catches. -/
  | terminated
  | undefined
  deriving DecidableEq, Repr

def fatal (usage : Bool) (errorMessage : String) (errorCode : Status) : Ending :=
  .exited usage errorMessage errorCode.code

/-- The `catch` clause of both `parse_arguments`. -/
def catchParse {α : Type} : Except ArgumentException α → Except Ending α
  | .ok value => .ok value
  | .error (.parseException message) => .error (fatal true message .errorArgs)
  | .error .badLexicalCast => .error .terminated

/-- What `main` does with an exception it does not catch. -/
def uncaught {α : Type} : Except Abort α → Except Ending α
  | .ok value => .ok value
  | .error (.throws _) => .error .terminated
  | .error .undefined => .error .undefined

namespace ServerProgram

def bufferSize : ℕ := 4096

theorem bufferSize_pos : 0 < bufferSize := by decide

structure Arguments where
  port : UInt16
  filename : List UInt8
  deriving DecidableEq

/-- Without `argv[0]` a null pointer is copied into a string. -/
def parseArguments (cast : LexicalCast 16) : List (List UInt8) → Except Ending Arguments
  | [] => .error .undefined
  | [_, port, filename] => catchParse ((parsePort cast port).map fun port => ⟨port, filename⟩)
  | _ => .error (fatal true "Invalid arguments count" .errorArgs)

/-- `registered` tells whether `signal` succeeded. -/
def registerSignals (registered : Bool) : Except Ending Unit :=
  if registered then .ok ()
  else .error (fatal false "Unable to register SIGINT signal" .errorArgs)

/-- The handler calls `stop` through the pointer that `main` assigns only once the
constructor has returned. -/
def handleEarly (interrupted : Bool) : Except Ending Unit :=
  if interrupted then .error .undefined else .ok ()

def catchServer {α : Type} : Except Abort α → Except Ending α
  | .error (.throws (.serverException message)) => .error (fatal false message .errorArgs)
  | other => uncaught other

/-- `main` up to the call of `run`. -/
def start (cast : LexicalCast 16) (argv : List (List UInt8)) (registered interrupted : Bool)
    (env : List UInt8 → Server.Environment) : Except Ending (Server bufferSize) := do
  let arguments ← parseArguments cast argv
  registerSignals registered
  handleEarly interrupted
  catchServer (Server.construct bufferSize_pos arguments.port (env arguments.filename))

end ServerProgram

namespace ClientProgram

def defaultPort : UInt16 := 20160

structure Arguments where
  timestamp : UInt64
  character : UInt8
  host : List UInt8
  port : UInt16
  deriving DecidableEq

/-- The `try` block; the port is the last argument to be parsed, if it is given. -/
def parseFields (cast16 : LexicalCast 16) (cast64 : LexicalCast 64)
    (timestamp character host : List UInt8) (port : Option (List UInt8)) :
    Except ArgumentException Arguments := do
  let timestamp ← parseTimestamp cast64 timestamp
  let character ← parseCharacter character
  match port with
  | none => .ok ⟨timestamp, character, host, defaultPort⟩
  | some port =>
    let port ← parsePort cast16 port
    .ok ⟨timestamp, character, host, port⟩

def parseArguments (cast16 : LexicalCast 16) (cast64 : LexicalCast 64) :
    List (List UInt8) → Except Ending Arguments
  | [] => .error .undefined
  | [_, timestamp, character, host] =>
    catchParse (parseFields cast16 cast64 timestamp character host none)
  | [_, timestamp, character, host, port] =>
    catchParse (parseFields cast16 cast64 timestamp character host (some port))
  | _ => .error (fatal true "Invalid arguments count" .errorArgs)

def catchClient {α : Type} : Except Abort α → Except Ending α
  | .error (.throws (.clientException message)) => .error (fatal false message .errorArgs)
  | other => uncaught other

/-- What `main` has done when it calls `run`. -/
structure Started where
  client : Client
  attempts : List Attempt
  errors : List String

/-- `main` up to the call of `run`. The message is built outside of the `try` block. -/
def start (cast16 : LexicalCast 16) (cast64 : LexicalCast 64) (argv : List (List UInt8))
    (env : List UInt8 → Client.Environment) (sendto : SendtoResult) : Except Ending Started := do
  let arguments ← parseArguments cast16 cast64 argv
  let client ← catchClient (Client.construct arguments.port (env arguments.host))
  let message ← uncaught (Message.ofFields arguments.timestamp arguments.character [])
  let (attempts, outcome) := client.send (some message) sendto
  let errors ← uncaught outcome
  .ok ⟨client, attempts, errors⟩

end ClientProgram
end SikUdp
