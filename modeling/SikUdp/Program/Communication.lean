import SikUdp.Program.Protocol

/-!
# Sending and receiving messages over a socket

`Sender` encodes a message into one datagram, `Receiver` decodes one datagram in
a buffer it reuses for every call. Calls of `sendto` are recorded as attempts.
-/
namespace SikUdp

structure Attempt where
  address : SockAddr
  data : List UInt8
  result : SendtoResult
  deriving DecidableEq, Repr

namespace Sender

def dataOf (message : Message) (withMessage : Bool) : List UInt8 :=
  if withMessage then message.toBytes ++ [0] else message.toBytes

/-- How `sendMessage` ends once `sendto` has answered for `dataLength` bytes. -/
def outcome (dataLength : ℕ) (sendto : SendtoResult) : Except Abort Unit :=
  if sendto.length < 0 ∧ sendto.errno = .wouldBlock then .error (.throws .wouldBlockException)
  else if sendto.length ≠ dataLength then .error (.throws .connectionException)
  else .ok ()

/-- Dereferencing an empty message pointer is undefined. -/
def sendMessage (address : SockAddr) (message : Option Message) (withMessage : Bool)
    (sendto : SendtoResult) : List Attempt × Except Abort Unit :=
  match message with
  | none => ([], .error .undefined)
  | some m =>
    let data := dataOf m withMessage
    ([⟨address, data, sendto⟩], outcome data.length sendto)

end Sender

/-- The reused receive buffer. Its initial content is arbitrary. -/
structure Receiver where
  buffer : List UInt8
  length_buffer : buffer.length = packetSize

namespace Receiver

def zeroed : Receiver := ⟨List.replicate packetSize 0, List.length_replicate⟩

/-- `recvfrom` writes the datagram over the first bytes of the buffer. -/
def fill (r : Receiver) (d : Datagram) : Receiver where
  buffer := d.bytes ++ r.buffer.drop d.bytes.length
  length_buffer := by
    have h := d.length_lt
    simp only [List.length_append, List.length_drop, r.length_buffer]
    omega

/-- `buffer[length] = '\0'`. A store behind the buffer is undefined. -/
def terminate (r : Receiver) (length : ℕ) : Except Abort Receiver :=
  if length < r.buffer.length then
    .ok ⟨r.buffer.set length 0, by rw [List.length_set, r.length_buffer]⟩
  else .error .undefined

def checkText (r : Receiver) (length : ℕ) : Except Abort Unit :=
  if length ≤ Message.messageOffset then
    .error (.throws (.invalidArgument "Message must contain text"))
  else
    match r.buffer[length - 1]? with
    | none => .error .undefined
    | some c =>
      if c ≠ 0 then
        .error (.throws (.invalidArgument "Message text must be null terminated"))
      else .ok ()

/-- The buffer is overwritten also by a call that throws. -/
def receiveMessage (r : Receiver) (recvfrom : RecvfromResult) (withMessage : Bool) :
    Receiver × Except Abort Message :=
  match recvfrom with
  | .failed => (r, .error (.throws .connectionException))
  | .received _ d =>
    let r := r.fill d
    match if withMessage then r.checkText d.bytes.length else .ok () with
    | .error a => (r, .error a)
    | .ok () =>
      match r.terminate d.bytes.length with
      | .error a => (r, .error a)
      | .ok r => (r, Message.ofBytes r.buffer d.bytes.length)

end Receiver
end SikUdp
