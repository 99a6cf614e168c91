import Mathlib.Tactic

/-!
# Exceptions, addresses and system calls

How a call of the program can end other than by returning, the socket addresses
it compares, and what the operating system answers to `sendto`, `recvfrom` and
`poll`. The answers are inputs of the model, so every outcome is covered.
-/
namespace SikUdp

/-- The exception classes of the program, with the text of `what()` where one is given. -/
inductive Exception where
  | invalidArgument (what : String)
  | outOfRange (what : String)
  | overflowError (what : String)
  | runtimeError (what : String)
  | connectionException
  | wouldBlockException
  | pollException (message : String)
  | pollTimeoutException
  | serverException (message : String)
  | clientException (message : String)
  deriving DecidableEq, Repr

/-- A call that does not return: it throws, or it does something the language
leaves undefined (a null or dangling dereference, an access past an array). -/
inductive Abort where
  | throws (e : Exception)
  | undefined
  deriving DecidableEq, Repr

/-- The part of `sockaddr_in` that `operator==` compares, in network byte order. -/
structure SockAddr where
  sinAddr : UInt32
  sinPort : UInt16
  deriving DecidableEq, Repr

def SockAddr.zero : SockAddr := ⟨0, 0⟩

/-- `htons` on a little-endian host. -/
def htons (port : UInt16) : UInt16 := (port <<< 8) ||| (port >>> 8)

/-- Maximum IP packet size. -/
def packetSize : ℕ := 65536

/-- A datagram as `recvfrom` delivers it into a buffer of `packetSize` bytes of
which the last is kept free. -/
structure Datagram where
  bytes : List UInt8
  length_le : bytes.length ≤ packetSize - 1
  deriving DecidableEq

theorem Datagram.length_lt (d : Datagram) : d.bytes.length < packetSize := by
  have h := d.length_le
  unfold packetSize at *
  omega

inductive RecvfromResult where
  | failed
  | received (source : SockAddr) (datagram : Datagram)

inductive Errno where
  | wouldBlock
  | other
  deriving DecidableEq, Repr

/-- The value returned by `sendto` and the error number it leaves. -/
structure SendtoResult where
  length : ℤ
  errno : Errno
  deriving DecidableEq, Repr

/-- `sendto` reports that the socket is not writable now. -/
def SendtoResult.wouldBlock (r : SendtoResult) : Bool :=
  decide (r.length < 0) && decide (r.errno = .wouldBlock)

abbrev EventMask := BitVec 16

def POLLIN : EventMask := 0x001
def POLLOUT : EventMask := 0x004

/-- The value returned by `poll` and the `revents` it stores. -/
structure PollResult (maxClients : ℕ) where
  result : ℤ
  revents : Fin maxClients → EventMask

end SikUdp
