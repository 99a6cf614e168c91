import SikUdp.Program.System
import SikUdp.Library.BigEndian
import SikUdp.Library.NulTerminated

/-!
# Messages

The class `Message`: a timestamp accepted by `isProperTimestamp`, a character
and a text. Every constructor validates the timestamp and no method changes it,
so the check is a field of the structure. The byte constructor reads memory from
a pointer to the end of its allocation; reading past the end is undefined.
-/
namespace SikUdp

/-- Saturday, 31-Dec-4242 23:59:59 UTC. -/
def maxTimestamp : UInt64 := 71728934399

def isProperTimestamp (timestamp : UInt64) : Bool := decide (timestamp ≤ maxTimestamp)

@[ext]
structure Message where
  timestamp : UInt64
  character : UInt8
  message : List UInt8
  proper : isProperTimestamp timestamp = true
  deriving DecidableEq

namespace Message

def messageOffset : ℕ := 8 + 1

/-- The constructor from fields, which ends with `validate`. -/
def ofFields (timestamp : UInt64) (character : UInt8) (message : List UInt8) :
    Except Abort Message :=
  if h : isProperTimestamp timestamp = true then .ok ⟨timestamp, character, message, h⟩
  else .error (.throws (.invalidArgument "Invalid timestamp"))

/-- `be64toh(((timestamp_t *) bytes)[0])`. -/
def loadTimestamp (bytes : List UInt8) : Except Abort UInt64 :=
  if 8 ≤ bytes.length then .ok (UInt64.ofNat (BigEndian.decode (bytes.take 8)))
  else .error .undefined

def loadByte (bytes : List UInt8) (index : ℕ) : Except Abort UInt8 :=
  match bytes[index]? with
  | some b => .ok b
  | none => .error .undefined

/-- Assigning a `const char *` to a `std::string` copies up to the first NUL. -/
def loadString (data : List UInt8) : Except Abort (List UInt8) :=
  match NulTerminated.read 0 data with
  | some s => .ok s
  | none => .error .undefined

/-- The constructor from raw bytes. `length` is compared with the header only:
the text is delimited by the memory at `bytes` itself. -/
def ofBytes (bytes : List UInt8) (length : ℕ) : Except Abort Message :=
  if length < messageOffset then .error (.throws (.invalidArgument "Invalid message data"))
  else do
    let timestamp ← loadTimestamp bytes
    let character ← loadByte bytes 8
    let message ← loadString (bytes.drop messageOffset)
    ofFields timestamp character message

def toBytes (m : Message) : List UInt8 :=
  BigEndian.encode 8 m.timestamp.toNat ++ [m.character] ++ m.message

def hasMessage (m : Message) : Bool := decide (m.message.length > 0)

def setMessage (m : Message) (msg : List UInt8) : Message := { m with message := msg }

def print (m : Message) : List UInt8 :=
  (Nat.toDigits 10 m.timestamp.toNat).map (fun c => UInt8.ofNat c.toNat) ++ [32] ++
    [m.character] ++ [32] ++ m.message

@[simp] theorem setMessage_message (m : Message) (msg : List UInt8) :
    (m.setMessage msg).message = msg := rfl

@[simp] theorem setMessage_timestamp (m : Message) (msg : List UInt8) :
    (m.setMessage msg).timestamp = m.timestamp := rfl

@[simp] theorem setMessage_character (m : Message) (msg : List UInt8) :
    (m.setMessage msg).character = m.character := rfl

theorem hasMessage_eq_false_iff (m : Message) : m.hasMessage = false ↔ m.message = [] := by
  simp [hasMessage]

theorem ofFields_eq_ok_iff {timestamp : UInt64} {character : UInt8} {message : List UInt8}
    {m : Message} :
    ofFields timestamp character message = .ok m ↔
      m.timestamp = timestamp ∧ m.character = character ∧ m.message = message := by
  unfold ofFields
  split_ifs with h
  · simp only [Except.ok.injEq, Message.ext_iff]
    exact ⟨fun ⟨ht, hc, hm⟩ => ⟨ht.symm, hc.symm, hm.symm⟩,
      fun ⟨ht, hc, hm⟩ => ⟨ht.symm, hc.symm, hm.symm⟩⟩
  · simp only [false_iff]
    rintro ⟨rfl, -, -⟩
    exact h m.proper

end Message
end SikUdp
