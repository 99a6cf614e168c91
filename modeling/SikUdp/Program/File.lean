import SikUdp.Program.Protocol

/-!
# Reading a file

The constructor of the class `File` and its method `read_content`. What `open` and `read`
answer is an input of the model: `read` fails or stores a piece of at most
`sizeof(buffer) - 1` bytes, and a piece of length zero is the end of the file. The chunk
buffer is neither initialized nor cleared between two reads.
-/
namespace SikUdp.File

def chunkSize : ℕ := 64 * 1024

structure Piece where
  bytes : List UInt8
  length_le : bytes.length ≤ chunkSize - 1
  deriving DecidableEq

theorem Piece.length_lt (piece : Piece) : piece.bytes.length < chunkSize := by
  have h := piece.length_le
  unfold chunkSize at *
  omega

def Piece.endOfFile : Piece := ⟨[], Nat.zero_le _⟩

inductive ReadResult where
  | failed
  | read (piece : Piece)

structure Chunk where
  buffer : List UInt8
  length_buffer : buffer.length = chunkSize

namespace Chunk

def filled (c : UInt8) : Chunk := ⟨List.replicate chunkSize c, List.length_replicate⟩

/-- `read` stores its piece at the beginning of the buffer. -/
def fill (chunk : Chunk) (piece : Piece) : Chunk where
  buffer := piece.bytes ++ chunk.buffer.drop piece.bytes.length
  length_buffer := by
    have h := piece.length_lt
    simp only [List.length_append, List.length_drop, chunk.length_buffer]
    omega

/-- `buffer[length] = '\0'`. -/
def terminate (chunk : Chunk) (piece : Piece) : Chunk where
  buffer := chunk.buffer.set piece.bytes.length 0
  length_buffer := by rw [List.length_set, chunk.length_buffer]

end Chunk

/-- The loop of `read_content` on the answers to its calls of `read`. There is no result
as long as the loop waits for a further answer. -/
def readContent (chunk : Chunk) (content : List UInt8) :
    List ReadResult → Option (Except Abort (List UInt8))
  | [] => none
  | .failed :: _ => some (.error (.throws (.runtimeError "Error reading file")))
  | .read piece :: answers =>
    let chunk := (chunk.fill piece).terminate piece
    -- `content.append(buffer)` takes the buffer as a C string
    match Message.loadString chunk.buffer with
    | .error e => some (.error e)
    | .ok text =>
      if 0 < piece.bytes.length then readContent chunk (content ++ text) answers
      else some (.ok (content ++ text))

/-- The constructor, given the result of `open`. -/
def openFile (file : ℤ) : Except Abort ℤ :=
  if file = -1 then .error (.throws (.invalidArgument "Could not open file")) else .ok file

/-- The calls that `read_file` of the server makes: the constructor and `read_content`. -/
def load (file : ℤ) (chunk : Chunk) (answers : List ReadResult) :
    Option (Except Abort (List UInt8)) :=
  match openFile file with
  | .error e => some (.error e)
  | .ok _ => readContent chunk [] answers

/-- What the system answers until these calls have ended. -/
structure Reading where
  file : ℤ
  chunk : Chunk
  answers : List ReadResult
  ends : (load file chunk answers).isSome = true

def Reading.outcome (reading : Reading) : Except Abort (List UInt8) :=
  (load reading.file reading.chunk reading.answers).get reading.ends

end SikUdp.File
