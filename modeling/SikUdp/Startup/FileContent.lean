import SikUdp.Program.File

/-!
# The content of a file

The terminator behind each piece cuts off what an earlier, longer piece left in the
buffer. So every round appends its own piece up to the first NUL, and a file without NULs
comes out whole however `read` splits it.
-/
namespace SikUdp.File

/-- What a piece adds to the content. -/
def Piece.text (piece : Piece) : List UInt8 := NulTerminated.text 0 piece.bytes

theorem loadString_terminated (chunk : Chunk) (piece : Piece) :
    Message.loadString ((chunk.fill piece).terminate piece).buffer = .ok piece.text := by
  have hlt : piece.bytes.length < chunk.buffer.length := by
    rw [chunk.length_buffer]
    exact piece.length_lt
  have hbuffer : ((chunk.fill piece).terminate piece).buffer =
      piece.bytes ++ 0 :: chunk.buffer.drop (piece.bytes.length + 1) :=
    NulTerminated.set_overwritten hlt
  rw [hbuffer, Message.loadString, NulTerminated.read_append_nul]
  rfl

theorem readContent_read (chunk : Chunk) (content : List UInt8) (piece : Piece)
    (answers : List ReadResult) :
    readContent chunk content (.read piece :: answers) =
      if 0 < piece.bytes.length then
        readContent ((chunk.fill piece).terminate piece) (content ++ piece.text) answers
      else some (.ok (content ++ piece.text)) := by
  rw [readContent, loadString_terminated]

theorem readContent_endOfFile (chunk : Chunk) (content : List UInt8) (answers : List ReadResult) :
    readContent chunk content (.read .endOfFile :: answers) = some (.ok content) := by
  have hend : ¬ 0 < Piece.endOfFile.bytes.length := Nat.not_lt_zero 0
  have htext : Piece.endOfFile.text = [] := rfl
  rw [readContent_read, if_neg hend, htext, List.append_nil]

/-- Nonempty pieces are appended one after the other, and the loop goes on. -/
theorem readContent_pieces (pieces : List Piece) (hpieces : ∀ p ∈ pieces, p.bytes ≠ [])
    (chunk : Chunk) (content : List UInt8) :
    ∃ chunk' : Chunk, ∀ answers,
      readContent chunk content (pieces.map .read ++ answers) =
        readContent chunk' (content ++ pieces.flatMap Piece.text) answers := by
  induction pieces generalizing chunk content with
  | nil => exact ⟨chunk, fun answers => by simp⟩
  | cons piece pieces ih =>
    have hpos : 0 < piece.bytes.length :=
      List.length_pos_iff.mpr (hpieces piece (List.mem_cons_self ..))
    obtain ⟨chunk', hrest⟩ := ih (fun p hp => hpieces p (List.mem_cons_of_mem _ hp))
      ((chunk.fill piece).terminate piece) (content ++ piece.text)
    refine ⟨chunk', fun answers => ?_⟩
    rw [List.map_cons, List.cons_append, readContent_read, if_pos hpos, hrest,
      List.append_assoc, List.flatMap_cons]

theorem nul_notMem_texts (pieces : List Piece) : 0 ∉ pieces.flatMap Piece.text := by
  intro hnul
  obtain ⟨piece, -, hmem⟩ := List.mem_flatMap.mp hnul
  exact NulTerminated.nul_notMem_text piece.bytes hmem

theorem texts_eq {pieces : List Piece} (hnul : 0 ∉ pieces.flatMap Piece.bytes) :
    pieces.flatMap Piece.text = pieces.flatMap Piece.bytes := by
  refine List.flatMap_congr fun piece hpiece => ?_
  refine (NulTerminated.text_eq_self_iff piece.bytes).mpr fun hmem => ?_
  exact hnul (List.mem_flatMap.mpr ⟨piece, hpiece, hmem⟩)

/-- Whatever the buffer held and however `read` splits a file into nonempty pieces, the
loop ends at the end of the file and not before, with a content without NULs that is the
file itself if the file has none. A failing `read` ends it with an exception instead. -/
theorem content_exact (chunk : Chunk) (file : List UInt8) (pieces : List Piece)
    (hpieces : ∀ p ∈ pieces, p.bytes ≠ []) (hfile : pieces.flatMap Piece.bytes = file) :
    (∃ content, (∀ answers, readContent chunk []
        (pieces.map .read ++ .read .endOfFile :: answers) = some (.ok content)) ∧
      0 ∉ content ∧ (0 ∉ file → content = file)) ∧
    ∀ before after, pieces = before ++ after →
      readContent chunk [] (before.map .read) = none ∧
      ∀ answers, readContent chunk [] (before.map .read ++ .failed :: answers) =
        some (.error (.throws (.runtimeError "Error reading file"))) := by
  constructor
  · obtain ⟨chunk', hrun⟩ := readContent_pieces pieces hpieces chunk []
    refine ⟨pieces.flatMap Piece.text, fun answers => ?_, nul_notMem_texts pieces, fun hnul => ?_⟩
    · rw [hrun, readContent_endOfFile, List.nil_append]
    · rw [← hfile] at hnul ⊢
      exact texts_eq hnul
  · rintro before after rfl
    obtain ⟨chunk', hrun⟩ := readContent_pieces before
      (fun p hp => hpieces p (List.mem_append_left _ hp)) chunk []
    refine ⟨?_, fun answers => ?_⟩
    · have hwaits := hrun []
      rw [List.append_nil] at hwaits
      rw [hwaits, readContent]
    · rw [hrun, readContent]

theorem content_exact_sample :
    readContent (.filled 120) []
      [.read ⟨[97, 98], by decide⟩, .read ⟨[99], by decide⟩, .read .endOfFile] =
        some (.ok [97, 98, 99]) := by
  obtain ⟨⟨content, hrun, -, hfile⟩, -⟩ := content_exact (.filled 120) [97, 98, 99]
    [⟨[97, 98], by decide⟩, ⟨[99], by decide⟩] (by decide) rfl
  rw [hfile (by decide)] at hrun
  exact hrun []

theorem readContent_cases {chunk : Chunk} {content : List UInt8} {answers : List ReadResult}
    {outcome : Except Abort (List UInt8)} (hcontent : 0 ∉ content)
    (h : readContent chunk content answers = some outcome) :
    (∃ text, outcome = .ok text ∧ 0 ∉ text) ∨
      outcome = .error (.throws (.runtimeError "Error reading file")) := by
  induction answers generalizing chunk content with
  | nil => cases h
  | cons answer answers ih =>
    cases answer with
    | failed =>
      cases h
      exact Or.inr rfl
    | read piece =>
      have htext : (0 : UInt8) ∉ content ++ piece.text := by
        intro hnul
        rcases List.mem_append.mp hnul with hnul | hnul
        · exact hcontent hnul
        · exact NulTerminated.nul_notMem_text piece.bytes hnul
      rw [readContent_read] at h
      split_ifs at h
      · exact ih htext h
      · cases h
        exact Or.inl ⟨_, rfl, htext⟩

theorem Reading.outcome_cases (reading : Reading) :
    (∃ content, reading.outcome = .ok content ∧ 0 ∉ content) ∨
    reading.outcome = .error (.throws (.invalidArgument "Could not open file")) ∨
    reading.outcome = .error (.throws (.runtimeError "Error reading file")) := by
  have h : load reading.file reading.chunk reading.answers = some reading.outcome :=
    (Option.some_get reading.ends).symm
  unfold load openFile at h
  split_ifs at h
  · exact Or.inr (Or.inl (Option.some.inj h).symm)
  · exact (readContent_cases List.not_mem_nil h).imp_right Or.inr

theorem load_sample : load 4 (.filled 120) [.read ⟨[104, 105], by decide⟩, .read .endOfFile] =
    some (.ok [104, 105]) := by
  have htext : NulTerminated.text 0 ([104, 105] : List UInt8) = [104, 105] := by decide
  rw [load, openFile, if_neg (by decide)]
  dsimp only
  rw [readContent_read, if_pos (by decide), readContent_endOfFile, Piece.text, htext]
  rfl

def sampleReading : Reading :=
  ⟨4, .filled 120, [.read ⟨[104, 105], by decide⟩, .read .endOfFile], by rw [load_sample]; rfl⟩

theorem sampleReading_outcome : sampleReading.outcome = .ok [104, 105] :=
  Option.get_of_eq_some _ load_sample

end SikUdp.File
