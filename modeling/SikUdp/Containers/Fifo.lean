import SikUdp.Program.Buffer
import SikUdp.Library.TracedRun

/-!
# The cyclic buffer as a queue

`Buffer` refines the bounded queue that drops its oldest item. Every sequence of calls
is answered alike by both, and afterwards indexing and iteration show the content of
the queue, whatever the position of the array's start.
-/
namespace SikUdp.Buffer

variable {T : Type} {bufferSize : ℕ}

inductive Call (T : Type) where
  | push (item : T)
  | pop
  | access (index : ℕ)

abbrev Answer (T : Type) := Except Abort (Option T)

/-- One call of a buffer. A `pop` that throws has changed nothing before. -/
def call [Movable T] (b : Buffer T bufferSize) :
    Call T → Except Abort (Buffer T bufferSize × List (Answer T))
  | .push item => .ok (b.push item, [.ok none])
  | .pop =>
    match b.pop with
    | .ok (item, b') => .ok (b', [.ok (some item)])
    | .error a => .ok (b, [.error a])
  | .access index => .ok (b, [(b.access index).map some])

/-- The same call of the abstract queue. -/
def fifoCall (capacity : ℕ) (queue : List T) :
    Call T → Except Abort (List T × List (Answer T))
  | .push item => .ok (BoundedFifo.enqueue capacity queue item, [.ok none])
  | .pop =>
    match queue with
    | item :: rest => .ok (rest, [.ok (some item)])
    | [] => .ok ([], [.error (.throws (.outOfRange "buffer is empty"))])
  | .access index =>
    match queue[index]? with
    | some item => .ok (queue, [.ok (some item)])
    | none => .ok (queue, [.error (.throws (.outOfRange "index out of range"))])

variable (b : Buffer T bufferSize)

theorem length_toList_le : b.toList.length ≤ bufferSize := by
  rw [length_toList]
  exact b.length_le

theorem toList_push_eq_enqueue (item : T) :
    (b.push item).toList = BoundedFifo.enqueue bufferSize b.toList item := by
  rw [toList_push, BoundedFifo.push_eq_enqueue b.size_pos b.length_toList_le]

theorem access_eq (index : ℕ) :
    b.access index =
      match b.toList[index]? with
      | some item => .ok item
      | none => .error (.throws (.outOfRange "index out of range")) := by
  unfold access
  split_ifs with hout
  · rw [List.getElem?_eq_none (by simpa using hout)]
  · have hin : index < b.toList.length := by simpa using hout
    rw [List.getElem?_eq_getElem hin, getElem_toList]

theorem pop_empty [Movable T] (h : b.toList = []) :
    b.pop = .error (.throws (.outOfRange "buffer is empty")) := by
  have hlength : b.length = 0 := by rw [← length_toList, h, List.length_nil]
  rw [pop, if_pos hlength]

/-- One call of a buffer is the same call of its content. -/
theorem call_simulates [Movable T] (c : Call T) :
    ∃ b' answers, b.call c = .ok (b', answers) ∧
      fifoCall bufferSize b.toList c = .ok (b'.toList, answers) := by
  cases c with
  | push item =>
    refine ⟨b.push item, [.ok none], rfl, ?_⟩
    rw [fifoCall, toList_push_eq_enqueue]
  | pop =>
    cases hqueue : b.toList with
    | nil =>
      refine ⟨b, _, by rw [call, b.pop_empty hqueue], ?_⟩
      rw [fifoCall, hqueue]
    | cons item rest =>
      obtain ⟨b', hpop, hrest⟩ := b.pop_eq_ok hqueue
      refine ⟨b', _, by rw [call, hpop], ?_⟩
      rw [fifoCall, hrest]
  | access index =>
    refine ⟨b, _, rfl, ?_⟩
    rw [fifoCall, access_eq]
    cases b.toList[index]? <;> rfl

/-- Every sequence of calls is answered as by the queue that the buffer contains. -/
theorem run_eq_fifo [Movable T] (calls : List (Call T)) :
    ∃ (b' : Buffer T bufferSize) (queue : List T) (answers : List (Answer T)),
      TracedRun.run call b calls = .ok (b', answers) ∧
      TracedRun.run (fifoCall bufferSize) b.toList calls = .ok (queue, answers) ∧
      b'.toList = queue := by
  refine TracedRun.run_simulates (R := fun (b : Buffer T bufferSize) queue => b.toList = queue)
    ?_ calls rfl
  rintro b _ c rfl
  obtain ⟨b', answers, hcall, hspec⟩ := b.call_simulates c
  exact ⟨b', b'.toList, answers, hcall, hspec, rfl⟩

theorem loop_eq (index : ℕ) (hle : index ≤ b.length) :
    Iterator.loop ⟨b, index⟩ b.last = .ok (b.toList.drop index) := by
  induction hleft : b.length - index generalizing index with
  | zero =>
    have hend : index = b.length := by omega
    subst hend
    rw [Iterator.loop, if_neg (by simp [Iterator.differs, last])]
    rw [List.drop_eq_nil_of_le (by simp)]
  | succ left ih =>
    have hlt : index < b.toList.length := by
      rw [length_toList]
      omega
    have hitem : (⟨b, index⟩ : Iterator T bufferSize).deref = .ok b.toList[index] := by
      rw [Iterator.deref, access_eq, List.getElem?_eq_getElem hlt]
    have hdiffers : index ≠ b.length := by omega
    rw [Iterator.loop, if_pos (by simp [Iterator.differs, last, hdiffers])]
    split
    · rename_i a herror
      rw [hitem] at herror
      cases herror
    · rename_i item hderef
      rw [hitem] at hderef
      cases hderef
      have hrest := ih (index + 1) (by omega) (by omega)
      rw [List.drop_eq_getElem_cons hlt]
      exact TracedRun.map_ok_iff.mpr ⟨_, hrest, rfl⟩

/-- The buffer is a bounded queue. From an empty buffer every sequence of calls is
answered as by the queue; its length, its items by index and by iteration and the
outcome of `pop` are those of the queue, and no index leaves the array. -/
theorem fifo_exact [Inhabited T] [Movable T] (hsize : 0 < bufferSize) (calls : List (Call T)) :
    ∃ (b : Buffer T bufferSize) (queue : List T) (answers : List (Answer T)),
      TracedRun.run call (empty hsize) calls = .ok (b, answers) ∧
      TracedRun.run (fifoCall bufferSize) [] calls = .ok (queue, answers) ∧
      b.size = queue.length ∧
      (∀ index item, b.access index = .ok item ↔ queue[index]? = some item) ∧
      (∀ index, queue.length ≤ index →
        b.access index = .error (.throws (.outOfRange "index out of range"))) ∧
      Iterator.loop b.first b.last = .ok queue ∧
      (∀ a, b.pop = .error a ↔ queue = [] ∧ a = .throws (.outOfRange "buffer is empty")) ∧
      ∀ index, (b.getIndex index : ℕ) < bufferSize := by
  obtain ⟨b, queue, answers, hrun, hspec, rfl⟩ := (empty hsize : Buffer T bufferSize).run_eq_fifo
    calls
  refine ⟨b, b.toList, answers, hrun, hspec, b.length_toList.symm, ?_, ?_, ?_, ?_, ?_⟩
  · intro index item
    rw [access_eq]
    cases b.toList[index]? <;> simp
  · intro index hout
    rw [access_eq, List.getElem?_eq_none hout]
  · exact b.loop_eq 0 (Nat.zero_le _)
  · intro a
    cases hqueue : b.toList with
    | nil =>
      rw [b.pop_empty hqueue]
      simp [eq_comm]
    | cons item rest =>
      obtain ⟨b', hpop, -⟩ := b.pop_eq_ok hqueue
      rw [hpop]
      simp
  · exact fun index => (b.getIndex index).isLt

instance : Movable ℤ := ⟨fun item => item⟩

theorem fifo_exact_sample :
    ∃ (b : Buffer ℤ 1) (queue : List ℤ) (answers : List (Answer ℤ)),
      TracedRun.run call (empty (by decide)) [.push 1, .push 2, .access 0, .push 3, .pop, .pop] =
        .ok (b, answers) ∧
      TracedRun.run (fifoCall 1) [] [.push 1, .push 2, .access 0, .push 3, .pop, .pop] =
        .ok (queue, answers) ∧ b.size = queue.length := by
  have hsize : 0 < 1 := by decide
  obtain ⟨b, queue, answers, hrun, hspec, hlength, -⟩ := fifo_exact hsize
    ([.push 1, .push 2, .access 0, .push 3, .pop, .pop] : List (Call ℤ))
  exact ⟨b, queue, answers, hrun, hspec, hlength⟩

end SikUdp.Buffer
