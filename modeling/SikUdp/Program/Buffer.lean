import SikUdp.Program.System
import SikUdp.Library.BoundedFifo

/-!
# The cyclic buffer

`Buffer` keeps its items in an array of `bufferSize` cells, from `start` on and
wrapping around. Its content, oldest item first, is `toList`; pushing and
popping act on it as on a bounded queue that drops its oldest item.
-/
namespace SikUdp

/-- What moving out of a value leaves behind in it. -/
class Movable (T : Type) where
  movedFrom : T → T

structure Buffer (T : Type) (bufferSize : ℕ) where
  data : Vector T bufferSize
  start : ℕ
  length : ℕ
  start_lt : start < bufferSize
  length_le : length ≤ bufferSize

namespace Buffer

variable {T : Type} {bufferSize : ℕ}

/-- A default-constructed buffer; the size is positive by `static_assert`. -/
def empty [Inhabited T] (hsize : 0 < bufferSize) : Buffer T bufferSize :=
  ⟨Vector.replicate bufferSize default, 0, 0, hsize, Nat.zero_le _⟩

theorem size_pos (b : Buffer T bufferSize) : 0 < bufferSize := (Nat.zero_le _).trans_lt b.start_lt

variable (b : Buffer T bufferSize)

def increaseIndex : Buffer T bufferSize :=
  { b with start := (b.start + 1) % bufferSize, start_lt := Nat.mod_lt _ b.size_pos }

def getIndex (index : ℕ) : Fin bufferSize :=
  ⟨(b.start + index) % bufferSize, Nat.mod_lt _ b.size_pos⟩

/-- `data[get_index(index)]`. -/
def cell (index : ℕ) : T := b.data[b.getIndex index]

/-- `operator[]`. -/
def access (index : ℕ) : Except Abort T :=
  if index ≥ b.length then .error (.throws (.outOfRange "index out of range"))
  else .ok (b.cell index)

def size : ℕ := b.length

theorem lt_length_of_access {index : ℕ} {item : T} (h : b.access index = .ok item) :
    index < b.length := by
  unfold access at h
  split_ifs at h with hout
  omega

def store (index : ℕ) (item : T) : Buffer T bufferSize :=
  { b with data := b.data.set (b.getIndex index) item }

/-- Make room for one more item, which in a full buffer is the cell of the first. -/
def makeRoom : Buffer T bufferSize :=
  if h : b.length = bufferSize then b.increaseIndex
  else { b with length := b.length + 1, length_le := by have := b.length_le; omega }

def push (item : T) : Buffer T bufferSize :=
  b.makeRoom.store (b.makeRoom.length - 1) item

def shorten : Buffer T bufferSize :=
  { b with length := b.length - 1, length_le := (Nat.sub_le _ _).trans b.length_le }

def pop [Movable T] : Except Abort (T × Buffer T bufferSize) :=
  if b.length = 0 then .error (.throws (.outOfRange "buffer is empty"))
  else do
    let item ← b.access 0
    .ok (item, (b.store 0 (Movable.movedFrom item)).increaseIndex.shorten)

/-- The items of the buffer, oldest first. -/
def toList : List T := (List.range b.length).map b.cell

@[simp] theorem length_toList : b.toList.length = b.length := by simp [toList]

theorem getElem_toList {i : ℕ} (h : i < b.toList.length) : b.toList[i] = b.cell i := by
  simp [toList]

@[simp] theorem toList_empty [Inhabited T] (hsize : 0 < bufferSize) :
    (empty hsize : Buffer T bufferSize).toList = [] := rfl

theorem size_pos_iff : b.size > 0 ↔ b.toList ≠ [] := by
  rw [← List.length_pos_iff, length_toList]
  rfl

theorem getIndex_inj {i j : ℕ} (hi : i < bufferSize) (hj : j < bufferSize) :
    (b.getIndex i : ℕ) = b.getIndex j ↔ i = j := by
  constructor
  · intro h
    have hmod : (b.start + i) ≡ (b.start + j) [MOD bufferSize] := h
    have hij : i ≡ j [MOD bufferSize] := Nat.ModEq.add_left_cancel' b.start hmod
    rwa [Nat.ModEq, Nat.mod_eq_of_lt hi, Nat.mod_eq_of_lt hj] at hij
  · rintro rfl
    rfl

theorem cell_increaseIndex (i : ℕ) : b.increaseIndex.cell i = b.cell (i + 1) := by
  have hindex : b.increaseIndex.getIndex i = b.getIndex (i + 1) := by
    apply Fin.ext
    simp only [getIndex, increaseIndex, Nat.mod_add_mod]
    congr 1
    omega
  exact congrArg (fun c : Fin bufferSize => b.data[c]) hindex

theorem cell_store {i j : ℕ} (item : T) (hi : i < bufferSize) (hj : j < bufferSize) :
    (b.store i item).cell j = if j = i then item else b.cell j := by
  have hget : (b.store i item).cell j = (b.data.set (b.getIndex i) item)[b.getIndex j] := rfl
  rw [hget, Fin.getElem_fin, Vector.getElem_set]
  simp only [b.getIndex_inj hi hj, eq_comm (a := i)]
  rfl

/-- Pushing appends the item; a full buffer loses its oldest one. -/
theorem toList_push (item : T) :
    (b.push item).toList = BoundedFifo.push bufferSize b.toList item := by
  have hpos := b.size_pos
  have hle := b.length_le
  have hstore : (b.push item).length = b.makeRoom.length := rfl
  unfold BoundedFifo.push
  rw [length_toList]
  split_ifs with hfull
  · have hroom : b.makeRoom = b.increaseIndex := dif_pos hfull
    have hlen : b.makeRoom.length = b.length := by rw [hroom]; rfl
    apply List.ext_getElem
    · simp only [length_toList, List.length_append, List.length_tail, List.length_singleton, hstore,
        hlen]
      omega
    · intro i hi hi'
      rw [length_toList, hstore, hlen] at hi
      rw [getElem_toList, push, cell_store _ _ (by omega) (by omega), hlen]
      split_ifs with hlast
      · rw [List.getElem_append_right (by simp; omega)]
        simp
      · rw [List.getElem_append_left (by simp; omega), List.getElem_tail, getElem_toList, hroom,
          cell_increaseIndex]
  · have hroom : b.makeRoom = { b with length := b.length + 1, length_le := by omega } :=
      dif_neg hfull
    have hlen : b.makeRoom.length = b.length + 1 := by rw [hroom]
    apply List.ext_getElem
    · simp only [length_toList, List.length_append, List.length_singleton, hstore, hlen]
    · intro i hi hi'
      rw [length_toList, hstore, hlen] at hi
      rw [getElem_toList, push, cell_store _ _ (by omega) (by omega), hlen]
      split_ifs with hlast
      · rw [List.getElem_append_right (by simp; omega)]
        simp
      · rw [List.getElem_append_left (by simp; omega), getElem_toList, hroom]
        rfl

/-- Popping removes the oldest item, whatever is left in its cell. -/
theorem pop_eq_ok [Movable T] {item : T} {rest : List T} (h : b.toList = item :: rest) :
    ∃ b', b.pop = .ok (item, b') ∧ b'.toList = rest := by
  have hle := b.length_le
  have hlen : b.length = rest.length + 1 := by rw [← length_toList, h, List.length_cons]
  have hitem : b.cell 0 = item := by
    rw [← getElem_toList b (by rw [h]; simp)]
    simp [h]
  refine ⟨(b.store 0 (Movable.movedFrom item)).increaseIndex.shorten, ?_, ?_⟩
  · rw [pop, if_neg (by omega), access, if_neg (by omega), hitem]
    rfl
  · apply List.ext_getElem
    · rw [length_toList]
      change b.length - 1 = _
      omega
    · intro i hi hi'
      have hnext : b.cell (i + 1) = rest[i] := by
        rw [← getElem_toList b (by rw [h]; simpa using hi')]
        simp [h]
      rw [getElem_toList, ← hnext]
      change (b.store 0 (Movable.movedFrom item)).increaseIndex.cell i = _
      rw [cell_increaseIndex, cell_store _ _ b.size_pos (by omega), if_neg (by omega)]

theorem toList_of_pop [Movable T] {item : T} {b' : Buffer T bufferSize}
    (h : b.pop = .ok (item, b')) : b.toList = item :: b'.toList := by
  cases hl : b.toList with
  | nil =>
    have hempty : b.length = 0 := by rw [← length_toList, hl, List.length_nil]
    rw [pop, if_pos hempty] at h
    cases h
  | cons first rest =>
    obtain ⟨b'', hpop, hrest⟩ := b.pop_eq_ok hl
    rw [hpop] at h
    cases h
    rw [hrest]

/-- The class `iterator`: the buffer it points to and an index. -/
structure Iterator (T : Type) (bufferSize : ℕ) where
  buffer : Buffer T bufferSize
  index : ℕ

namespace Iterator

/-- `operator++`. -/
def next (it : Iterator T bufferSize) : Iterator T bufferSize := { it with index := it.index + 1 }

/-- `operator!=`, which compares the indices alone. -/
def differs (it other : Iterator T bufferSize) : Bool := decide (it.index ≠ other.index)

/-- `operator*`. -/
def deref (it : Iterator T bufferSize) : Except Abort T := it.buffer.access it.index

/-- A range based loop from one iterator to another: the items it visits. -/
def loop (it last : Iterator T bufferSize) : Except Abort (List T) :=
  if it.differs last then
    match _hitem : it.deref with
    | .error a => .error a
    | .ok item => (loop it.next last).map (item :: ·)
  else .ok []
termination_by it.buffer.length - it.index
decreasing_by
  have hlt := it.buffer.lt_length_of_access _hitem
  simp only [next]
  omega

end Iterator

/-- `begin()`. -/
def first : Iterator T bufferSize := ⟨b, 0⟩

/-- `end()`. -/
def last : Iterator T bufferSize := ⟨b, b.length⟩

end Buffer
end SikUdp
