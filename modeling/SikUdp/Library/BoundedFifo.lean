import Mathlib.Tactic

/-!
# A bounded queue that drops its oldest item

The abstract queue is a list with its oldest item first. Pushing onto a full
queue drops the head. Nothing else is lost: the dropped item, if any, followed
by the new content is the old content followed by the new item.
-/
namespace BoundedFifo

variable {α : Type*} {capacity : ℕ} {queue : List α}

def dropped (capacity : ℕ) (queue : List α) : Option α :=
  if queue.length = capacity then queue.head? else none

def push (capacity : ℕ) (queue : List α) (x : α) : List α :=
  if queue.length = capacity then queue.tail ++ [x] else queue ++ [x]

theorem dropped_append_push (hc : 0 < capacity) (x : α) :
    (dropped capacity queue).toList ++ push capacity queue x = queue ++ [x] := by
  unfold dropped push
  split_ifs with hfull
  · cases queue with
    | nil => simp at hfull; omega
    | cons y queue => simp
  · simp

theorem mem_of_mem_push {x y : α} (h : y ∈ push capacity queue x) : y ∈ queue ∨ y = x := by
  unfold push at h
  split_ifs at h
  · rcases List.mem_append.mp h with h | h
    · exact Or.inl (List.mem_of_mem_tail h)
    · exact Or.inr (List.mem_singleton.mp h)
  · rcases List.mem_append.mp h with h | h
    · exact Or.inl h
    · exact Or.inr (List.mem_singleton.mp h)

theorem dropped_eq_some {x : α} (h : dropped capacity queue = some x) :
    queue.length = capacity ∧ ∃ rest, queue = x :: rest := by
  unfold dropped at h
  split_ifs at h with hfull
  exact ⟨hfull, List.head?_eq_some_iff.mp h⟩

/-- Append an item; if there is one too many then, drop the head. -/
def enqueue (capacity : ℕ) (queue : List α) (x : α) : List α :=
  if (queue ++ [x]).length > capacity then (queue ++ [x]).tail else queue ++ [x]

theorem push_eq_enqueue (hc : 0 < capacity) (hle : queue.length ≤ capacity) (x : α) :
    push capacity queue x = enqueue capacity queue x := by
  unfold push enqueue
  by_cases hfull : queue.length = capacity
  · have hne : queue ≠ [] := List.ne_nil_of_length_pos (by omega)
    rw [if_pos hfull, if_pos (by simp; omega), List.tail_append_of_ne_nil hne]
  · rw [if_neg hfull, if_neg (by simp; omega)]

end BoundedFifo
