import Mathlib.Order.Bounds.Basic
import SikUdp.Library.BoundedFifo

/-!
# How much a bounded queue loses

Items arrive at a queue and are taken from it, and an arrival at a full queue costs an item.
The number lost depends on the order of arrivals and takings alone: it is the greatest
excess of arrivals over takings and capacity that there has been at any moment.
-/
namespace Backlog

inductive Move where
  | arrive
  | take
  deriving DecidableEq

/-- By how much the arrivals exceed what was taken and what there is room for. -/
def excess (capacity : ℕ) (moves : List Move) : ℕ :=
  moves.count .arrive - (moves.count .take + capacity)

def excesses (capacity : ℕ) (moves : List Move) : Set ℕ :=
  {n | ∃ before, before <+: moves ∧ n = excess capacity before}

theorem excesses_nil (capacity : ℕ) : excesses capacity [] = {0} := by
  ext n
  simp [excesses, excess]

theorem excesses_concat (capacity : ℕ) (moves : List Move) (move : Move) :
    excesses capacity (moves ++ [move]) =
      insert (excess capacity (moves ++ [move])) (excesses capacity moves) := by
  ext n
  simp only [excesses, List.prefix_concat_iff, or_and_right, exists_or, exists_eq_left,
    Set.mem_insert_iff, Set.mem_ofPred_eq]

/-- A queue that has some items and has lost some, after a history that accounts for both. -/
structure Accounted (capacity : ℕ) (moves : List Move) (length lost : ℕ) : Prop where
  total : moves.count .arrive = moves.count .take + lost + length
  bounded : length ≤ capacity
  greatest : IsGreatest (excesses capacity moves) lost

namespace Accounted
variable {capacity length lost : ℕ} {moves : List Move}

theorem empty (capacity : ℕ) : Accounted capacity [] 0 0 where
  total := rfl
  bounded := Nat.zero_le capacity
  greatest := by
    rw [excesses_nil]
    exact isGreatest_singleton

/-- What a move adds to the history leaves the greatest excess or replaces it. -/
theorem concat (h : Accounted capacity moves length lost) {move : Move} {length' lost' : ℕ}
    (htotal : (moves ++ [move]).count .arrive =
      (moves ++ [move]).count .take + lost' + length')
    (hbounded : length' ≤ capacity)
    (hlost : max (excess capacity (moves ++ [move])) lost = lost') :
    Accounted capacity (moves ++ [move]) length' lost' where
  total := htotal
  bounded := hbounded
  greatest := by
    rw [excesses_concat, ← hlost]
    exact h.greatest.insert _

theorem arrive (h : Accounted capacity moves length lost) (hroom : length < capacity) :
    Accounted capacity (moves ++ [.arrive]) (length + 1) lost := by
  have htotal := h.total
  apply h.concat
  · simp
    omega
  · exact hroom
  · apply max_eq_right
    simp [excess]
    omega

theorem arrive_full (h : Accounted capacity moves capacity lost) :
    Accounted capacity (moves ++ [.arrive]) capacity (lost + 1) := by
  have htotal := h.total
  apply h.concat
  · simp
    omega
  · exact le_rfl
  · have hexcess : excess capacity (moves ++ [.arrive]) = lost + 1 := by
      simp [excess]
      omega
    rw [hexcess]
    exact max_eq_left (Nat.le_succ lost)

theorem push {α : Type*} {queue : List α} (h : Accounted capacity moves queue.length lost)
    (hc : 0 < capacity) (x : α) :
    Accounted capacity (moves ++ [.arrive]) (BoundedFifo.push capacity queue x).length
      (lost + (BoundedFifo.dropped capacity queue).toList.length) := by
  have hlength : (BoundedFifo.dropped capacity queue).toList.length +
      (BoundedFifo.push capacity queue x).length = queue.length + 1 := by
    rw [← List.length_append, BoundedFifo.dropped_append_push hc, List.length_append,
      List.length_singleton]
  by_cases hfull : queue.length = capacity
  · obtain ⟨y, rest, rfl⟩ := List.exists_cons_of_length_pos (hfull.symm ▸ hc)
    have hdropped : BoundedFifo.dropped capacity (y :: rest) = some y := if_pos hfull
    rw [hdropped, Option.toList_some, List.length_singleton] at hlength ⊢
    rw [hfull] at h
    have hpush : (BoundedFifo.push capacity (y :: rest) x).length = capacity := by omega
    rw [hpush]
    exact h.arrive_full
  · have hdropped : BoundedFifo.dropped capacity queue = none := if_neg hfull
    rw [hdropped, Option.toList_none, List.length_nil] at hlength ⊢
    have hpush : (BoundedFifo.push capacity queue x).length = queue.length + 1 := by omega
    rw [hpush]
    exact h.arrive (lt_of_le_of_ne h.bounded hfull)

theorem take (h : Accounted capacity moves (length + 1) lost) :
    Accounted capacity (moves ++ [.take]) length lost := by
  have htotal := h.total
  have hbounded := h.bounded
  apply h.concat
  · simp
    omega
  · exact (Nat.le_succ length).trans hbounded
  · apply max_eq_right
    simp [excess]
    omega

end Accounted
end Backlog
