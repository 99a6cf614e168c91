import Mathlib.Data.List.Basic
import Mathlib.Tactic

/-!
# Texts that tell where they end

What is written one after another can be read back if every piece shows where it ends:
no two pieces continue to the same text unless they are equal. A piece can show it by a
separator that does not occur in it.
-/
namespace SelfDelimiting

variable {α β : Type*}

theorem separator_inj {p : β → Prop} {s t rest rest' : List β} {c : β} (hs : ∀ b ∈ s, p b)
    (ht : ∀ b ∈ t, p b) (hc : ¬ p c) (h : s ++ c :: rest = t ++ c :: rest') :
    s = t ∧ rest = rest' := by
  induction s generalizing t with
  | nil =>
    cases t with
    | nil => exact ⟨rfl, (List.cons.inj h).2⟩
    | cons b t => exact absurd ((List.cons.inj h).1 ▸ ht b List.mem_cons_self) hc
  | cons b s ih =>
    cases t with
    | nil => exact absurd ((List.cons.inj h).1 ▸ hs b List.mem_cons_self) hc
    | cons b' t =>
      rw [List.forall_mem_cons] at hs ht
      obtain ⟨rfl, htail⟩ := List.cons.inj h
      obtain ⟨rfl, hrest⟩ := ih hs.2 ht.2 htail
      exact ⟨rfl, hrest⟩

/-- Pieces that cannot be taken for one another, whatever is written behind them. -/
def Distinguished (encode : α → List β) (x y : α) : Prop :=
  ∀ rest rest', encode x ++ rest = encode y ++ rest' → x = y

/-- What was written can be read back. -/
theorem flatMap_inj {encode : α → List β} (hne : ∀ x, encode x ≠ []) {xs ys : List α}
    (hdistinguished : ∀ x ∈ xs, ∀ y ∈ ys, Distinguished encode x y)
    (h : xs.flatMap encode = ys.flatMap encode) : xs = ys := by
  induction xs generalizing ys with
  | nil =>
    cases ys with
    | nil => rfl
    | cons y ys => simp [hne] at h
  | cons x xs ih =>
    cases ys with
    | nil => simp [hne] at h
    | cons y ys =>
      rw [List.flatMap_cons, List.flatMap_cons] at h
      obtain rfl := hdistinguished x List.mem_cons_self y List.mem_cons_self _ _ h
      have htail := ih
        (fun x' hx' y' hy' => hdistinguished x' (List.mem_cons_of_mem _ hx') y'
          (List.mem_cons_of_mem _ hy'))
        (List.append_cancel_left h)
      rw [htail]

end SelfDelimiting
