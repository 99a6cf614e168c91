import Mathlib.Data.List.TakeWhile
import Mathlib.Tactic

/-!
# Terminated strings in memory

A string stored with a terminator is read from its first cell up to the first
terminator. `read` is the checked reading, which fails when it runs off the end
of the memory; `text` is the part of a cell sequence before its first
terminator.
-/
namespace NulTerminated

theorem set_overwritten {α : Type*} {nul : α} {cs memory : List α}
    (h : cs.length < memory.length) :
    (cs ++ memory.drop cs.length).set cs.length nul =
      cs ++ nul :: memory.drop (cs.length + 1) := by
  rw [List.set_append_right _ _ le_rfl, Nat.sub_self, List.drop_eq_getElem_cons h,
    List.set_cons_zero]

variable {α : Type*} [DecidableEq α] {nul : α}

/-- Read from the first cell up to the first terminator. -/
def read (nul : α) : List α → Option (List α)
  | [] => none
  | c :: cs => if c = nul then some [] else (read nul cs).map (c :: ·)

/-- The cells before the first terminator. -/
def text (nul : α) (cs : List α) : List α := cs.takeWhile (fun c => c ≠ nul)

@[simp] theorem text_nil : text nul [] = [] := rfl

theorem text_cons (c : α) (cs : List α) :
    text nul (c :: cs) = if c = nul then [] else c :: text nul cs := by
  by_cases h : c = nul <;> simp [text, h]

/-- A terminator written after some cells ends every reading that starts in them. -/
theorem read_append_nul (cs rest : List α) : read nul (cs ++ nul :: rest) = some (text nul cs) := by
  induction cs with
  | nil => simp [read]
  | cons c cs ih =>
    rw [List.cons_append, read, ih, text_cons]
    split_ifs <;> rfl

theorem read_eq (cs : List α) : read nul cs = if nul ∈ cs then some (text nul cs) else none := by
  induction cs with
  | nil => rfl
  | cons c cs ih =>
    rw [read, ih, text_cons]
    by_cases hc : c = nul
    · simp [hc]
    · by_cases hmem : nul ∈ cs
      · simp [hc, hmem]
      · simp [hc, hmem, Ne.symm hc]

theorem length_text_le (cs : List α) : (text nul cs).length ≤ cs.length :=
  (List.takeWhile_prefix _).length_le

theorem nul_notMem_text (cs : List α) : nul ∉ text nul cs := by
  intro h
  simpa using List.mem_takeWhile_imp h

theorem text_append_of_mem {cs : List α} (h : nul ∈ cs) (rest : List α) :
    text nul (cs ++ rest) = text nul cs := by
  induction cs with
  | nil => cases h
  | cons c cs ih =>
    rw [List.cons_append, text_cons, text_cons]
    by_cases hc : c = nul
    · simp [hc]
    · have hmem : nul ∈ cs := (List.mem_cons.mp h).resolve_left (Ne.symm hc)
      rw [if_neg hc, if_neg hc, ih hmem]

theorem text_eq_self_iff (cs : List α) : text nul cs = cs ↔ nul ∉ cs := by
  rw [text, List.takeWhile_eq_self_iff]
  simp only [decide_eq_true_eq]
  exact ⟨fun h hmem => h nul hmem rfl, fun h c hc he => h (he ▸ hc)⟩

theorem text_eq_nil_iff (cs : List α) : text nul cs = [] ↔ ∀ c, cs.head? = some c → c = nul := by
  cases cs with
  | nil => simp
  | cons c cs => by_cases h : c = nul <;> simp [text_cons, h]

theorem text_append_nul (cs : List α) : text nul (cs ++ [nul]) = text nul cs := by
  induction cs with
  | nil => simp [text_cons]
  | cons c cs ih => rw [List.cons_append, text_cons, text_cons, ih]

/-- Terminating the text gives the cells back exactly when the last cell is their only
terminator. -/
theorem text_concat_eq_iff {cs : List α} (h : cs.getLast? = some nul) :
    text nul cs ++ [nul] = cs ↔ nul ∉ cs.dropLast := by
  obtain ⟨front, rfl⟩ := List.getLast?_eq_some_iff.mp h
  rw [List.dropLast_concat, text_append_nul, List.append_left_inj, text_eq_self_iff]

end NulTerminated
