import Mathlib.Data.List.TakeWhile
import Mathlib.Order.Interval.Set.LinearOrder
import Mathlib.Tactic

/-!
# Queues of disjoint closed intervals

A queue of intervals, oldest first, stands for the set of points it covers. In a
separated queue every interval is proper and ends strictly before the next one
begins, so once the intervals ending before `x` have been discarded from the
front, only the front interval can contain `x`. The set to be represented is a
union of windows of one width that begin at given times.
-/
namespace IntervalQueue

variable {α : Type*} [LinearOrder α]

/-- The points contained in some interval of the queue. -/
def covered (q : List (α × α)) : Set α := {x | ∃ p ∈ q, x ∈ Set.Icc p.1 p.2}

theorem mem_covered {q : List (α × α)} {x : α} :
    x ∈ covered q ↔ ∃ p ∈ q, p.1 ≤ x ∧ x ≤ p.2 := Iff.rfl

theorem covered_append (q r : List (α × α)) : covered (q ++ r) = covered q ∪ covered r := by
  ext x
  simp [mem_covered, or_and_right, exists_or]

@[simp] theorem covered_singleton (p : α × α) : covered [p] = Set.Icc p.1 p.2 := by
  ext x
  simp [mem_covered]

/-- Moving the end of the last interval outwards adds the window that begins inside it. -/
theorem covered_extend (q : List (α × α)) {f b t e : α} (hft : f ≤ t) (htb : t ≤ b) (hbe : b ≤ e) :
    covered (q ++ [(f, e)]) = covered (q ++ [(f, b)]) ∪ Set.Icc t e := by
  have hicc : Set.Icc f b ∪ Set.Icc t e = Set.Icc f e := by
    rw [Set.Icc_union_Icc' htb (hft.trans (htb.trans hbe)), min_eq_left hft, max_eq_right hbe]
  rw [covered_append, covered_append, covered_singleton, covered_singleton, Set.union_assoc, hicc]

theorem covered_mono {q r : List (α × α)} (h : q ⊆ r) : covered q ⊆ covered r := by
  rintro x ⟨p, hp, hx⟩
  exact ⟨p, h hp, hx⟩

theorem covered_extend_subset (q : List (α × α)) {f b t e : α} (htb : t ≤ b) :
    covered (q ++ [(f, e)]) ⊆ covered (q ++ [(f, b)]) ∪ Set.Icc t e := by
  rw [covered_append, covered_append, covered_singleton, covered_singleton, Set.union_assoc]
  apply Set.union_subset_union_right
  intro x hx
  rcases le_total x b with hxb | hbx
  · exact Or.inl ⟨hx.1, hxb⟩
  · exact Or.inr ⟨htb.trans hbx, hx.2⟩

/-- Proper intervals, each ending before the next begins. -/
structure Separated (q : List (α × α)) : Prop where
  proper : ∀ p ∈ q, p.1 ≤ p.2
  apart : q.Pairwise (fun p r => p.2 < r.1)

theorem Separated.sublist {q r : List (α × α)} (h : Separated r) (hs : q.Sublist r) :
    Separated q :=
  ⟨fun p hp => h.proper p (hs.subset hp), h.apart.sublist hs⟩

theorem separated_singleton {t e : α} (h : t ≤ e) : Separated [(t, e)] :=
  ⟨by simpa using h, List.pairwise_singleton _ _⟩

theorem Separated.concat {q : List (α × α)} (h : Separated q) {t e : α} (hte : t ≤ e)
    (hlast : ∀ p ∈ q, p.2 < t) : Separated (q ++ [(t, e)]) := by
  constructor
  · intro p hp
    rcases List.mem_append.mp hp with hp | hp
    · exact h.proper p hp
    · rw [List.mem_singleton.mp hp]
      exact hte
  · rw [List.pairwise_append]
    exact ⟨h.apart, List.pairwise_singleton _ _, fun p hp r hr => by
      rw [List.mem_singleton.mp hr]; exact hlast p hp⟩

theorem Separated.extend {q : List (α × α)} {f b e : α} (h : Separated (q ++ [(f, b)]))
    (hfe : f ≤ e) : Separated (q ++ [(f, e)]) := by
  have hq := h.sublist (List.sublist_append_left q [(f, b)])
  exact hq.concat hfe fun p hp => (List.pairwise_append.mp h.apart).2.2 p hp (f, b) (by simp)

theorem Separated.le_last {q : List (α × α)} {p last : α × α} (h : Separated (q ++ [last]))
    (hp : p ∈ q ++ [last]) : p.2 ≤ last.2 := by
  rcases List.mem_append.mp hp with hp | hp
  · have hlt := (List.pairwise_append.mp h.apart).2.2 p hp last (by simp)
    exact (hlt.trans_le (h.proper last (by simp))).le
  · rw [List.mem_singleton.mp hp]

theorem Separated.notMem_shorten {q : List (α × α)} {f b e : α} (h : Separated (q ++ [(f, b)]))
    (heb : e < b) : b ∉ covered (q ++ [(f, e)]) := by
  rintro ⟨p, hp, -, hb⟩
  rcases List.mem_append.mp hp with hp | hp
  · have hlt : p.2 < f := (List.pairwise_append.mp h.apart).2.2 p hp (f, b) (by simp)
    have hfb : f ≤ b := h.proper (f, b) (by simp)
    exact absurd (hb.trans_lt (hlt.trans_le hfb)) (lt_irrefl b)
  · rw [List.mem_singleton.mp hp] at hb
    exact absurd (hb.trans_lt heb) (lt_irrefl b)

/-- Drop the intervals at the front that end before `x`. -/
def discard (x : α) (q : List (α × α)) : List (α × α) := q.dropWhile (fun p => p.2 < x)

theorem discard_sublist (x : α) (q : List (α × α)) : (discard x q).Sublist q :=
  (List.dropWhile_suffix _).sublist

theorem discard_eq_nil_iff {x : α} {q : List (α × α)} : discard x q = [] ↔ ∀ p ∈ q, p.2 < x := by
  simp only [discard, List.dropWhile_eq_nil_iff, decide_eq_true_eq]

theorem covered_discard (q : List (α × α)) {x y : α} (hxy : x ≤ y) :
    y ∈ covered (discard x q) ↔ y ∈ covered q := by
  induction q with
  | nil => rfl
  | cons p q ih =>
    by_cases hp : p.2 < x
    · have hy : ¬ y ≤ p.2 := not_le.mpr (hp.trans_le hxy)
      have hd : discard x (p :: q) = discard x q := by simp [discard, hp]
      rw [hd, ih, mem_covered, mem_covered]
      simp [hy]
    · simp [discard, hp]

theorem le_end_of_head_discard {x : α} {q : List (α × α)} {p : α × α}
    (h : (discard x q).head? = some p) : x ≤ p.2 := by
  have hn := List.head?_dropWhile_not (fun p : α × α => p.2 < x) q
  rw [discard] at h
  rw [h] at hn
  simpa using hn

/-- After discarding, testing the front interval alone decides coverage. -/
theorem Separated.front_iff {q : List (α × α)} (h : Separated q) (x : α) :
    (∃ p, (discard x q).head? = some p ∧ p.1 ≤ x ∧ x ≤ p.2) ↔ x ∈ covered q := by
  rw [← covered_discard q le_rfl]
  constructor
  · rintro ⟨p, hp, hx⟩
    exact ⟨p, List.mem_of_head? hp, hx⟩
  · rintro ⟨p, hp, hx⟩
    cases hd : discard x q with
    | nil => simp [hd] at hp
    | cons front later =>
      have hfront : x ≤ front.2 := le_end_of_head_discard (q := q) (by rw [hd]; rfl)
      rw [hd] at hp
      rcases List.mem_cons.mp hp with rfl | hp
      · exact ⟨p, rfl, hx⟩
      · have hsep := h.sublist (discard_sublist x q)
        rw [hd] at hsep
        have hlt := (List.pairwise_cons.mp hsep.apart).1 p hp
        exact absurd (hfront.trans_lt (hlt.trans_le hx.1)) (lt_irrefl x)

theorem discard_concat (front : List (α × α)) {x : α} {last : α × α} (h : x ≤ last.2) :
    ∃ front', discard x (front ++ [last]) = front' ++ [last] := by
  induction front with
  | nil => exact ⟨[], by simp [discard, h]⟩
  | cons p front ih =>
    by_cases hp : p.2 < x
    · obtain ⟨front', hfront'⟩ := ih
      refine ⟨front', ?_⟩
      rw [← hfront']
      simp [discard, hp]
    · exact ⟨p :: front, by simp [discard, hp]⟩

/-- Intervals of one width that are apart fill the time they begin in. -/
theorem Separated.filled {q : List (ℤ × ℤ)} (h : Separated q) {width first latest : ℤ}
    (hwide : ∀ p ∈ q, p.1 + width ≤ p.2) (hfirst : ∀ p ∈ q, first ≤ p.1)
    (hlatest : ∀ p ∈ q, p.1 ≤ latest) (hne : q ≠ []) :
    ((q.length : ℤ) - 1) * (width + 1) ≤ latest - first := by
  induction q generalizing first with
  | nil => exact absurd rfl hne
  | cons p q ih =>
    rw [List.forall_mem_cons] at hwide hfirst hlatest
    rcases eq_or_ne q [] with rfl | hq
    · have hle := hfirst.1.trans hlatest.1
      simpa using hle
    · obtain ⟨hbehind, hapart⟩ := List.pairwise_cons.mp h.apart
      have hrest := ih (h.sublist (List.sublist_cons_self p q)) hwide.2
        (fun r hr => Int.add_one_le_iff.mpr (hbehind r hr)) hlatest.2 hq
      have hstart := hfirst.1
      have hend := hwide.1
      have hlength : (((p :: q).length : ℤ) - 1) * (width + 1) =
          ((q.length : ℤ) - 1) * (width + 1) + (width + 1) := by
        rw [List.length_cons]
        push_cast
        ring
      rw [hlength]
      omega

variable [Add α]

/-- The union of the windows of one width that begin at the given times. -/
def windows (width : α) (times : Set α) : Set α := {x | ∃ t ∈ times, t ≤ x ∧ x ≤ t + width}

theorem windows_insert (width t : α) (times : Set α) :
    windows width (insert t times) = windows width times ∪ Set.Icc t (t + width) := by
  ext x
  simp only [windows, Set.mem_insert_iff, exists_eq_or_imp, Set.mem_ofPred_eq, Set.mem_union,
    Set.mem_Icc]
  exact or_comm

end IntervalQueue
