import Mathlib.Algebra.BigOperators.Intervals
import Mathlib.Tactic

/-!
# Years of the proleptic Gregorian calendar

`yearAfter` walks from the first of January of a year over a number of days, one year at
a time. Against `daysBefore`, the days of all earlier years, the walk becomes a single
comparison, and `daysBefore` has a closed form.
-/
namespace Gregorian

open Finset

/-- Every fourth year, but of the full centuries only every fourth. -/
def IsLeap (year : ℕ) : Prop := year % 4 = 0 ∧ (year % 100 = 0 → year % 400 = 0)

instance (year : ℕ) : Decidable (IsLeap year) :=
  inferInstanceAs (Decidable (_ ∧ (_ → _)))

def daysInYear (year : ℕ) : ℕ := if IsLeap year then 366 else 365

/-- The days from the first of January of year 0 to that of `year`. -/
def daysBefore (year : ℕ) : ℕ := ∑ y ∈ range year, daysInYear y

theorem daysInYear_pos (year : ℕ) : 0 < daysInYear year := by
  unfold daysInYear
  split_ifs <;> omega

@[simp] theorem daysBefore_succ (year : ℕ) :
    daysBefore (year + 1) = daysBefore year + daysInYear year := sum_range_succ _ _

theorem daysBefore_mono : Monotone daysBefore :=
  monotone_nat_of_le_succ fun year => by simp

theorem daysBefore_eq (year : ℕ) :
    daysBefore year + (year + 99) / 100 = 365 * year + (year + 3) / 4 + (year + 399) / 400 := by
  induction year with
  | zero => rfl
  | succ year ih =>
    rw [daysBefore_succ]
    by_cases hleap : IsLeap year
    · rw [daysInYear, if_pos hleap]
      obtain ⟨hfourth, hcentury⟩ := hleap
      by_cases hfull : year % 100 = 0
      · have hlong := hcentury hfull
        omega
      · omega
    · rw [daysInYear, if_neg hleap]
      rcases not_and_or.mp hleap with hfourth | hcentury
      · have hfours : (year + 1 + 3) / 4 = (year + 3) / 4 := by omega
        have hhundreds : (year + 1 + 99) / 100 = (year + 99) / 100 := by omega
        have hcycles : (year + 1 + 399) / 400 = (year + 399) / 400 := by omega
        omega
      · obtain ⟨hfull, hlong⟩ := Classical.not_imp.mp hcentury
        omega

def yearAfter (year days : ℕ) : ℕ :=
  if days < daysInYear year then year else yearAfter (year + 1) (days - daysInYear year)
termination_by days
decreasing_by
  have hpos := daysInYear_pos year
  omega

/-- The day lies in `last` or before exactly if the next year has not begun. -/
theorem yearAfter_le_iff (year days last : ℕ) :
    yearAfter year days ≤ last ↔ daysBefore year + days < daysBefore (last + 1) := by
  induction year, days using yearAfter.induct with
  | case1 year days hin =>
    rw [yearAfter, if_pos hin]
    constructor
    · intro hle
      have hmono : daysBefore (year + 1) ≤ daysBefore (last + 1) := daysBefore_mono (by omega)
      rw [daysBefore_succ] at hmono
      omega
    · intro hlt
      by_contra hgt
      have hmono : daysBefore (last + 1) ≤ daysBefore year := daysBefore_mono (by omega)
      omega
  | case2 year days hout ih =>
    rw [yearAfter, if_neg hout, ih, daysBefore_succ]
    have hsplit : daysBefore year + daysInYear year + (days - daysInYear year) =
        daysBefore year + days := by omega
    rw [hsplit]

theorem le_yearAfter (year days : ℕ) : year ≤ yearAfter year days := by
  induction year, days using yearAfter.induct with
  | case1 year days hin => rw [yearAfter, if_pos hin]
  | case2 year days hout ih =>
    rw [yearAfter, if_neg hout]
    omega

/-- The UTC year of the instant `seconds` seconds after the beginning of 1970. -/
def utcYear (seconds : ℕ) : ℕ := yearAfter 1970 (seconds / 86400)

theorem le_utcYear (seconds : ℕ) : 1970 ≤ utcYear seconds := le_yearAfter 1970 _

theorem utcYear_le_iff (seconds last : ℕ) :
    utcYear seconds ≤ last ↔ 719528 + seconds / 86400 < daysBefore (last + 1) := by
  have hepoch : daysBefore 1970 = 719528 := by
    have heq := daysBefore_eq 1970
    omega
  rw [utcYear, yearAfter_le_iff, hepoch]

end Gregorian
