import Mathlib.Tactic

/-!
# Canonical decimal numerals

Byte strings of decimal digits and their values. `numeral` prints a number. Printing
and reading are inverse to each other on the numbers and the numerals without a leading
zero, so such a numeral is determined by its value.
-/
namespace Decimal

def isDigit (b : UInt8) : Bool := decide (48 ≤ b.toNat ∧ b.toNat ≤ 57)

def IsNumber (s : List UInt8) : Prop := s ≠ [] ∧ ∀ b ∈ s, isDigit b = true

instance : DecidablePred IsNumber := fun s =>
  decidable_of_iff (s ≠ [] ∧ s.all isDigit = true) (and_congr_right' List.all_eq_true)

def value (s : List UInt8) : ℕ := s.foldl (fun n b => 10 * n + (b.toNat - 48)) 0

/-- Digits only, and a zero in front only in `0` itself. -/
structure Canonical (s : List UInt8) : Prop where
  number : IsNumber s
  leading : s.head? = some 48 → s = [48]

/-- The digits of a number, the most significant one first. -/
def numeral (n : ℕ) : List UInt8 := (Nat.toDigits 10 n).map fun c => UInt8.ofNat c.toNat

theorem value_concat (s : List UInt8) (b : UInt8) :
    value (s ++ [b]) = 10 * value s + (b.toNat - 48) := by
  simp [value]

theorem isNumber_concat_iff (s : List UInt8) (b : UInt8) :
    IsNumber (s ++ [b]) ↔ (∀ c ∈ s, isDigit c = true) ∧ isDigit b = true := by
  simp [IsNumber, or_imp, forall_and]

theorem numeral_of_lt {d : ℕ} (h : d < 10) : numeral d = [UInt8.ofNat (48 + d)] := by
  rw [numeral, Nat.toDigits_of_lt_base h, List.map_singleton, Nat.toNat_digitChar_of_lt_ten h]

theorem numeral_digit {n d : ℕ} (hn : 0 < n) (hd : d < 10) :
    numeral (10 * n + d) = numeral n ++ [UInt8.ofNat (48 + d)] := by
  rw [← numeral_of_lt hd, numeral, ← Nat.toDigits_append_toDigits (by norm_num) hn hd,
    List.map_append]
  rfl

theorem toNat_digit {d : ℕ} (h : d < 10) : (UInt8.ofNat (48 + d)).toNat = 48 + d :=
  UInt8.toNat_ofNat_of_lt' (by rw [UInt8.size]; omega)

theorem isDigit_digit {d : ℕ} (h : d < 10) : isDigit (UInt8.ofNat (48 + d)) = true := by
  rw [isDigit, toNat_digit h, decide_eq_true_eq]
  omega

theorem numeral_ne_nil (n : ℕ) : numeral n ≠ [] := by
  simp [numeral, Nat.toDigits_ne_nil]

theorem value_numeral (n : ℕ) : value (numeral n) = n := by
  induction n using Nat.base_induction 10 (by norm_num) with
  | single d hd =>
    rw [numeral_of_lt hd, ← List.nil_append [_], value_concat, toNat_digit hd]
    simp [value]
  | digit n d hd hn ih =>
    rw [numeral_digit hn hd, value_concat, ih, toNat_digit hd]
    omega

theorem isNumber_numeral (n : ℕ) : IsNumber (numeral n) := by
  induction n using Nat.base_induction 10 (by norm_num) with
  | single d hd =>
    rw [numeral_of_lt hd, ← List.nil_append [_], isNumber_concat_iff]
    exact ⟨fun c hc => absurd hc List.not_mem_nil, isDigit_digit hd⟩
  | digit n d hd hn ih =>
    rw [numeral_digit hn hd, isNumber_concat_iff]
    exact ⟨ih.2, isDigit_digit hd⟩

theorem head_numeral (n : ℕ) (hn : 0 < n) : (numeral n).head? ≠ some 48 := by
  induction n using Nat.base_induction 10 (by norm_num) with
  | single d hd =>
    rw [numeral_of_lt hd, List.head?_cons]
    intro hzero
    have hbyte := congrArg UInt8.toNat (Option.some.inj hzero)
    rw [toNat_digit hd] at hbyte
    have hbyte' : 48 + d = 48 := hbyte
    omega
  | digit n d hd hpos ih =>
    rw [numeral_digit hpos hd, List.head?_append_of_ne_nil _ (numeral_ne_nil n)]
    exact ih hpos

theorem canonical_numeral (n : ℕ) : Canonical (numeral n) := by
  refine ⟨isNumber_numeral n, fun hzero => ?_⟩
  rcases Nat.eq_zero_or_pos n with rfl | hn
  · rfl
  · exact absurd hzero (head_numeral n hn)

theorem digit_of_isDigit {b : UInt8} (h : isDigit b = true) :
    b.toNat - 48 < 10 ∧ UInt8.ofNat (48 + (b.toNat - 48)) = b := by
  rw [isDigit, decide_eq_true_eq] at h
  have hsum : 48 + (b.toNat - 48) = b.toNat := by omega
  exact ⟨by omega, by rw [hsum, UInt8.ofNat_toNat]⟩

theorem numeral_value {s : List UInt8} (h : Canonical s) : numeral (value s) = s := by
  induction s using List.reverseRecOn with
  | nil => exact absurd rfl h.number.1
  | append_singleton front b ih =>
    obtain ⟨hfront, hb⟩ := (isNumber_concat_iff front b).mp h.number
    obtain ⟨hlt, hdigit⟩ := digit_of_isDigit hb
    rw [value_concat]
    by_cases hnil : front = []
    · subst hnil
      have hvalue : 10 * value [] + (b.toNat - 48) = b.toNat - 48 := Nat.zero_add _
      rw [hvalue, numeral_of_lt hlt, hdigit]
      rfl
    · -- a longer numeral begins with a digit other than zero, and so does its front
      have hhead : front.head? ≠ some 48 := by
        intro hzero
        have hall := h.leading (by rw [List.head?_append_of_ne_nil _ hnil, hzero])
        have hlen := congrArg List.length hall
        rw [List.length_append] at hlen
        exact hnil (List.length_eq_zero_iff.mp (by simpa using hlen))
      have hprint := ih ⟨⟨hnil, hfront⟩, fun hzero => absurd hzero hhead⟩
      have hpos : 0 < value front := by
        by_contra hzero
        rw [Nat.eq_zero_of_not_pos hzero] at hprint
        exact hhead (by rw [← hprint]; rfl)
      rw [numeral_digit hpos hlt, hprint, hdigit]

/-- Printing and reading are mutually inverse on canonical numerals. -/
theorem numeral_eq_iff {n : ℕ} {s : List UInt8} : numeral n = s ↔ Canonical s ∧ value s = n := by
  constructor
  · rintro rfl
    exact ⟨canonical_numeral n, value_numeral n⟩
  · rintro ⟨hcanonical, rfl⟩
    exact numeral_value hcanonical

end Decimal
