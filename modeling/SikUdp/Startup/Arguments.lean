import SikUdp.Program.Parse
import SikUdp.Library.TracedRun

/-!
# Accepted numeric arguments

The conversion takes signs, leading zeros and, behind a minus, numbers that wrap around.
Printing the number back and comparing the texts leaves the canonical numeral only.
-/
namespace SikUdp

open Decimal

namespace LexicalCast

variable {bits : ℕ} {cast : LexicalCast bits} (h : cast.Documented)
include h

theorem Documented.fails_cleanly (input : List UInt8) :
    (∃ number, cast.fromString input = .ok number) ∨
      cast.fromString input = .error .badLexicalCast := by
  by_cases haccepts : ∃ sign digits, Accepts bits sign digits input
  · obtain ⟨sign, digits, haccepts⟩ := haccepts
    exact Or.inl ⟨_, h.accepts sign digits input haccepts⟩
  · refine Or.inr (h.rejects input fun sign digits hin => ?_)
    exact haccepts ⟨sign, digits, hin⟩

theorem Documented.fromString_numeral (number : BitVec bits) :
    cast.fromString (numeral number.toNat) = .ok number := by
  have haccepts : Accepts bits .none (numeral number.toNat) (numeral number.toNat) := by
    refine ⟨rfl, isNumber_numeral _, ?_⟩
    rw [value_numeral]
    exact number.isLt
  rw [h.accepts _ _ _ haccepts, value_numeral, BitVec.ofNat_toNat, BitVec.setWidth_eq]
  rfl

end LexicalCast

def Sign.split : List UInt8 → Sign × List UInt8
  | 43 :: digits => (.plus, digits)
  | 45 :: digits => (.minus, digits)
  | digits => (.none, digits)

theorem Sign.spelling_split (input : List UInt8) :
    input = (split input).1.spelling ++ (split input).2 := by
  unfold split
  split <;> rfl

theorem Sign.split_spelling (sign : Sign) {digits : List UInt8} (h : IsNumber digits) :
    split (sign.spelling ++ digits) = (sign, digits) := by
  cases sign with
  | plus => rfl
  | minus => rfl
  | none =>
    obtain ⟨hne, hdigits⟩ := h
    change split digits = (Sign.none, digits)
    unfold split
    split
    · exact absurd (hdigits 43 (List.mem_cons_self ..)) (by decide)
    · exact absurd (hdigits 45 (List.mem_cons_self ..)) (by decide)
    · rfl

/-- The sign and the digits are told apart by the first byte. -/
def LexicalCast.standard (bits : ℕ) : LexicalCast bits where
  fromString input :=
    if IsNumber (Sign.split input).2 ∧ value (Sign.split input).2 < 2 ^ bits then
      .ok ((Sign.split input).1.apply (BitVec.ofNat bits (value (Sign.split input).2)))
    else .error .badLexicalCast
  toString number := .ok (numeral number.toNat)

theorem LexicalCast.standard_documented (bits : ℕ) : (standard bits).Documented where
  accepts := by
    rintro sign digits input ⟨rfl, hnumber, hlt⟩
    unfold standard
    dsimp only
    rw [sign.split_spelling hnumber]
    exact if_pos ⟨hnumber, hlt⟩
  rejects := by
    intro input hrejects
    refine if_neg fun ⟨hnumber, hlt⟩ => ?_
    exact hrejects _ _ ⟨Sign.spelling_split input, hnumber, hlt⟩
  prints := fun _ => rfl

section ParseNumber

variable {bits : ℕ} {cast : LexicalCast bits} (refused : BitVec bits → Bool) (message : String)

theorem parseNumber_unconverted {input : List UInt8}
    (hcast : cast.fromString input = .error .badLexicalCast) :
    parseNumber cast refused message input = .error (.parseException message) := by
  unfold parseNumber
  rw [hcast]
  rfl

variable (h : cast.Documented)
include h

/-- After a conversion the texts and the number are compared; any failure is a
`ParseException`. -/
theorem parseNumber_converted {input : List UInt8} {number : BitVec bits}
    (hcast : cast.fromString input = .ok number) :
    parseNumber cast refused message input =
      if numeral number.toNat ≠ input ∨ refused number = true then
        .error (.parseException message)
      else .ok number := by
  unfold parseNumber
  rw [hcast]
  simp only [Bind.bind, Except.bind, h.prints number]
  by_cases hdiffers : numeral number.toNat ≠ input ∨ refused number = true
  · rw [if_pos hdiffers]
  · rw [if_neg hdiffers]

theorem parseNumber_eq_ok_iff {input : List UInt8} {number : BitVec bits} :
    parseNumber cast refused message input = .ok number ↔
      refused number = false ∧ numeral number.toNat = input := by
  constructor
  · intro hparse
    rcases h.fails_cleanly input with ⟨converted, hcast⟩ | hcast
    · rw [parseNumber_converted refused message h hcast] at hparse
      split_ifs at hparse with hdiffers
      cases hparse
      obtain ⟨hsame, haccepted⟩ := not_or.mp hdiffers
      exact ⟨Bool.eq_false_iff.mpr haccepted, not_not.mp hsame⟩
    · rw [parseNumber_unconverted refused message hcast] at hparse
      cases hparse
  · rintro ⟨haccepted, rfl⟩
    rw [parseNumber_converted refused message h (h.fromString_numeral number)]
    exact if_neg (by simp [haccepted])

theorem map_parseNumber_eq_ok_iff {input : List UInt8} {N : Type} {ofBits : BitVec bits → N}
    {toBits : N → BitVec bits} (hleft : Function.LeftInverse ofBits toBits)
    (hright : Function.RightInverse ofBits toBits) {n : N} :
    (parseNumber cast refused message input).map ofBits = .ok n ↔
      refused (toBits n) = false ∧ Canonical input ∧ value input = (toBits n).toNat := by
  rw [TracedRun.map_ok_iff, ← numeral_eq_iff, ← parseNumber_eq_ok_iff refused message h]
  constructor
  · rintro ⟨number, hparse, rfl⟩
    rwa [hright number]
  · exact fun hparse => ⟨toBits n, hparse, hleft n⟩

theorem map_parseNumber_error {input : List UInt8} {N : Type} {f : BitVec bits → N}
    (hfails : ∀ n, (parseNumber cast refused message input).map f ≠ .ok n) :
    (parseNumber cast refused message input).map f = .error (.parseException message) := by
  rcases h.fails_cleanly input with ⟨converted, hcast⟩ | hcast
  · have hconverted := parseNumber_converted refused message h hcast
    split_ifs at hconverted
    · rw [hconverted]
      rfl
    · exact absurd (TracedRun.map_ok_iff.mpr ⟨converted, hconverted, rfl⟩) (hfails _)
  · rw [parseNumber_unconverted refused message hcast]
    rfl

end ParseNumber

theorem parsePort_eq_ok_iff {cast : LexicalCast 16} (h : cast.Documented) {input : List UInt8}
    {port : UInt16} :
    parsePort cast input = .ok port ↔
      (1 ≤ port.toNat ∧ port.toNat ≤ 65535) ∧ Canonical input ∧ value input = port.toNat := by
  have hle : port.toNat ≤ 65535 := Nat.le_of_lt_succ port.toNat_lt
  have hzero : decide (port.toBitVec = 0) = false ↔ 1 ≤ port.toNat := by
    rw [decide_eq_false_iff_not, ← BitVec.toNat_inj, Nat.one_le_iff_ne_zero]
    rfl
  rw [and_iff_left hle, ← hzero]
  exact map_parseNumber_eq_ok_iff _ _ h (fun _ => rfl) (fun _ => rfl)

theorem parseTimestamp_eq_ok_iff {cast : LexicalCast 64} (h : cast.Documented)
    {input : List UInt8} {timestamp : UInt64} :
    parseTimestamp cast input = .ok timestamp ↔
      timestamp ≤ maxTimestamp ∧ Canonical input ∧ value input = timestamp.toNat := by
  have hproper : (!isProperTimestamp timestamp) = false ↔ timestamp ≤ maxTimestamp := by
    rw [Bool.not_eq_false', isProperTimestamp, decide_eq_true_eq]
  rw [← hproper]
  exact map_parseNumber_eq_ok_iff _ _ h (fun _ => rfl) (fun _ => rfl)

/-- A port or a timestamp is returned exactly for its canonical numeral, and every other
string is answered with a `ParseException`. -/
theorem arguments_canonical {cast16 : LexicalCast 16} {cast64 : LexicalCast 64}
    (h16 : cast16.Documented) (h64 : cast64.Documented) (input : List UInt8) :
    (∀ port, parsePort cast16 input = .ok port ↔
      (1 ≤ port.toNat ∧ port.toNat ≤ 65535) ∧ Canonical input ∧ value input = port.toNat) ∧
    (∀ timestamp, parseTimestamp cast64 input = .ok timestamp ↔
      timestamp ≤ maxTimestamp ∧ Canonical input ∧ value input = timestamp.toNat) ∧
    ((∀ port, parsePort cast16 input ≠ .ok port) → parsePort cast16 input =
      .error (.parseException "Port must be an integer between 1 and 65,535")) ∧
    ((∀ timestamp, parseTimestamp cast64 input ≠ .ok timestamp) →
      parseTimestamp cast64 input =
        .error (.parseException "Timestamp must be a 64-bit unsigned number")) :=
  ⟨fun _ => parsePort_eq_ok_iff h16, fun _ => parseTimestamp_eq_ok_iff h64,
    map_parseNumber_error _ _ h16, map_parseNumber_error _ _ h64⟩

theorem arguments_canonical_sample :
    parsePort (.standard 16) [52, 50] = .ok 42 ∧
    parseTimestamp (.standard 64) [52, 50] = .ok 42 ∧
    parsePort (.standard 16) [43, 52, 50] =
      .error (.parseException "Port must be an integer between 1 and 65,535") := by
  have h16 := LexicalCast.standard_documented 16
  have h64 := LexicalCast.standard_documented 64
  have hcanonical : Canonical [52, 50] := ⟨by decide, by decide⟩
  obtain ⟨hport, htimestamp, -⟩ := arguments_canonical h16 h64 [52, 50]
  obtain ⟨hsigned, -, herror, -⟩ := arguments_canonical h16 h64 [43, 52, 50]
  refine ⟨(hport 42).mpr ⟨by decide, hcanonical, rfl⟩,
    (htimestamp 42).mpr ⟨by decide, hcanonical, rfl⟩, herror fun port hok => ?_⟩
  exact absurd ((hsigned port).mp hok).2.1.number (by decide)

theorem parsePort_eq_ok {cast : LexicalCast 16} (h : cast.Documented) {input : List UInt8}
    {port : UInt16} :
    parsePort cast input = .ok port ↔ 1 ≤ port.toNat ∧ input = numeral port.toNat := by
  have hle : port.toNat ≤ 65535 := Nat.le_of_lt_succ port.toNat_lt
  rw [parsePort_eq_ok_iff h, and_iff_left hle, ← numeral_eq_iff, eq_comm (a := input)]

theorem parseTimestamp_eq_ok {cast : LexicalCast 64} (h : cast.Documented) {input : List UInt8}
    {timestamp : UInt64} :
    parseTimestamp cast input = .ok timestamp ↔
      timestamp ≤ maxTimestamp ∧ input = numeral timestamp.toNat := by
  rw [parseTimestamp_eq_ok_iff h, ← numeral_eq_iff, eq_comm (a := input)]

theorem parseCharacter_error {input : List UInt8} (h : ∀ character, input ≠ [character]) :
    parseCharacter input = .error (.parseException "Character must be a single character") := by
  unfold parseCharacter
  split
  · rename_i character
    exact absurd rfl (h character)
  · rfl

end SikUdp
