import SikUdp.Wire.Decoding
import SikUdp.Library.Gregorian

/-!
# The years of valid timestamps

Every constructor compares the timestamp with `maxTimestamp`. The rule behind the constant
is about years: a timestamp is valid from 1717 to 4242. Timestamps count from 1970, so the
lower end is met by all of them.
-/
namespace SikUdp

open Gregorian

/-- The year of a timestamp is one the specification allows. -/
def ProperYear (timestamp : UInt64) : Prop :=
  1717 ≤ utcYear timestamp.toNat ∧ utcYear timestamp.toNat ≤ 4242

theorem utcYear_le_maxYear_iff (seconds : ℕ) :
    utcYear seconds ≤ 4242 ↔ seconds ≤ maxTimestamp.toNat := by
  have hend : daysBefore (4242 + 1) = 1549724 := by
    have heq := daysBefore_eq (4242 + 1)
    omega
  -- the last second of the day before the first of January 4243
  have hmax : maxTimestamp.toNat = (1549724 - 719528) * 86400 - 1 := rfl
  rw [utcYear_le_iff, hend, hmax]
  omega

theorem isProperTimestamp_iff_year (timestamp : UInt64) :
    isProperTimestamp timestamp = true ↔ ProperYear timestamp := by
  have hlow : 1717 ≤ utcYear timestamp.toNat :=
    le_trans (by norm_num) (le_utcYear timestamp.toNat)
  rw [isProperTimestamp, decide_eq_true_eq, UInt64.le_iff_toNat_le, ← utcYear_le_maxYear_iff,
    ProperYear, and_iff_right hlow]

namespace Message

theorem properYear (m : Message) : ProperYear m.timestamp :=
  (isProperTimestamp_iff_year m.timestamp).mp m.proper

theorem ofFields_year_iff (timestamp : UInt64) (character : UInt8) (message : List UInt8) :
    (∃ m, ofFields timestamp character message = .ok m ∧ m.timestamp = timestamp) ↔
      ProperYear timestamp := by
  constructor
  · rintro ⟨m, -, rfl⟩
    exact m.properYear
  · intro hyear
    have hproper := (isProperTimestamp_iff_year timestamp).mpr hyear
    exact ⟨⟨timestamp, character, message, hproper⟩, dif_pos hproper, rfl⟩

theorem ofBytes_year_iff {timestamp : UInt64} {memory : List UInt8} {length : ℕ}
    (hlen : messageOffset ≤ length) (hle : length ≤ memory.length)
    (htime : wireTimestamp memory = timestamp.toNat) (hnul : 0 ∈ memory.drop messageOffset) :
    (∃ m, ofBytes memory length = .ok m ∧ m.timestamp = timestamp) ↔ ProperYear timestamp := by
  rw [ofBytes_eq hlen hle, loadString_eq, if_pos hnul, htime, UInt64.ofNat_toNat]
  exact ofFields_year_iff timestamp _ _

/-- The shortest memory that holds a timestamp, a character and an empty text. -/
def headerOnly (timestamp : UInt64) (character : UInt8) : List UInt8 :=
  BigEndian.encode 8 timestamp.toNat ++ [character, 0]

theorem wireTimestamp_headerOnly (timestamp : UInt64) (character : UInt8) :
    wireTimestamp (headerOnly timestamp character) = timestamp.toNat := by
  have htake : (headerOnly timestamp character).take 8 = BigEndian.encode 8 timestamp.toNat := by
    rw [headerOnly, List.take_append_of_le_length (by simp), List.take_of_length_le (by simp)]
  rw [wireTimestamp, htake, BigEndian.decode_encode timestamp.toNat_lt]

/-- A message with a timestamp is built, from fields or from bytes, exactly if the
timestamp lies in the years 1717 to 4242. -/
theorem constructed_iff_year (timestamp : UInt64) :
    (∀ character message,
      (∃ m, ofFields timestamp character message = .ok m ∧ m.timestamp = timestamp) ↔
        ProperYear timestamp) ∧
    (∀ memory length, messageOffset ≤ length → length ≤ memory.length →
      wireTimestamp memory = timestamp.toNat → 0 ∈ memory.drop messageOffset →
      ((∃ m, ofBytes memory length = .ok m ∧ m.timestamp = timestamp) ↔
        ProperYear timestamp)) ∧
    ((∃ memory length m, messageOffset ≤ length ∧ ofBytes memory length = .ok m ∧
        m.timestamp = timestamp) ↔ ProperYear timestamp) := by
  refine ⟨ofFields_year_iff timestamp, fun memory length => ofBytes_year_iff, ?_⟩
  constructor
  · rintro ⟨memory, length, m, -, -, rfl⟩
    exact m.properYear
  · intro hyear
    have hlength : (headerOnly timestamp 0).length = 10 := by simp [headerOnly]
    have hnul : 0 ∈ (headerOnly timestamp 0).drop messageOffset := by
      rw [headerOnly, messageOffset, List.drop_append]
      simp
    obtain ⟨m, hm, htime⟩ := (ofBytes_year_iff (le_refl messageOffset)
      (by rw [hlength]; decide) (wireTimestamp_headerOnly timestamp 0) hnul).mpr hyear
    exact ⟨headerOnly timestamp 0, messageOffset, m, le_rfl, hm, htime⟩

theorem constructed_iff_year_sample :
    ∃ m, ofBytes (sampleDatagram.bytes ++ [0]) 9 = .ok m ∧ m.timestamp = 0 :=
  ((constructed_iff_year 0).2.1 (sampleDatagram.bytes ++ [0]) 9 (by decide) (by decide) rfl
    (by decide)).mpr ((isProperTimestamp_iff_year 0).mp rfl)

end Message
end SikUdp
