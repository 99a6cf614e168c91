import Mathlib.Tactic

/-!
# Fixed-width big-endian numbers

Reading a byte string most significant byte first, and writing a number in a
given number of bytes. Reading inverts writing for every number that fits, and
writing inverts reading for every byte string.
-/
namespace BigEndian

/-- The number whose big-endian digits to base 256 are the given bytes. -/
def decode : List UInt8 → ℕ
  | [] => 0
  | b :: bs => b.toNat * 256 ^ bs.length + decode bs

/-- The low `width` bytes of a number, most significant first. -/
def encode : (width : ℕ) → ℕ → List UInt8
  | 0, _ => []
  | width + 1, x => UInt8.ofNat (x / 256 ^ width) :: encode width x

@[simp] theorem length_encode (width x : ℕ) : (encode width x).length = width := by
  induction width with
  | zero => rfl
  | succ width ih => simp [encode, ih]

theorem decode_lt (bs : List UInt8) : decode bs < 256 ^ bs.length := by
  induction bs with
  | nil => simp [decode]
  | cons b bs ih =>
    have hb : b.toNat + 1 ≤ 256 := b.toNat_lt
    have hm := Nat.mul_le_mul_right (256 ^ bs.length) hb
    rw [Nat.add_mul, Nat.one_mul] at hm
    simp only [decode, List.length_cons, pow_succ']
    omega

/-- Writing forgets the bytes that do not fit. -/
theorem decode_encode_mod (width x : ℕ) : decode (encode width x) = x % 256 ^ width := by
  induction width with
  | zero => simp [encode, decode, Nat.mod_one]
  | succ width ih =>
    rw [Nat.mod_pow_succ]
    simp only [encode, decode, length_encode, ih, UInt8.toNat_ofNat']
    ring

theorem decode_encode {width x : ℕ} (h : x < 256 ^ width) : decode (encode width x) = x := by
  rw [decode_encode_mod, Nat.mod_eq_of_lt h]

theorem encode_add_mul (width x y : ℕ) : encode width (x + y * 256 ^ width) = encode width x := by
  induction width generalizing y with
  | zero => rfl
  | succ width ih =>
    have hpos : 0 < 256 ^ width := Nat.pow_pos (by norm_num)
    have hsplit : x + y * 256 ^ (width + 1) = x + (y * 256) * 256 ^ width := by ring
    rw [encode, encode, hsplit, ih, Nat.add_mul_div_right _ _ hpos]
    congr 1
    apply UInt8.toNat_inj.mp
    simp [UInt8.toNat_ofNat']

theorem encode_decode (bs : List UInt8) : encode bs.length (decode bs) = bs := by
  induction bs with
  | nil => rfl
  | cons b bs ih =>
    have hpos : 0 < 256 ^ bs.length := Nat.pow_pos (by norm_num)
    have hquot : (b.toNat * 256 ^ bs.length + decode bs) / 256 ^ bs.length = b.toNat := by
      rw [Nat.add_comm, Nat.add_mul_div_right _ _ hpos, Nat.div_eq_of_lt (decode_lt bs),
        Nat.zero_add]
    simp only [List.length_cons, decode, encode, hquot]
    rw [Nat.add_comm, encode_add_mul, ih, UInt8.ofNat_toNat]

end BigEndian
