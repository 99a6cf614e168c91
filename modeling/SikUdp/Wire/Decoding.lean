import SikUdp.Program.Communication

/-!
# What a receive call decodes

`decode` is a function of the datagram and the flag alone. The receiver computes
it whatever its buffer held before: the terminator written behind the datagram
cuts off every byte of earlier datagrams. Accepted datagrams are then described
by their length, their timestamp and the position of their NUL bytes.
-/
namespace SikUdp

/-- The number in the first eight bytes. -/
def wireTimestamp (bytes : List UInt8) : ℕ := BigEndian.decode (bytes.take 8)

/-- The bytes behind the header, up to the first NUL. -/
def wireText (bytes : List UInt8) : List UInt8 :=
  NulTerminated.text 0 (bytes.drop Message.messageOffset)

/-- The outcome of receiving a datagram with the given bytes. -/
def decode (withMessage : Bool) (bytes : List UInt8) : Except Abort Message :=
  if withMessage = true ∧ bytes.length ≤ Message.messageOffset then
    .error (.throws (.invalidArgument "Message must contain text"))
  else if withMessage = true ∧ bytes.getLast? ≠ some 0 then
    .error (.throws (.invalidArgument "Message text must be null terminated"))
  else if bytes.length < Message.messageOffset then
    .error (.throws (.invalidArgument "Invalid message data"))
  else Message.ofFields (UInt64.ofNat (wireTimestamp bytes)) (bytes.getD 8 0) (wireText bytes)

theorem wireTimestamp_lt (bytes : List UInt8) : wireTimestamp bytes < 2 ^ 64 := by
  have hlt := BigEndian.decode_lt (bytes.take 8)
  have hlen : (bytes.take 8).length ≤ 8 := List.length_take_le 8 bytes
  calc
    wireTimestamp bytes < 256 ^ (bytes.take 8).length := hlt
    _ ≤ 256 ^ 8 := Nat.pow_le_pow_right (by norm_num) hlen
    _ = 2 ^ 64 := by norm_num

theorem isProperTimestamp_ofNat {x : ℕ} (h : x < 2 ^ 64) :
    isProperTimestamp (UInt64.ofNat x) = true ↔ x ≤ maxTimestamp.toNat := by
  rw [isProperTimestamp, decide_eq_true_eq, UInt64.le_iff_toNat_le, UInt64.toNat_ofNat_of_lt' h]

namespace Message

theorem loadString_eq (data : List UInt8) :
    loadString data =
      if (0 : UInt8) ∈ data then .ok (NulTerminated.text 0 data) else .error .undefined := by
  rw [loadString, NulTerminated.read_eq]
  split_ifs
  · rfl
  · rfl

theorem ofBytes_eq {memory : List UInt8} {length : ℕ} (hlen : messageOffset ≤ length)
    (hle : length ≤ memory.length) :
    ofBytes memory length = (loadString (memory.drop messageOffset)).bind fun text =>
      ofFields (UInt64.ofNat (wireTimestamp memory)) (memory.getD 8 0) text := by
  have hlong : 9 ≤ memory.length := hlen.trans hle
  have htime : loadTimestamp memory = .ok (UInt64.ofNat (wireTimestamp memory)) :=
    if_pos (by omega)
  have hchar : loadByte memory 8 = .ok (memory.getD 8 0) := by
    rw [loadByte, List.getD_eq_getElem?_getD, List.getElem?_eq_getElem (by omega),
      Option.getD_some]
  rw [ofBytes, if_neg (not_lt.mpr hlen), htime, hchar]
  rfl

theorem ofBytes_append {bytes rest text : List UInt8} (hlen : messageOffset ≤ bytes.length)
    (htext : loadString (bytes.drop messageOffset ++ rest) = .ok text) :
    ofBytes (bytes ++ rest) bytes.length =
      ofFields (UInt64.ofNat (wireTimestamp bytes)) (bytes.getD 8 0) text := by
  have hlong : 9 ≤ bytes.length := hlen
  have htime : wireTimestamp (bytes ++ rest) = wireTimestamp bytes := by
    rw [wireTimestamp, List.take_append_of_le_length (by omega), ← wireTimestamp]
  have hchar : (bytes ++ rest).getD 8 0 = bytes.getD 8 0 := by
    rw [List.getD_eq_getElem?_getD, List.getElem?_append_left (by omega),
      ← List.getD_eq_getElem?_getD]
  rw [ofBytes_eq hlen (by simp), List.drop_append_of_le_length hlen, htext, htime, hchar]
  rfl

/-- On terminated memory the byte constructor reads the datagram and nothing behind it. -/
theorem ofBytes_terminated (bytes rest : List UInt8) :
    ofBytes (bytes ++ 0 :: rest) bytes.length =
      if bytes.length < messageOffset then
        .error (.throws (.invalidArgument "Invalid message data"))
      else ofFields (UInt64.ofNat (wireTimestamp bytes)) (bytes.getD 8 0) (wireText bytes) := by
  split_ifs with h
  · exact if_pos h
  · apply ofBytes_append (not_lt.mp h)
    rw [loadString, NulTerminated.read_append_nul]
    rfl

end Message

namespace Receiver

theorem terminate_fill (r : Receiver) (d : Datagram) :
    ∃ r', (r.fill d).terminate d.bytes.length = .ok r' ∧
      r'.buffer = d.bytes ++ 0 :: r.buffer.drop (d.bytes.length + 1) := by
  have hlt : d.bytes.length < r.buffer.length := by
    rw [r.length_buffer]
    exact d.length_lt
  have hinside : d.bytes.length < (r.fill d).buffer.length := by
    rw [(r.fill d).length_buffer]
    exact d.length_lt
  exact ⟨_, if_pos hinside, NulTerminated.set_overwritten hlt⟩

theorem checkText_fill (r : Receiver) (d : Datagram) :
    (r.fill d).checkText d.bytes.length =
      if d.bytes.length ≤ Message.messageOffset then
        .error (.throws (.invalidArgument "Message must contain text"))
      else if d.bytes.getLast? ≠ some 0 then
        .error (.throws (.invalidArgument "Message text must be null terminated"))
      else .ok () := by
  unfold checkText
  by_cases hshort : d.bytes.length ≤ Message.messageOffset
  · simp [hshort]
  · have hpos : d.bytes.length - 1 < d.bytes.length := by
      unfold Message.messageOffset at hshort
      omega
    have hget : (r.fill d).buffer[d.bytes.length - 1]? = d.bytes.getLast? := by
      rw [fill, List.getElem?_append_left hpos, List.getLast?_eq_getElem?]
    obtain ⟨c, hc⟩ : ∃ c, d.bytes.getLast? = some c := by
      rw [List.getLast?_eq_getElem?]
      exact ⟨_, List.getElem?_eq_getElem hpos⟩
    simp [hshort, hget, hc]

/-- The outcome of a call does not depend on the previous content of the buffer. -/
theorem receiveMessage_received (r : Receiver) (source : SockAddr) (d : Datagram)
    (withMessage : Bool) :
    (r.receiveMessage (.received source d) withMessage).2 = decode withMessage d.bytes := by
  obtain ⟨r', hterminate, hbuffer⟩ := r.terminate_fill d
  cases withMessage with
  | false =>
    simp only [receiveMessage, decode, hterminate, hbuffer, Message.ofBytes_terminated]
    simp
  | true =>
    simp only [receiveMessage, decode, checkText_fill, if_true, true_and]
    split_ifs
    · rfl
    · rfl
    · simp only [hterminate, hbuffer, Message.ofBytes_terminated]
      simp [*]
    · simp only [hterminate, hbuffer, Message.ofBytes_terminated]
      simp [*]

end Receiver

/-- A decoded message has the datagram's timestamp, character and text. -/
theorem decode_eq_ok_iff {withMessage : Bool} {bytes : List UInt8} {m : Message} :
    decode withMessage bytes = .ok m ↔
      Message.messageOffset ≤ bytes.length ∧
      (withMessage = true → Message.messageOffset < bytes.length ∧ bytes.getLast? = some 0) ∧
      m.timestamp = UInt64.ofNat (wireTimestamp bytes) ∧ m.character = bytes.getD 8 0 ∧
      m.message = wireText bytes := by
  unfold decode
  split_ifs with h₁ h₂ h₃
  · simp only [false_iff]
    rintro ⟨-, ht, -⟩
    have := (ht h₁.1).1
    omega
  · simp only [false_iff]
    rintro ⟨-, ht, -⟩
    exact h₂.2 (ht h₂.1).2
  · simp only [false_iff]
    rintro ⟨hlen, -⟩
    omega
  · rw [Message.ofFields_eq_ok_iff]
    constructor
    · intro h
      refine ⟨Nat.le_of_not_lt h₃, fun hw => ?_, h⟩
      constructor
      · by_contra hle
        exact h₁ ⟨hw, Nat.le_of_not_lt hle⟩
      · by_contra hl
        exact h₂ ⟨hw, hl⟩
    · exact fun h => h.2.2

def sampleDatagram : Datagram := ⟨[0, 0, 0, 0, 0, 0, 0, 0, 97], by decide⟩

def sampleRequest : Message := ⟨0, 97, [], by decide⟩

theorem decode_sampleDatagram : decode false sampleDatagram.bytes = .ok sampleRequest :=
  decode_eq_ok_iff.mpr ⟨by decide, by decide, by decide, by decide, by decide⟩

/-- Acceptance, by length, timestamp and last byte alone. -/
theorem decode_accepts_iff (withMessage : Bool) (bytes : List UInt8) :
    (∃ m, decode withMessage bytes = .ok m) ↔
      Message.messageOffset ≤ bytes.length ∧
      (withMessage = true → Message.messageOffset < bytes.length ∧ bytes.getLast? = some 0) ∧
      wireTimestamp bytes ≤ maxTimestamp.toNat := by
  have hproper := isProperTimestamp_ofNat (wireTimestamp_lt bytes)
  constructor
  · rintro ⟨m, hm⟩
    obtain ⟨hlen, ht, htime, -, -⟩ := decode_eq_ok_iff.mp hm
    exact ⟨hlen, ht, hproper.mp (htime ▸ m.proper)⟩
  · rintro ⟨hlen, ht, htime⟩
    exact ⟨⟨_, bytes.getD 8 0, wireText bytes, hproper.mpr htime⟩,
      decode_eq_ok_iff.mpr ⟨hlen, ht, rfl, rfl, rfl⟩⟩

theorem decode_error {withMessage : Bool} {bytes : List UInt8} {a : Abort}
    (h : decode withMessage bytes = .error a) : ∃ what, a = .throws (.invalidArgument what) := by
  unfold decode Message.ofFields at h
  split_ifs at h <;> cases h <;> exact ⟨_, rfl⟩

end SikUdp
