import SikUdp.Wire.Decoding

/-!
# The two datagram formats

A client sends a timestamp and a character, nine bytes. The server adds a text
ended by a NUL byte. Encoding a message and receiving it gives the message back.
In the other direction the receiver looks for the NUL at the last byte only and
reads the text up to the first one, so a datagram with a further NUL in its text
is accepted and loses what follows that NUL.
-/
namespace SikUdp

/-- The client-to-server format. -/
def IsClientDatagram (bytes : List UInt8) : Prop :=
  bytes.length = 9 ∧ wireTimestamp bytes ≤ maxTimestamp.toNat

/-- The server-to-client format: the last byte is the only NUL behind the ninth byte. -/
def IsServerDatagram (bytes : List UInt8) : Prop :=
  10 ≤ bytes.length ∧ wireTimestamp bytes ≤ maxTimestamp.toNat ∧ bytes.getLast? = some 0 ∧
    0 ∉ (bytes.drop 9).dropLast

instance (bytes : List UInt8) : Decidable (IsClientDatagram bytes) :=
  inferInstanceAs (Decidable (_ ∧ _))

instance (bytes : List UInt8) : Decidable (IsServerDatagram bytes) :=
  inferInstanceAs (Decidable (_ ∧ _))

/-- A NUL-terminated datagram with another NUL in its text. -/
def HasHiddenNul (bytes : List UInt8) : Prop :=
  10 ≤ bytes.length ∧ wireTimestamp bytes ≤ maxTimestamp.toNat ∧ bytes.getLast? = some 0 ∧
    0 ∈ (bytes.drop 9).dropLast

/-- A valid header followed by a NUL byte and possibly more. -/
def HasNulTail (bytes : List UInt8) : Prop :=
  bytes[9]? = some 0 ∧ wireTimestamp bytes ≤ maxTimestamp.toNat

section Header
variable (t : ℕ) (c : UInt8) (rest : List UInt8)

theorem wireTimestamp_layout (ht : t < 2 ^ 64) :
    wireTimestamp (BigEndian.encode 8 t ++ [c] ++ rest) = t := by
  have htake : (BigEndian.encode 8 t ++ [c] ++ rest).take 8 = BigEndian.encode 8 t := by
    rw [List.append_assoc, List.take_left' (BigEndian.length_encode 8 t)]
  rw [wireTimestamp, htake, BigEndian.decode_encode (by norm_num; omega)]

theorem getD_layout : (BigEndian.encode 8 t ++ [c] ++ rest).getD 8 0 = c := by
  rw [List.getD_eq_getElem?_getD, List.append_assoc,
    List.getElem?_append_right (by simp), BigEndian.length_encode]
  rfl

theorem drop_layout : (BigEndian.encode 8 t ++ [c] ++ rest).drop Message.messageOffset = rest :=
  List.drop_left' (by simp [Message.messageOffset])

end Header

theorem layout_eq {bytes : List UInt8} (h : Message.messageOffset ≤ bytes.length) :
    BigEndian.encode 8 (wireTimestamp bytes) ++ [bytes.getD 8 0] ++
      bytes.drop Message.messageOffset = bytes := by
  have hlen : 9 ≤ bytes.length := h
  have htake : (bytes.take 8).length = 8 := by simp; omega
  have hencode : BigEndian.encode 8 (wireTimestamp bytes) = bytes.take 8 := by
    have he := BigEndian.encode_decode (bytes.take 8)
    rwa [htake] at he
  have hdrop : bytes.drop 8 = bytes.getD 8 0 :: bytes.drop Message.messageOffset := by
    rw [List.getD_eq_getElem?_getD, List.getElem?_eq_getElem (by omega), Option.getD_some]
    exact List.drop_eq_getElem_cons (by omega)
  rw [hencode, List.append_assoc, List.singleton_append, ← hdrop, List.take_append_drop]

theorem dataOf_eq (m : Message) (withMessage : Bool) :
    Sender.dataOf m withMessage = BigEndian.encode 8 m.timestamp.toNat ++ [m.character] ++
      (m.message ++ if withMessage then [0] else []) := by
  cases withMessage <;> simp [Sender.dataOf, Message.toBytes]

theorem length_dataOf (m : Message) (withMessage : Bool) :
    (Sender.dataOf m withMessage).length =
      9 + m.message.length + if withMessage then 1 else 0 := by
  rw [dataOf_eq]
  cases withMessage <;> simp <;> omega

/-- Decoding recovers the header, and the text up to its first NUL. -/
theorem decode_dataOf (m : Message) (withMessage : Bool)
    (htext : NulTerminated.text 0 (m.message ++ if withMessage then [0] else []) = m.message) :
    decode withMessage (Sender.dataOf m withMessage) = .ok m := by
  have hlen := length_dataOf m withMessage
  rw [decode_eq_ok_iff]
  refine ⟨by rw [hlen]; unfold Message.messageOffset; omega, ?_, ?_, ?_, ?_⟩
  · intro hw
    subst hw
    exact ⟨by rw [hlen]; unfold Message.messageOffset; simp, by simp [Sender.dataOf]⟩
  · rw [dataOf_eq, wireTimestamp_layout _ _ _ m.timestamp.toNat_lt, UInt64.ofNat_toNat]
  · rw [dataOf_eq, getD_layout]
  · rw [wireText, dataOf_eq, drop_layout, htext]

theorem decode_dataOf_text {m : Message} (hnul : (0 : UInt8) ∉ m.message) :
    decode true (Sender.dataOf m true) = .ok m := by
  apply decode_dataOf
  rw [if_pos rfl, NulTerminated.text_append_nul, NulTerminated.text_eq_self_iff]
  exact hnul

theorem decode_dataOf_empty {m : Message} (hempty : m.message = []) :
    decode false (Sender.dataOf m false) = .ok m := by
  apply decode_dataOf
  simp [hempty]

theorem dataOf_decode {bytes text : List UInt8} {m : Message} {withMessage : Bool}
    (h : decode withMessage bytes = .ok m) :
    Sender.dataOf (m.setMessage text) true = bytes.take 9 ++ text ++ [0] := by
  obtain ⟨hlen, -, htime, hchar, -⟩ := decode_eq_ok_iff.mp h
  have hheader : BigEndian.encode 8 (wireTimestamp bytes) ++ [bytes.getD 8 0] = bytes.take 9 := by
    have htake := congrArg (List.take 9) (layout_eq hlen)
    rwa [List.take_left' (by simp)] at htake
  have htimeNat : m.timestamp.toNat = wireTimestamp bytes := by
    rw [htime, UInt64.toNat_ofNat_of_lt' (wireTimestamp_lt bytes)]
  rw [dataOf_eq, Message.setMessage_timestamp, Message.setMessage_character,
    Message.setMessage_message, htimeNat, hchar, if_pos rfl, hheader, List.append_assoc]

/-- What the sender hands to `sendto` is received as the message that was sent,
whatever the receive buffer held before. -/
theorem send_receive (m : Message) (hnul : (0 : UInt8) ∉ m.message)
    (hlen : 10 + m.message.length ≤ 65535) (address : SockAddr) (answer : SendtoResult) :
    (∃ d : Datagram,
      (Sender.sendMessage address (some m) true answer).1 = [⟨address, d.bytes, answer⟩] ∧
      ∀ (r : Receiver) (source : SockAddr),
        (r.receiveMessage (.received source d) true).2 = .ok m) ∧
    (m.message = [] → ∃ d : Datagram,
      (Sender.sendMessage address (some m) false answer).1 = [⟨address, d.bytes, answer⟩] ∧
      ∀ (r : Receiver) (source : SockAddr),
        (r.receiveMessage (.received source d) false).2 = .ok m) := by
  constructor
  · have hfit : (Sender.dataOf m true).length ≤ packetSize - 1 := by
      rw [length_dataOf]
      simp [packetSize]
      omega
    refine ⟨⟨Sender.dataOf m true, hfit⟩, rfl, fun r source => ?_⟩
    rw [Receiver.receiveMessage_received]
    exact decode_dataOf_text hnul
  · intro hempty
    have hfit : (Sender.dataOf m false).length ≤ packetSize - 1 := by
      rw [length_dataOf, hempty]
      simp [packetSize]
    refine ⟨⟨Sender.dataOf m false, hfit⟩, rfl, fun r source => ?_⟩
    rw [Receiver.receiveMessage_received]
    exact decode_dataOf_empty hempty

def sampleMessage : Message := ⟨654321, 97, [65, 108, 97], by decide⟩

theorem send_receive_sample :
    (∃ d : Datagram,
      (Sender.sendMessage ⟨1, 2⟩ (some sampleMessage) true ⟨13, .other⟩).1 =
        [⟨⟨1, 2⟩, d.bytes, ⟨13, .other⟩⟩] ∧
      ∀ (r : Receiver) (source : SockAddr),
        (r.receiveMessage (.received source d) true).2 = .ok sampleMessage) :=
  (send_receive sampleMessage (by decide) (by decide) ⟨1, 2⟩ ⟨13, .other⟩).1

/-- The receiver accepts the datagram exactly when it has the server format, and
encoding the decoded message gives the datagram back. -/
def ServerFormatExact (r : Receiver) (source : SockAddr) (d : Datagram) : Prop :=
  ((∃ m, (r.receiveMessage (.received source d) true).2 = .ok m) ↔ IsServerDatagram d.bytes) ∧
    ∀ m, (r.receiveMessage (.received source d) true).2 = .ok m → Sender.dataOf m true = d.bytes

/-- Without text expected, a message without text is decoded from the client format, and
from anything longer whose tenth byte is NUL. -/
theorem decode_client_iff (bytes : List UInt8) :
    (∃ m, decode false bytes = .ok m ∧ m.message = []) ↔
      IsClientDatagram bytes ∨ HasNulTail bytes := by
  have htext : wireText bytes = [] ↔ ∀ c, bytes[9]? = some c → c = 0 := by
    rw [wireText, NulTerminated.text_eq_nil_iff, List.head?_drop]
    rfl
  have haccept := decode_accepts_iff false bytes
  have hnext : bytes[9]? = none ↔ bytes.length ≤ 9 := List.getElem?_eq_none_iff
  unfold Message.messageOffset at haccept
  unfold IsClientDatagram HasNulTail
  constructor
  · rintro ⟨m, hm, hempty⟩
    obtain ⟨hlen, -, htime⟩ := haccept.mp ⟨m, hm⟩
    have hnil := htext.mp ((decode_eq_ok_iff.mp hm).2.2.2.2 ▸ hempty)
    cases hget : bytes[9]? with
    | none =>
      have hle := hnext.mp hget
      exact Or.inl ⟨by omega, htime⟩
    | some c => exact Or.inr ⟨by rw [hnil c hget], htime⟩
  · intro h
    have hlen : 9 ≤ bytes.length := by
      rcases h with h | h
      · exact h.1.ge
      · by_contra hshort
        rw [hnext.mpr (by omega)] at h
        cases h.1
    have htime : wireTimestamp bytes ≤ maxTimestamp.toNat := by
      rcases h with h | h
      · exact h.2
      · exact h.2
    obtain ⟨m, hm⟩ := haccept.mpr ⟨hlen, by simp, htime⟩
    refine ⟨m, hm, ?_⟩
    rw [(decode_eq_ok_iff.mp hm).2.2.2.2, htext]
    intro c hc
    rcases h with h | h
    · rw [hnext.mpr h.1.le] at hc
      cases hc
    · exact (Option.some.inj (h.1.symm.trans hc)).symm

theorem decode_text_accepts_iff (bytes : List UInt8) :
    (∃ m, decode true bytes = .ok m) ↔ IsServerDatagram bytes ∨ HasHiddenNul bytes := by
  rw [decode_accepts_iff]
  unfold IsServerDatagram HasHiddenNul Message.messageOffset
  by_cases hnul : (0 : UInt8) ∈ (bytes.drop 9).dropLast
  · simp only [hnul, not_true_eq_false, and_false, and_true, false_or, forall_const]
    constructor
    · rintro ⟨-, ⟨hlen, hlast⟩, ht⟩
      exact ⟨hlen, ht, hlast⟩
    · rintro ⟨hlen, ht, hlast⟩
      exact ⟨by omega, ⟨hlen, hlast⟩, ht⟩
  · simp only [hnul, not_false_eq_true, and_true, and_false, or_false, forall_const]
    constructor
    · rintro ⟨-, ⟨hlen, hlast⟩, ht⟩
      exact ⟨hlen, ht, hlast⟩
    · rintro ⟨hlen, ht, hlast⟩
      exact ⟨by omega, ⟨hlen, hlast⟩, ht⟩

/-- Encoding undoes decoding unless a hidden NUL cut the text short. -/
theorem dataOf_decode_iff {bytes : List UInt8} {m : Message} (h : decode true bytes = .ok m) :
    Sender.dataOf m true = bytes ↔ 0 ∉ (bytes.drop 9).dropLast := by
  obtain ⟨hlen, htext, htime, hchar, hmessage⟩ := decode_eq_ok_iff.mp h
  obtain ⟨hlong, hlast⟩ := htext rfl
  have hdrop : (bytes.drop Message.messageOffset).getLast? = some 0 := by
    rw [List.getLast?_drop, if_neg (by omega), hlast]
  have htimeNat : m.timestamp.toNat = wireTimestamp bytes := by
    rw [htime, UInt64.toNat_ofNat_of_lt' (wireTimestamp_lt bytes)]
  have hdata : Sender.dataOf m true = BigEndian.encode 8 (wireTimestamp bytes) ++
      [bytes.getD 8 0] ++ (wireText bytes ++ [0]) := by
    rw [dataOf_eq, htimeNat, hchar, hmessage, if_pos rfl]
  calc
    Sender.dataOf m true = bytes ↔
        BigEndian.encode 8 (wireTimestamp bytes) ++ [bytes.getD 8 0] ++ (wireText bytes ++ [0]) =
          BigEndian.encode 8 (wireTimestamp bytes) ++ [bytes.getD 8 0] ++
            bytes.drop Message.messageOffset := by rw [hdata, layout_eq hlen]
    _ ↔ wireText bytes ++ [0] = bytes.drop Message.messageOffset := List.append_right_inj _
    _ ↔ 0 ∉ (bytes.drop 9).dropLast := NulTerminated.text_concat_eq_iff hdrop

theorem isClientDatagram_dataOf {m : Message} (hempty : m.message = []) :
    IsClientDatagram (Sender.dataOf m false) := by
  have haccepted := (decode_accepts_iff false _).mp ⟨m, decode_dataOf_empty hempty⟩
  refine ⟨?_, haccepted.2.2⟩
  rw [length_dataOf, hempty]
  rfl

theorem isServerDatagram_dataOf {m : Message} (hnul : (0 : UInt8) ∉ m.message) :
    IsServerDatagram (Sender.dataOf m true) := by
  have hdecode := decode_dataOf_text hnul
  have htail := (dataOf_decode_iff hdecode).mp rfl
  rcases (decode_text_accepts_iff _).mp ⟨m, hdecode⟩ with hserver | hhidden
  · exact hserver
  · exact absurd hhidden.2.2.2 htail

theorem serverFormatExact_of_not_hidden {r : Receiver} {source : SockAddr} {d : Datagram}
    (h : ¬ HasHiddenNul d.bytes) : ServerFormatExact r source d := by
  unfold ServerFormatExact
  rw [Receiver.receiveMessage_received, decode_text_accepts_iff]
  refine ⟨by simp [h], fun m hm => ?_⟩
  rw [dataOf_decode_iff hm]
  rcases (decode_text_accepts_iff d.bytes).mp ⟨m, hm⟩ with hs | hh
  · exact hs.2.2.2
  · exact absurd hh h

theorem not_serverFormatExact_of_hidden {r : Receiver} {source : SockAddr} {d : Datagram}
    (h : HasHiddenNul d.bytes) : ¬ ServerFormatExact r source d := by
  rintro ⟨haccept, -⟩
  rw [Receiver.receiveMessage_received, decode_text_accepts_iff] at haccept
  have hs := haccept.mp (Or.inr h)
  exact hs.2.2.2 h.2.2.2

/-- The server format is recognized and kept exactly on the datagrams without a hidden NUL. -/
theorem serverFormatExact_iff (r : Receiver) (source : SockAddr) (d : Datagram) :
    ServerFormatExact r source d ↔ ¬ HasHiddenNul d.bytes :=
  ⟨fun hexact hhidden => not_serverFormatExact_of_hidden hhidden hexact,
    serverFormatExact_of_not_hidden⟩

def hiddenNulDatagram : Datagram := ⟨[0, 0, 0, 0, 0, 0, 0, 0, 97, 98, 0, 99, 0], by decide⟩

theorem hiddenNulDatagram_not_exact :
    ¬ ServerFormatExact Receiver.zeroed SockAddr.zero hiddenNulDatagram :=
  not_serverFormatExact_of_hidden (by
    unfold HasHiddenNul
    decide)

end SikUdp
