import SikUdp.Wire.Decoding
import SikUdp.Library.TracedRun

/-!
# Bytes that do not belong to a datagram

The receive buffer is reused without being cleared, and the byte constructor reads its
text up to the first NUL in memory. Behind a receiver this is safe: the terminator
written after the datagram ends every reading. The constructor alone depends on what
follows the bytes it is given, unless one of them ends the text.
-/
namespace SikUdp

/-- The bytes that the byte constructor reads: the header, and the text with its NUL. -/
def Message.reads (bytes : List UInt8) (length : ℕ) : List ℕ :=
  if length < messageOffset then []
  else List.range messageOffset ++
    List.range' messageOffset
      ((NulTerminated.text 0 (bytes.drop messageOffset)).length + 1)

namespace Receiver

/-- The places of the buffer that a call reads or writes: `recvfrom` stores the datagram,
its last byte is checked when text is expected, and if the check is passed the
terminator is written and the message is built. -/
def accesses (r : Receiver) (d : Datagram) (withMessage : Bool) : List ℕ :=
  List.range d.bytes.length ++
    (if withMessage = true ∧ Message.messageOffset < d.bytes.length then [d.bytes.length - 1]
      else []) ++
    match if withMessage then (r.fill d).checkText d.bytes.length else .ok () with
    | .error _ => []
    | .ok () => d.bytes.length ::
        match (r.fill d).terminate d.bytes.length with
        | .error _ => []
        | .ok r => Message.reads r.buffer d.bytes.length

theorem mem_reads_le (bytes rest : List UInt8) {i : ℕ}
    (hi : i ∈ Message.reads (bytes ++ 0 :: rest) bytes.length) : i ≤ bytes.length := by
  unfold Message.reads at hi
  split_ifs at hi with hshort
  · cases hi
  · have hlen : Message.messageOffset ≤ bytes.length := not_lt.mp hshort
    have hmem : (0 : UInt8) ∈ bytes.drop Message.messageOffset ++ [0] := by simp
    have htext := NulTerminated.text_append_of_mem hmem rest
    rw [NulTerminated.text_append_nul, List.append_assoc, List.singleton_append] at htext
    rw [List.drop_append_of_le_length hlen, htext] at hi
    have hle : (NulTerminated.text 0 (bytes.drop Message.messageOffset)).length ≤
        (bytes.drop Message.messageOffset).length := NulTerminated.length_text_le _
    rw [List.length_drop] at hle
    rcases List.mem_append.mp hi with hi | hi
    · have hlt := List.mem_range.mp hi
      omega
    · obtain ⟨k, hk, rfl⟩ := List.mem_range'.mp hi
      omega

/-- No place outside the buffer is touched, and none behind the terminator. -/
theorem accesses_le (r : Receiver) (d : Datagram) (withMessage : Bool) {i : ℕ}
    (hi : i ∈ r.accesses d withMessage) : i ≤ d.bytes.length := by
  obtain ⟨r', hterminate, hbuffer⟩ := r.terminate_fill d
  simp only [accesses, hterminate] at hi
  rcases List.mem_append.mp hi with hi | hi
  · rcases List.mem_append.mp hi with hi | hi
    · exact (List.mem_range.mp hi).le
    · split_ifs at hi
      · rw [List.mem_singleton.mp hi]
        omega
      · cases hi
  · split at hi
    · cases hi
    · rcases List.mem_cons.mp hi with rfl | hi
      · exact le_rfl
      · rw [hbuffer] at hi
        exact mem_reads_le _ _ hi

def handle (r : Receiver) (call : (SockAddr × Datagram) × Bool) :
    Except Abort (Receiver × List (Except Abort Message)) :=
  let (r, outcome) := r.receiveMessage (.received call.1.1 call.1.2) call.2
  .ok (r, [outcome])

theorem handle_eq (r : Receiver) (call : (SockAddr × Datagram) × Bool) :
    ∃ r', r.handle call = .ok (r', [decode call.2 call.1.2.bytes]) := by
  refine ⟨(r.receiveMessage (.received call.1.1 call.1.2) call.2).1, ?_⟩
  rw [← r.receiveMessage_received call.1.1 call.1.2 call.2]
  rfl

theorem run_handle (r : Receiver) (calls : List ((SockAddr × Datagram) × Bool)) :
    ∃ r', TracedRun.run handle r calls =
      .ok (r', calls.map fun call => decode call.2 call.1.2.bytes) := by
  induction calls generalizing r with
  | nil => exact ⟨r, rfl⟩
  | cons call calls ih =>
    obtain ⟨r₁, hfirst⟩ := r.handle_eq call
    obtain ⟨r₂, hrest⟩ := ih r₁
    exact ⟨r₂, TracedRun.run_cons_ok.mpr ⟨r₁, _, _, hfirst, hrest, rfl⟩⟩

/-- However the buffer was filled before, a sequence of calls has the outcomes that
`decode` computes from each datagram and its flag. After any of them the outcome of the
next call is the same as with any other buffer, it is a message or an exception, and no
index outside the buffer is read or written. -/
theorem outcomes_isolated (r : Receiver) (calls : List ((SockAddr × Datagram) × Bool)) :
    (∃ r', TracedRun.run handle r calls =
      .ok (r', calls.map fun call => decode call.2 call.1.2.bytes)) ∧
    ∀ before source d withMessage after, calls = before ++ ((source, d), withMessage) :: after →
      ∃ r₁ outcomes, TracedRun.run handle r before = .ok (r₁, outcomes) ∧
        (∀ r₂ : Receiver, (r₁.receiveMessage (.received source d) withMessage).2 =
          (r₂.receiveMessage (.received source d) withMessage).2) ∧
        (r₁.receiveMessage (.received source d) withMessage).2 ≠ .error .undefined ∧
        ∀ i ∈ r₁.accesses d withMessage, i < packetSize := by
  refine ⟨r.run_handle calls, ?_⟩
  intro before source d withMessage after _
  obtain ⟨r₁, hrun⟩ := r.run_handle before
  refine ⟨r₁, _, hrun, ?_, ?_, ?_⟩
  · intro r₂
    rw [receiveMessage_received, receiveMessage_received]
  · rw [receiveMessage_received]
    intro hundefined
    obtain ⟨what, hthrows⟩ := decode_error hundefined
    cases hthrows
  · intro i hi
    exact (r₁.accesses_le d withMessage hi).trans_lt d.length_lt

end Receiver

namespace Message

/-- Two outcomes are alike: both throw, or both are one message with a text no longer than
the bytes given behind the header. -/
def Alike (given : List UInt8) (x y : Except Abort Message) : Prop :=
  (∃ e e', x = .error (.throws e) ∧ y = .error (.throws e')) ∨
    ∃ m, x = .ok m ∧ y = .ok m ∧ m.message.length ≤ given.length - messageOffset

/-- The outcome does not depend on what follows the given bytes in memory. -/
def ReadsGivenOnly (given : List UInt8) : Prop :=
  ∀ after after', Alike given (ofBytes (given ++ after) given.length)
    (ofBytes (given ++ after') given.length)

theorem ofBytes_short {memory : List UInt8} {length : ℕ} (h : length < messageOffset) :
    ofBytes memory length = .error (.throws (.invalidArgument "Invalid message data")) :=
  if_pos h

theorem ofBytes_given {given : List UInt8} (hlen : messageOffset ≤ given.length)
    (hnul : (0 : UInt8) ∈ given.drop messageOffset) (after : List UInt8) :
    ofBytes (given ++ after) given.length =
      ofFields (UInt64.ofNat (wireTimestamp given)) (given.getD 8 0) (wireText given) := by
  apply ofBytes_append hlen
  rw [loadString_eq, if_pos (List.mem_append_left _ hnul),
    NulTerminated.text_append_of_mem hnul, ← wireText]

theorem readsGivenOnly_of_short {given : List UInt8} (h : given.length < messageOffset) :
    ReadsGivenOnly given := by
  intro after after'
  rw [ofBytes_short h, ofBytes_short h]
  exact Or.inl ⟨_, _, rfl, rfl⟩

theorem readsGivenOnly_of_nul {given : List UInt8} (hlen : messageOffset ≤ given.length)
    (hnul : (0 : UInt8) ∈ given.drop messageOffset) : ReadsGivenOnly given := by
  intro after after'
  rw [ofBytes_given hlen hnul, ofBytes_given hlen hnul]
  cases hfields : ofFields (UInt64.ofNat (wireTimestamp given)) (given.getD 8 0)
      (wireText given) with
  | ok m =>
    refine Or.inr ⟨m, rfl, rfl, ?_⟩
    rw [(ofFields_eq_ok_iff.mp hfields).2.2, ← List.length_drop]
    exact NulTerminated.length_text_le _
  | error a =>
    unfold ofFields at hfields
    split_ifs at hfields
    cases hfields
    exact Or.inl ⟨_, _, rfl, rfl⟩

/-- The byte constructor reads the given bytes alone exactly if they are too few for a
header or hold the NUL that ends the text. -/
theorem readsGivenOnly_iff (given : List UInt8) :
    ReadsGivenOnly given ↔
      given.length < messageOffset ∨ (0 : UInt8) ∈ given.drop messageOffset := by
  constructor
  · intro honly
    by_contra hneither
    obtain ⟨hlen, hnul⟩ := not_or.mp hneither
    -- memory that ends with the given bytes is left
    have hleft : ofBytes (given ++ []) given.length = .error .undefined := by
      rw [List.append_nil, ofBytes_eq (not_lt.mp hlen) le_rfl, loadString_eq, if_neg hnul]
      rfl
    rcases honly [] [] with ⟨e, e', he, -⟩ | ⟨m, hm, -, -⟩
    · rw [hleft] at he
      cases he
    · rw [hleft] at hm
      cases hm
  · rintro (hshort | hnul)
    · exact readsGivenOnly_of_short hshort
    · by_cases hshort : given.length < messageOffset
      · exact readsGivenOnly_of_short hshort
      · exact readsGivenOnly_of_nul (not_lt.mp hshort) hnul

theorem sampleDatagram_reads_on : ¬ ReadsGivenOnly sampleDatagram.bytes := by
  intro honly
  rcases honly [0] [120, 0] with ⟨e, e', he, -⟩ | ⟨m, hm, hm', -⟩
  · cases he
  · have htext : m.message = [] := by
      cases hm
      rfl
    have htext' : m.message = [120] := by
      cases hm'
      rfl
    rw [htext] at htext'
    cases htext'

end Message
end SikUdp
