import SikUdp.Library.Decimal
import SikUdp.Library.SelfDelimiting
import SikUdp.Runs.Strangers

/-!
# What a client's output tells

A client writes a line for every message. Its standard output tells which messages it
received, unless different texts come with newlines in them: then a text can pass for
several messages.
-/
namespace SikUdp

open SelfDelimiting

namespace Message

def line (m : Message) : List UInt8 := m.print ++ [10]

theorem line_eq (m : Message) :
    m.line = Decimal.numeral m.timestamp.toNat ++ 32 :: m.character :: 32 ::
      (m.message ++ [10]) := by
  simp [line, print, Decimal.numeral]

/-- The numeral ends with the first space, the character is one byte, and the text is known
or ends with the line. -/
theorem line_distinguished {m m' : Message}
    (htext : m.message = m'.message ∨ (10 ∉ m.message ∧ 10 ∉ m'.message)) :
    Distinguished line m m' := by
  intro rest rest' h
  rw [line_eq, line_eq] at h
  simp only [List.append_assoc, List.cons_append] at h
  obtain ⟨hnumeral, htail⟩ := separator_inj (p := fun b => Decimal.isDigit b = true)
    (Decimal.isNumber_numeral _).2 (Decimal.isNumber_numeral _).2 (by decide) h
  obtain ⟨hcharacter, htail⟩ := List.cons.inj htail
  obtain ⟨-, htail⟩ := List.cons.inj htail
  have htimestamp : m.timestamp = m'.timestamp := by
    have hvalue := congrArg Decimal.value hnumeral
    rw [Decimal.value_numeral, Decimal.value_numeral] at hvalue
    exact UInt64.toNat_inj.mp hvalue
  have hmessage : m.message = m'.message := by
    rcases htext with hsame | ⟨hm, hm'⟩
    · exact hsame
    · exact (separator_inj (p := fun b => b ≠ 10) (fun b hb => ne_of_mem_of_not_mem hb hm)
        (fun b hb => ne_of_mem_of_not_mem hb hm') (not_not.mpr rfl) htail).1
  exact Message.ext htimestamp hcharacter hmessage

end Message

namespace Client

def received (arrivals : List Arrival) : List Message :=
  arrivals.filterMap fun a => (decode true a.2.bytes).toOption

/-- The bytes on the standard output of a client. -/
def stdout (c : Client) (arrivals : List Arrival) : Except Abort (List UInt8) :=
  (c.printed arrivals).map List.flatten

theorem stdout_eq (c : Client) (arrivals : List Arrival) :
    c.stdout arrivals = .ok ((received arrivals).flatMap Message.line) := by
  have hlines : (arrivals.filterMap fun a => lineOf a.2) =
      (received arrivals).map Message.line := by
    rw [received, List.map_filterMap]
    congr 1
    funext a
    unfold lineOf
    cases decode true a.2.bytes <;> rfl
  rw [stdout, printed_eq, hlines]
  rfl

/-- As long as messages with different texts have no newlines in them, two clients, in
whatever state they are started, write the same exactly if they receive the same messages in
the same order. -/
theorem stdout_exact (c c' : Client) (arrivals arrivals' : List Arrival)
    (htexts : ∀ m ∈ received arrivals, ∀ m' ∈ received arrivals',
      m.message = m'.message ∨ (10 ∉ m.message ∧ 10 ∉ m'.message)) :
    c.stdout arrivals = c'.stdout arrivals' ↔ received arrivals = received arrivals' := by
  rw [stdout_eq, stdout_eq, Except.ok.injEq]
  constructor
  · apply flatMap_inj
    · simp [Message.line]
    · exact fun m hm m' hm' => Message.line_distinguished (htexts m hm m' hm')
  · intro hsame
    rw [hsame]

/-- A text with a newline in it passes for two messages. -/
example : [(⟨0, 97, [98, 10, 48, 32, 97, 32, 98], by decide⟩ : Message)].flatMap Message.line =
    [(⟨0, 97, [98], by decide⟩ : Message), ⟨0, 97, [98], by decide⟩].flatMap Message.line := by
  decide

theorem decode_strangerDatagram :
    decode true strangerDatagram.bytes = .ok ⟨0, 97, [98], by decide⟩ :=
  decode_eq_ok_iff.mpr ⟨by decide, by decide, by decide, by decide, by decide⟩

theorem stdout_exact_sample :
    sampleClient.stdout [(⟨7, 7⟩, strangerDatagram)] ≠
      sampleClient.stdout [(⟨7, 7⟩, strangerDatagram), (⟨8, 8⟩, strangerDatagram)] := by
  have hexact := stdout_exact sampleClient sampleClient [(⟨7, 7⟩, strangerDatagram)]
    [(⟨7, 7⟩, strangerDatagram), (⟨8, 8⟩, strangerDatagram)]
    (by simp [received, decode_strangerDatagram, Except.toOption])
  rw [ne_eq, hexact]
  simp [received, decode_strangerDatagram, Except.toOption]

end Client
end SikUdp
