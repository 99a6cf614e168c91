import SikUdp.Runs.Safety
import SikUdp.Wire.Formats

/-!
# What the server accepts

`receive` treats a datagram as one of a client exactly if it has the client format,
except for one kind of longer datagram: its tenth byte is NUL, so that the text
reads as empty and `has_message` finds nothing to object to.
-/
namespace SikUdp.Server

variable {bufferSize : ℕ} {rule : EraseRule}

/-- What the client format promises of one call: the message in a datagram of the format is
pushed, and any other is reported as invalid and changes neither the buffer nor the poll
set. -/
def ClientFormatExact (s : Server bufferSize) (source : SockAddr) (d : Datagram)
    (arrivalTime connectionTime : ℤ) : Prop :=
  ∃ s' events, s.receive ⟨.received source d, arrivalTime, connectionTime⟩ = .ok (s', events) ∧
    if IsClientDatagram d.bytes then
      ∃ message : Message, decode false d.bytes = .ok message ∧
        s'.buffer = s.buffer.push ⟨arrivalTime, some message, source⟩ ∧
        events = [.accepted d ⟨arrivalTime, some message, source⟩ (overwritten s.buffer),
          .registered source connectionTime]
    else
      s'.buffer = s.buffer ∧ s'.poll = s.poll ∧
        ∃ what, events = [.rejected source what, .registered source connectionTime]

theorem clientFormatExact_of_not_nulTail {s : Server bufferSize} (hs : s.Safe)
    {source : SockAddr} {d : Datagram} {arrivalTime connectionTime : ℤ}
    (htail : ¬ HasNulTail d.bytes) : s.ClientFormatExact source d arrivalTime connectionTime := by
  have haccept := decode_client_iff d.bytes
  obtain ⟨s', events, hreceive⟩ := receive_total hs.sockRegistered hs.records
    ⟨.received source d, arrivalTime, connectionTime⟩
  refine ⟨s', events, hreceive, ?_⟩
  cases receive_reception hs.sockRegistered hreceive with
  | failed hinput hadd => cases hinput
  | rejected what hinput hreject hadd =>
    cases hinput
    have hformat : ¬ IsClientDatagram d.bytes := by
      intro hformat
      obtain ⟨m, hm, hempty⟩ := haccept.mpr (Or.inl hformat)
      exact hreject m hm hempty
    rw [if_neg hformat]
    exact ⟨rfl, rfl, what, rfl⟩
  | accepted hinput hdecode hempty hpoll hadd =>
    cases hinput
    have hformat : IsClientDatagram d.bytes :=
      (haccept.mp ⟨_, hdecode, hempty⟩).resolve_right htail
    rw [if_pos hformat]
    exact ⟨_, hdecode, rfl, rfl⟩

theorem not_clientFormatExact_of_nulTail {s : Server bufferSize} (hs : s.Safe)
    {source : SockAddr} {d : Datagram} {arrivalTime connectionTime : ℤ}
    (htail : HasNulTail d.bytes) : ¬ s.ClientFormatExact source d arrivalTime connectionTime := by
  intro hexact
  obtain ⟨s', events, hreceive, hcases⟩ := hexact
  have hlong : ¬ IsClientDatagram d.bytes := by
    intro hformat
    have hend : d.bytes[9]? = none := List.getElem?_eq_none_iff.mpr hformat.1.le
    exact absurd (hend.symm.trans htail.1) (by simp)
  rw [if_neg hlong] at hcases
  obtain ⟨-, -, what, hevents⟩ := hcases
  cases receive_reception hs.sockRegistered hreceive with
  | failed hinput hadd => cases hinput
  | rejected what' hinput hreject hadd =>
    cases hinput
    obtain ⟨m, hm, hempty⟩ := (decode_client_iff d.bytes).mpr (Or.inr htail)
    exact hreject m hm hempty
  | accepted hinput hdecode hempty hpoll hadd => cases hevents

/-- The client format is recognized exactly on the datagrams without a NUL tail. -/
theorem clientFormatExact_iff {s : Server bufferSize} (hs : s.Reachable rule) (source : SockAddr)
    (d : Datagram) (arrivalTime connectionTime : ℤ) :
    s.ClientFormatExact source d arrivalTime connectionTime ↔ ¬ HasNulTail d.bytes := by
  constructor
  · intro hexact htail
    exact not_clientFormatExact_of_nulTail hs.safe htail hexact
  · exact clientFormatExact_of_not_nulTail hs.safe

theorem clientFormatExact_iff_sample :
    sampleServer.ClientFormatExact ⟨10, 1⟩ sampleDatagram 0 0 ↔ ¬ HasNulTail sampleDatagram.bytes :=
  clientFormatExact_iff (sampleServer_constructed.reachable .next) ⟨10, 1⟩ sampleDatagram 0 0

def nulTailDatagram : Datagram := ⟨[0, 0, 0, 0, 0, 0, 0, 0, 97, 0], by decide⟩

theorem nulTailDatagram_not_exact :
    ¬ sampleServer.ClientFormatExact ⟨10, 1⟩ nulTailDatagram 0 0 :=
  not_clientFormatExact_of_nulTail sampleServer_constructed.fresh.safe ⟨rfl, by decide⟩

end SikUdp.Server
