import SikUdp.Roster.Recency
import SikUdp.Runs.Records
import SikUdp.Runs.Sending

/-!
# Nobody else is sent anything

The wall clock may be set back, and where the iterator stands after an erasure is up to
`std::deque`. Then a client can miss a message, but none is sent one that has not registered
before with a reading of the clock in the two minutes up to that of the message.
-/
namespace SikUdp.Server

variable {bufferSize : ℕ} {rule : EraseRule}

def Present (past : List Event) : Event → Prop
  | .popped item recipients => ∀ a ∈ recipients, item.arrivalTime ∈ present (registrations past) a
  | _ => True

/-- The record of clients covers no more than it should, and never has. -/
structure Prudent (past : List Event) (s : Server bufferSize) : Prop where
  within : s.connections.Within (registrations past)
  present : TracedRun.Along Present [] past

theorem along_present {past events : List Event}
    (h : ∀ timestamp exclude, .getClients timestamp exclude ∉ callsOf events) :
    TracedRun.Along Present past events := by
  apply TracedRun.along_of_forall
  intro past e he
  cases e with
  | popped item recipients => exact absurd (popped_mem_callsOf he) (h _ _)
  | _ => trivial

theorem RosterStep.prudent {past events : List Event} {s s' : Server bufferSize}
    (h : RosterStep rule s events s') (hs : s.Prudent past) : s'.Prudent (past ++ events) := by
  cases h with
  | unchanged hcalls hconnections =>
    constructor
    · rw [registrations_append, ← registered_callsOf events, hcalls, hconnections]
      exact (List.append_nil _).symm ▸ hs.within
    · exact TracedRun.along_append.mpr ⟨hs.present, along_present (by simp [hcalls])⟩
  | registered hcalls hadd =>
    constructor
    · rw [registrations_append, ← registered_callsOf events, hcalls]
      exact hs.within.addClient hadd
    · exact TracedRun.along_append.mpr ⟨hs.present, along_present (by simp [hcalls])⟩
  | queried hget =>
    obtain ⟨hwithin, hfound⟩ := hs.within.getClients hget
    constructor
    · rw [registrations_append]
      exact (List.append_nil _).symm ▸ hwithin
    · exact TracedRun.along_append.mpr ⟨hs.present, hfound, trivial⟩

theorem run_prudent {s₀ s : Server bufferSize} (hs₀ : s₀.Constructed) {inputs : List Input}
    {trace : List Event} (h : TracedRun.run (step rule) s₀ inputs = .ok (s, trace)) :
    s.Prudent trace := by
  apply (run_path hs₀ h).invariant (fun past s => s.Prudent past)
  · exact fun past s events s' hs htrans => htrans.roster.prudent hs
  · refine ⟨?_, trivial⟩
    rw [hs₀.fresh.connections]
    exact Connections.Within.empty

/-- An attempt passes on an accepted datagram, with the file, to an address other than its
source which registered before the attempt, with a reading of the clock in the two minutes up
to that of the datagram. -/
def Passes (fileContent : List UInt8) (past : List Event) (attempt : Attempt) : Prop :=
  ∃ d item overwritten t, .accepted d item overwritten ∈ past ∧
    attempt.data = d.bytes.take 9 ++ fileContent ++ [0] ∧ attempt.address ≠ item.sender ∧
    .registered attempt.address t ∈ past ∧ t ≤ item.arrivalTime ∧ item.arrivalTime ≤ t + timeout

/-- Every datagram that the server sends, whatever the clock and the iterators do and in
whatever order it receives and sends, passes on a message to somebody else who registered
before it was sent, with a reading of the clock in the two minutes up to that of the message. -/
theorem sent_to_recent {s₀ s : Server bufferSize} (hs₀ : s₀.Constructed) {inputs : List Input}
    {trace : List Event} (h : TracedRun.run (step rule) s₀ inputs = .ok (s, trace))
    {before after : List Event} {attempt : Attempt}
    (htrace : trace = before ++ .attempted attempt :: after) :
    Passes s₀.fileContent before attempt := by
  have hjustified := (run_consistent hs₀ h).justified
  have hpresent := (run_prudent hs₀ h).present
  rw [htrace] at hjustified hpresent
  obtain ⟨front, job, hjobs, hrecipient, d, overwritten, haccepted, hdata⟩ := hjustified.split
  rw [List.nil_append] at hjobs haccepted
  have hpopped : .popped job.1 job.2 ∈ before := mem_jobs.mp (by simp [hjobs])
  have hdistinct := (run_consistent hs₀ h).distinct job
    (mem_jobs.mpr (htrace ▸ List.mem_append_left _ hpopped))
  obtain ⟨earlier, between, hsplit⟩ := List.append_of_mem hpopped
  rw [hsplit, List.append_assoc] at hpresent
  obtain ⟨t, ht, hwindow⟩ := mem_present.mp (hpresent.split attempt.address hrecipient)
  rw [List.nil_append] at ht
  refine ⟨d, job.1, overwritten, t, haccepted, hdata, ?_, ?_, hwindow⟩
  · intro hsender
    exact hdistinct.2 (hsender ▸ hrecipient)
  · rw [hsplit]
    exact List.mem_append_left _ (mem_registrations.mp ht)

theorem sent_to_recent_sample :
    ∃ (s₀ : Server 2) (before : List Event) (attempt : Attempt), s₀.Constructed ∧
      attempt.address = ⟨10, 2⟩ ∧ Passes s₀.fileContent before attempt := by
  obtain ⟨s, hreach, hclients⟩ := reachable_waiting
  obtain ⟨s', events, hsend⟩ := send_total EraseRule.next_goesOn.staysInside hreach.safe
    ⟨12, .other⟩
  obtain ⟨message, -, -, -, hattempts, -⟩ := send_turn hclients hsend
  obtain ⟨s₀, trace, hs₀, inputs, hrun⟩ := hreach
  have hlonger : TracedRun.run (step .next) s₀ (inputs ++ [.send ⟨12, .other⟩]) =
      .ok (s', trace ++ events) :=
    TracedRun.run_append_ok.mpr ⟨s, trace, events, hrun, TracedRun.run_singleton_ok.mpr hsend, rfl⟩
  have hmem : .attempted ⟨⟨10, 2⟩, Sender.dataOf message true, ⟨12, .other⟩⟩ ∈ trace ++ events := by
    obtain ⟨e, he, hattempt⟩ := List.mem_filterMap.mp (hattempts ▸ List.mem_singleton_self _ :
      ⟨⟨10, 2⟩, Sender.dataOf message true, ⟨12, .other⟩⟩ ∈ attempts events)
    cases e with
    | attempted attempt =>
      cases hattempt
      exact List.mem_append_right _ he
    | _ => cases hattempt
  obtain ⟨before, after, hsplit⟩ := List.append_of_mem hmem
  exact ⟨s₀, before, _, hs₀, rfl, sent_to_recent hs₀ hlonger hsplit⟩

end SikUdp.Server
