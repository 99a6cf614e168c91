import SikUdp.Roster.Presence
import SikUdp.Runs.Observations

/-!
# Who receives a message

Recipients are computed when a message leaves the buffer, from a record of clients that
later datagrams have changed. With a clock that is never set back and no failing
`recvfrom` the moment hardly matters: only a client whose datagram comes after the
message but within the same second can be a recipient or not.
-/
namespace SikUdp.Server

variable {bufferSize : ℕ} {rule : EraseRule}

def Answered (past : List Event) : Event → Prop
  | .popped item recipients => ∀ a, a ∈ recipients ↔
      a ≠ item.sender ∧ item.arrivalTime ∈ present (registrations past) a
  | _ => True

/-- The record of clients represents the history. -/
structure Faithful (past : List Event) (s : Server bufferSize) : Prop where
  represents : Connections.Represents (registrations past) (queried past) s.connections
  answered : TracedRun.Along Answered [] past

theorem queried_of_jobs {past events : List Event} (h : jobs (past ++ events) = jobs past) :
    queried (past ++ events) = queried past := by
  unfold queried
  rw [h]

namespace Faithful
variable {past events : List Event} {s s' : Server bufferSize}

theorem registered (h : s.Faithful past) (hsteady : Steady (past ++ events)) {a : SockAddr} {t : ℤ}
    (hadd : s.connections.addClient a t = .ok s'.connections)
    (hregistrations : registrations events = [(a, t)])
    (hjobs : jobs (past ++ events) = jobs past)
    (hanswered : TracedRun.Along Answered past events) : s'.Faithful (past ++ events) := by
  constructor
  · rw [registrations_append, hregistrations, queried_of_jobs hjobs]
    apply h.represents.addClient _ hadd
    intro u hu
    have hlast : (a, t) ∈ registrations events := by simp [hregistrations]
    exact hsteady.le (mem_readings_of_registrations hu) (mem_readings_of_registrations hlast)
  · exact TracedRun.along_append.mpr ⟨h.answered, hanswered⟩

theorem silent (h : s.Faithful past) (hconnections : s'.connections = s.connections)
    (hregistrations : registrations events = []) (hjobs : jobs (past ++ events) = jobs past)
    (hanswered : TracedRun.Along Answered past events) : s'.Faithful (past ++ events) := by
  constructor
  · rw [registrations_append, hregistrations, queried_of_jobs hjobs, hconnections,
      List.append_nil]
    exact h.represents
  · exact TracedRun.along_append.mpr ⟨h.answered, hanswered⟩

/-- Messages leave the buffer in the order of their arrival times. -/
theorem queried_le {fileContent : List UInt8} (hs : s.Consistent rule fileContent past)
    (hsteady : Steady past) {item : BufferData} {rest : List BufferData}
    (hbuffer : s.buffer.toList = item :: rest) : ∀ q ∈ queried past, q ≤ item.arrivalTime := by
  intro q hq
  obtain ⟨job, hjob, rfl⟩ := List.mem_map.mp hq
  obtain ⟨r, hr, hrjob⟩ := List.mem_filterMap.mp hjob
  obtain ⟨recipients, -, heq⟩ := Option.map_eq_some_iff.mp hrjob
  cases heq
  have hsorted := hsteady.sublist (arrivalTimes_sublist past)
  rw [hs.fifo, hbuffer, List.map_append, List.pairwise_append] at hsorted
  apply hsorted.2.2
  · exact List.mem_map_of_mem (List.mem_map_of_mem hr)
  · simp

theorem popped (h : s.Faithful past) (hrule : rule.GoesOn) {fileContent : List UInt8}
    (hs : s.Consistent rule fileContent past) (hsteady : Steady past) {item : BufferData}
    {recipients : List SockAddr} (hbuffer : s.buffer.toList = item :: s'.buffer.toList)
    (hget : s.connections.getClients rule item.arrivalTime (some item.sender) =
      .ok (s'.connections, recipients)) :
    s'.Faithful (past ++ [.popped item recipients]) := by
  obtain ⟨hrepresents, hanswer⟩ :=
    h.represents.getClients hrule (queried_le hs hsteady hbuffer) hget
  have hregistrations : registrations (past ++ [.popped item recipients]) = registrations past :=
    (registrations_append past _).trans (List.append_nil _)
  have hqueried : queried (past ++ [.popped item recipients]) =
      queried past ++ [item.arrivalTime] := by
    rw [queried, jobs_popped, List.map_append]
    rfl
  constructor
  · rw [hregistrations, hqueried]
    exact hrepresents
  · refine TracedRun.along_append.mpr ⟨h.answered, ?_, trivial⟩
    intro a
    rw [hanswer a, List.nil_append]
    simp [eq_comm]

end Faithful

theorem Delivery.faithful {fileContent : List UInt8} {past events : List Event}
    {s s' : Server bufferSize} (hrule : rule.GoesOn) (h : Delivery rule s events s')
    (hs : s.Consistent rule fileContent past) (hsteady : Steady past) (hf : s.Faithful past) :
    s'.Faithful (past ++ events) := by
  cases h with
  | popped hidle hbuffer hget hmessage => exact hf.popped hrule hs hsteady hbuffer hget
  | idle hidle hempty hpoll => exact hf.silent rfl rfl (by rw [List.append_nil]) trivial
  | blocked hclients hmessage hblock =>
    exact hf.silent rfl rfl (jobs_of_removedItems (by simp [removedItems, removedItem]))
      ⟨trivial, trivial⟩
  | completed hclients hmessage hdone hprinted =>
    rcases hprinted with rfl | rfl
    · exact hf.silent rfl rfl (jobs_of_removedItems (by simp [removedItems, removedItem]))
        ⟨trivial, trivial⟩
    · exact hf.silent rfl rfl (jobs_of_removedItems (by simp [removedItems, removedItem]))
        ⟨trivial, trivial, trivial⟩

theorem Transition.faithful {fileContent : List UInt8} {past events : List Event}
    {s s' : Server bufferSize} (hrule : rule.GoesOn) (h : Transition rule s events s')
    (hs : s.Consistent rule fileContent past) (hsteady : Steady (past ++ events))
    (hf : s.Faithful past) : s'.Faithful (past ++ events) := by
  cases h with
  | wait answer => exact hf.silent rfl rfl (by rw [List.append_nil]) trivial
  | stop => exact hf.silent rfl rfl (by rw [List.append_nil]) trivial
  | receiveFailed hadd =>
    exact hf.registered hsteady hadd rfl
      (jobs_of_removedItems (by simp [removedItems, removedItem])) ⟨trivial, trivial, trivial⟩
  | rejected what hadd =>
    exact hf.registered hsteady hadd rfl
      (jobs_of_removedItems (by simp [removedItems, removedItem])) ⟨trivial, trivial, trivial⟩
  | accepted arrivalTime hdecode hempty hpoll hadd =>
    refine hf.registered hsteady hadd rfl ?_ ⟨trivial, trivial, trivial⟩
    rw [List.append_cons]
    exact (jobs_registered _ _ _).trans (jobs_accepted past _ _ _)
  | delivery h => exact h.faithful hrule hs hsteady.of_append hf

theorem run_faithful (hrule : rule.GoesOn) {s₀ s : Server bufferSize} (hs₀ : s₀.Constructed)
    {inputs : List Input} {trace : List Event}
    (h : TracedRun.run (step rule) s₀ inputs = .ok (s, trace)) (hsteady : Steady trace) :
    s.Faithful trace := by
  have hinvariant : s.Consistent rule s₀.fileContent trace ∧ (Steady trace → s.Faithful trace) := by
    apply (run_path hs₀ h).invariant fun past s =>
      s.Consistent rule s₀.fileContent past ∧ (Steady past → s.Faithful past)
    · intro past s₁ events s₂ hpast hstep
      refine ⟨hstep.consistent hpast.1, fun hsteady => ?_⟩
      exact hstep.faithful hrule hpast.1 hsteady (hpast.2 hsteady.of_append)
    · refine ⟨hs₀.fresh.consistent, fun _ => ⟨?_, trivial⟩⟩
      rw [hs₀.fresh.connections]
      exact Connections.Represents.empty
  exact hinvariant.2 hsteady

/-- The run takes the message that was accepted after `before` from the buffer, once
`between` has happened: it is the one to leave the buffer then. -/
def Taken (trace before : List Event) (item : BufferData) (between : List Event)
    (recipients : List SockAddr) : Prop :=
  ∃ d overwritten later,
    trace = before ++ .accepted d item overwritten ::
        (between ++ .popped item recipients :: later) ∧
      (acceptedItems before).length =
        (removedItems (before ++ .accepted d item overwritten :: between)).length

theorem recipients_iff (hrule : rule.GoesOn) {s₀ s : Server bufferSize} (hs₀ : s₀.Constructed)
    {inputs : List Input} {trace : List Event}
    (h : TracedRun.run (step rule) s₀ inputs = .ok (s, trace)) (hsteady : Steady trace)
    {before between : List Event} {item : BufferData} {recipients : List SockAddr}
    (htaken : Taken trace before item between recipients) (a : SockAddr) :
    a ∈ recipients ↔ a ≠ item.sender ∧
      ((∃ t, (a, t) ∈ registrations before ∧ item.arrivalTime - timeout ≤ t) ∨
        (a, item.arrivalTime) ∈ registrations between) := by
  obtain ⟨d, overwritten, later, htrace, -⟩ := htaken
  have hfaithful := (run_faithful hrule hs₀ h hsteady).answered
  rw [htrace] at hsteady
  have hafter : ∀ u ∈ registrations between, item.arrivalTime ≤ u.2 := by
    intro u hu
    rw [List.append_cons, ← List.append_assoc] at hsteady
    refine hsteady.of_append.le ?_ (mem_readings_of_registrations hu)
    rw [readings_append]
    exact List.mem_append_right _ List.mem_cons_self
  have hbefore : ∀ u ∈ registrations before, u.2 ≤ item.arrivalTime := by
    intro u hu
    exact hsteady.le (mem_readings_of_registrations hu) List.mem_cons_self
  have hregistrations : registrations (before ++ .accepted d item overwritten :: between) =
      registrations before ++ registrations between := registrations_append before _
  rw [htrace, ← List.cons_append, ← List.append_assoc] at hfaithful
  rw [hfaithful.split a, List.nil_append, hregistrations, mem_present]
  simp only [List.mem_append]
  apply and_congr_right
  intro hother
  constructor
  · rintro ⟨t, ht | ht, hle, hwindow⟩
    · exact Or.inl ⟨t, ht, by omega⟩
    · have hge := hafter (a, t) ht
      have heq : t = item.arrivalTime := le_antisymm hle hge
      exact Or.inr (heq ▸ ht)
  · rintro (⟨t, ht, hwindow⟩ | ht)
    · exact ⟨t, Or.inl ht, hbefore (a, t) ht, by omega⟩
    · exact ⟨item.arrivalTime, Or.inr ht, le_rfl, by unfold timeout; omega⟩

theorem recipients_nodup {s₀ s : Server bufferSize} (hs₀ : s₀.Constructed) {inputs : List Input}
    {trace : List Event} (h : TracedRun.run (step rule) s₀ inputs = .ok (s, trace))
    {before between : List Event} {item : BufferData} {recipients : List SockAddr}
    (htaken : Taken trace before item between recipients) : recipients.Nodup := by
  obtain ⟨d, overwritten, later, htrace, -⟩ := htaken
  have hjustified := (run_consistent hs₀ h).justified
  rw [htrace, ← List.cons_append, ← List.append_assoc] at hjustified
  exact hjustified.split.1

/-- Runs that receive the same answers to `receive` observe the same before their `n`-th
accepted message. -/
theorem taken_unique {trace trace' before before' between between' : List Event}
    {item item' : BufferData} {recipients recipients' : List SockAddr}
    (hsame : observations trace' = observations trace)
    (htaken : Taken trace before item between recipients)
    (htaken' : Taken trace' before' item' between' recipients')
    (hindex : (acceptedItems before').length = (acceptedItems before).length) :
    observations before' = observations before ∧ item' = item := by
  obtain ⟨d, overwritten, later, rfl, -⟩ := htaken
  obtain ⟨d', overwritten', later', rfl, -⟩ := htaken'
  rw [observations_append, observations_append] at hsame
  rw [acceptedItems_eq, acceptedItems_eq] at hindex
  obtain ⟨hbefore, hitem⟩ := TracedRun.nth_unique hsame (by simp) (by simp) hindex
  exact ⟨hbefore, Sum.inl.inj hitem⟩

/-- With a steady clock and no failing `recvfrom` the recipients of a message are the
clients that had sent something in the two minutes before it, and those that sent
something after it but within the same second. Runs that receive the same datagrams
at the same times agree on the recipients up to the latter. -/
theorem recipients_exact (hrule : rule.GoesOn) {s₀ s : Server bufferSize} (hs₀ : s₀.Constructed)
    {inputs : List Input} {trace : List Event}
    (h : TracedRun.run (step rule) s₀ inputs = .ok (s, trace))
    (hreceived : ∀ input ∈ receives inputs, input.recvfrom ≠ .failed) (hsteady : Steady trace) :
    registrations trace = receipts inputs ∧
    (∀ before item between recipients, Taken trace before item between recipients →
      recipients.Nodup ∧ ∀ a, a ∈ recipients ↔ a ≠ item.sender ∧
        ((∃ t, (a, t) ∈ registrations before ∧ item.arrivalTime - timeout ≤ t) ∨
          (a, item.arrivalTime) ∈ registrations between)) ∧
    ∀ inputs' s' trace', TracedRun.run (step rule) s₀ inputs' = .ok (s', trace') →
      receives inputs' = receives inputs →
      ∀ before item between recipients before' item' between' recipients',
        Taken trace before item between recipients →
        Taken trace' before' item' between' recipients' →
        (acceptedItems before').length = (acceptedItems before).length →
        item' = item ∧ ∀ a, (a, item.arrivalTime) ∉ registrations between →
          (a, item.arrivalTime) ∉ registrations between' → (a ∈ recipients' ↔ a ∈ recipients) := by
  have hsock := hs₀.fresh.sockRegistered
  refine ⟨registrations_eq_receipts hsock h hreceived, ?_, ?_⟩
  · intro before item between recipients htaken
    exact ⟨recipients_nodup hs₀ h htaken, recipients_iff hrule hs₀ h hsteady htaken⟩
  · intro inputs' s' trace' h' hsame before item between recipients before' item' between'
      recipients' htaken htaken' hindex
    have hobservations : observations trace' = observations trace := by
      rw [run_observations hsock h, run_observations hsock h', hsame]
    have hsteady' : Steady trace' := by
      unfold Steady readings
      rw [hobservations]
      exact hsteady
    obtain ⟨hbefore, rfl⟩ := taken_unique hobservations htaken htaken' hindex
    refine ⟨rfl, ?_⟩
    intro a hbetween hbetween'
    have hregistrations : registrations before' = registrations before := by
      unfold registrations
      rw [hbefore]
    rw [recipients_iff hrule hs₀ h hsteady htaken, recipients_iff hrule hs₀ h' hsteady' htaken',
      hregistrations]
    simp [hbetween, hbetween']

theorem sampleTrace_taken :
    Taken sampleTrace [.accepted sampleDatagram (sampleItem ⟨10, 1⟩) none, .registered ⟨10, 1⟩ 0]
      (sampleItem ⟨10, 2⟩)
      [.registered ⟨10, 2⟩ 0,
        .accepted sampleDatagram (sampleItem ⟨10, 3⟩) (some (sampleItem ⟨10, 1⟩)),
        .registered ⟨10, 3⟩ 0]
      [⟨10, 1⟩, ⟨10, 3⟩] :=
  ⟨sampleDatagram, none, _, rfl, rfl⟩

theorem sampleTrace_steady : Steady sampleTrace := by
  unfold Steady
  decide

theorem sampleInputs_received : ∀ input ∈ receives sampleInputs, input.recvfrom ≠ .failed := by
  simp [sampleInputs, receives]

theorem recipients_exact_sample :
    ∃ s before between,
      TracedRun.run (step .next) sampleServer sampleInputs = .ok (s, sampleTrace) ∧
      Taken sampleTrace before (sampleItem ⟨10, 2⟩) between [⟨10, 1⟩, ⟨10, 3⟩] ∧
      registrations sampleTrace = receipts sampleInputs ∧
      ∀ a, a ∈ [⟨10, 1⟩, ⟨10, 3⟩] ↔ a ≠ ⟨10, 2⟩ ∧
        ((∃ t, (a, t) ∈ [(⟨10, 1⟩, 0)] ∧ 0 - timeout ≤ t) ∨
          (a, 0) ∈ [((⟨10, 2⟩ : SockAddr), (0 : ℤ)), (⟨10, 3⟩, 0)]) := by
  obtain ⟨s, hrun, -⟩ := sampleInputs_run
  obtain ⟨hreceipts, hrecipients, -⟩ := recipients_exact EraseRule.next_goesOn
    sampleServer_constructed hrun sampleInputs_received sampleTrace_steady
  exact ⟨s, _, _, hrun, sampleTrace_taken, hreceipts, (hrecipients _ _ _ _ sampleTrace_taken).2⟩

/-- A client heard of for the first time after a message, in the same second, is a recipient
of it. -/
theorem same_second_recipient :
    ¬ ∀ inputs s trace, TracedRun.run (step .next) sampleServer inputs = .ok (s, trace) →
      (∀ input ∈ receives inputs, input.recvfrom ≠ .failed) → Steady trace →
      ∀ before item between recipients, Taken trace before item between recipients →
        ∀ a, a ∈ recipients ↔ a ≠ item.sender ∧
          ∃ t, (a, t) ∈ registrations before ∧ item.arrivalTime - timeout ≤ t := by
  intro hclaim
  obtain ⟨s, hrun, -⟩ := sampleInputs_run
  have hmember := hclaim _ _ _ hrun sampleInputs_received sampleTrace_steady _ _ _ _
    sampleTrace_taken ⟨10, 3⟩
  obtain ⟨-, t, ht, -⟩ := hmember.mp (by simp)
  have hfirst : ((⟨10, 3⟩ : SockAddr), t) = (⟨10, 1⟩, 0) := List.mem_singleton.mp ht
  cases hfirst

end SikUdp.Server
