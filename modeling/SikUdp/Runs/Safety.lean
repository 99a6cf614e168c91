import SikUdp.Runs.EventLoop

/-!
# Wake-ups and the absence of escaping exceptions

Two invariants of every reachable state. The socket is always watched for
reading, and for writing whenever something waits to be sent. And everything a
step dereferences or looks up is there, so that no step ends in an exception.
-/
namespace SikUdp.Server

variable {bufferSize : ℕ} {rule : EraseRule}

def AsksFor (s : Server bufferSize) (mask : EventMask) : Prop :=
  ∃ events, s.poll.events s.sock = some events ∧ events &&& mask ≠ 0

/-- Something waits to be sent. -/
def HasWork (s : Server bufferSize) : Prop := s.buffer.toList ≠ [] ∨ s.currentClients ≠ []

structure Wakeful (s : Server bufferSize) : Prop where
  readable : s.AsksFor POLLIN
  writable : s.HasWork → s.AsksFor POLLOUT

theorem Fresh.wakeful {s : Server bufferSize} (h : s.Fresh) : s.Wakeful where
  readable := ⟨_, h.events, by decide⟩
  writable := fun _ => ⟨_, h.events, by decide⟩

theorem Delivery.wakeful {s s' : Server bufferSize} {events : List Event}
    (h : Delivery rule s events s') (hsock : s.SockRegistered) (hs : s.Wakeful) :
    s'.Wakeful := by
  cases h with
  | popped hidle hbuffer hget hmessage =>
    -- the buffer was not empty before the pop
    have hwork : s.HasWork := Or.inl (by simp [hbuffer])
    exact ⟨hs.readable, fun _ => hs.writable hwork⟩
  | idle hidle hempty hpoll =>
    refine ⟨⟨_, (s.poll.of_setEvents hsock hpoll).2, by decide⟩, ?_⟩
    intro hwork
    rcases hwork with hbuffer | hclients
    · exact absurd hempty hbuffer
    · exact absurd hidle hclients
  | blocked hclients hmessage hblock =>
    have hwork : s.HasWork := Or.inr (by simp [hclients])
    exact ⟨hs.readable, fun _ => hs.writable hwork⟩
  | completed hclients hmessage hdone hprinted =>
    have hwork : s.HasWork := Or.inr (by simp [hclients])
    exact ⟨hs.readable, fun _ => hs.writable hwork⟩

theorem Transition.wakeful {s s' : Server bufferSize} {events : List Event}
    (h : Transition rule s events s') (hsock : s.SockRegistered) (hs : s.Wakeful) :
    s'.Wakeful := by
  cases h with
  | wait answer =>
    have hevents := s.poll.events_wait answer s.sock
    constructor
    · obtain ⟨e, he, hmask⟩ := hs.readable
      exact ⟨e, hevents.trans he, hmask⟩
    · intro hwork
      obtain ⟨e, he, hmask⟩ := hs.writable hwork
      exact ⟨e, hevents.trans he, hmask⟩
  | stop => exact ⟨hs.readable, hs.writable⟩
  | receiveFailed hadd => exact ⟨hs.readable, hs.writable⟩
  | rejected what hadd => exact ⟨hs.readable, hs.writable⟩
  | accepted arrivalTime hdecode hempty hpoll hadd =>
    have hevents := (s.poll.of_setEvents hsock hpoll).2
    exact ⟨⟨_, hevents, by decide⟩, fun _ => ⟨_, hevents, by decide⟩⟩
  | delivery h => exact h.wakeful hsock hs

theorem Reachable.wakeful {s : Server bufferSize} (hs : s.Reachable rule) : s.Wakeful := by
  have hgood : s.SockRegistered ∧ s.Wakeful := by
    apply hs.invariant
    · intro s hfresh
      exact ⟨hfresh.sockRegistered, hfresh.wakeful⟩
    · intro s events s' hgood htrans
      exact ⟨htrans.sockRegistered hgood.1, htrans.wakeful hgood.1 hgood.2⟩
  exact hgood.2

/-- In every reachable state the socket is watched for reading, and for writing if
something waits to be sent. So `send` gives up writing only with nothing to send. -/
theorem wakeup_kept {s : Server bufferSize} (hs : s.Reachable rule) :
    (s.AsksFor POLLIN ∧ (s.buffer.toList ≠ [] ∨ s.currentClients ≠ [] → s.AsksFor POLLOUT)) ∧
    ∀ answer s' events, s.send rule answer = .ok (s', events) → ¬ s'.AsksFor POLLOUT →
      s'.buffer.toList = [] ∧ s'.currentClients = [] := by
  refine ⟨⟨hs.wakeful.readable, hs.wakeful.writable⟩, ?_⟩
  intro answer s' events hsend hdropped
  have hs' : s'.Reachable rule := hs.step (.send answer) hsend
  have hwork : ¬ s'.HasWork := fun hwork => hdropped (hs'.wakeful.writable hwork)
  exact ⟨not_not.mp fun hbuffer => hwork (Or.inl hbuffer),
    not_not.mp fun hclients => hwork (Or.inr hclients)⟩

theorem wakeup_kept_sample :
    ∃ s : Server 2, s.Reachable .next ∧ s.buffer.toList ≠ [] ∧ s.AsksFor POLLOUT := by
  obtain ⟨s, hreceive, hs⟩ := sampleServer_holds.receive ⟨10, 1⟩ (by simp) rfl
  have hreach : s.Reachable .next :=
    (sampleServer_constructed.reachable .next).receive _ hreceive
  have hbuffer : s.buffer.toList ≠ [] := by
    rw [hs.buffer]
    exact List.cons_ne_nil _ _
  exact ⟨s, hreach, hbuffer, (wakeup_kept hreach).1.2 (Or.inl hbuffer)⟩

/-- The descriptor is registered, queued items and the message being sent exist, and
no record has an empty queue. -/
structure Safe (s : Server bufferSize) : Prop where
  sockRegistered : s.SockRegistered
  queued : ∀ item ∈ s.buffer.toList, ∃ message, item.message = some message
  loaded : s.currentClients ≠ [] → ∃ message, s.currentMessage = some message
  records : ∀ c ∈ s.connections.clients, c.connections ≠ []

theorem Fresh.safe {s : Server bufferSize} (h : s.Fresh) : s.Safe where
  sockRegistered := h.sockRegistered
  queued := by simp [h.buffer]
  loaded := fun hclients => absurd h.currentClients hclients
  records := by simp [h.connections, Connections.empty]

theorem Delivery.safe {s s' : Server bufferSize} {events : List Event}
    (h : Delivery rule s events s') (hs : s.Safe) : s'.Safe := by
  have hsock := h.sockRegistered hs.sockRegistered
  cases h with
  | popped hidle hbuffer hget hmessage =>
    have hrecords := (Connections.getClients_traversed hget).nonempty hs.records
    refine ⟨hsock, ?_, fun _ => ⟨_, rfl⟩, hrecords⟩
    intro item hitem
    exact hs.queued item (by simp [hbuffer, hitem])
  | idle hidle hempty hpoll => exact ⟨hsock, hs.queued, hs.loaded, hs.records⟩
  | blocked hclients hmessage hblock =>
    exact ⟨hsock, hs.queued, fun _ => ⟨_, hmessage⟩, hs.records⟩
  | completed hclients hmessage hdone hprinted =>
    exact ⟨hsock, hs.queued, fun _ => ⟨_, hmessage⟩, hs.records⟩

theorem Transition.safe {s s' : Server bufferSize} {events : List Event}
    (h : Transition rule s events s') (hs : s.Safe) : s'.Safe := by
  have hsock := h.sockRegistered hs.sockRegistered
  cases h with
  | wait answer => exact ⟨hsock, hs.queued, hs.loaded, hs.records⟩
  | stop => exact ⟨hsock, hs.queued, hs.loaded, hs.records⟩
  | receiveFailed hadd =>
    exact ⟨hsock, hs.queued, hs.loaded, Connections.addClient_nonempty hs.records hadd⟩
  | rejected what hadd =>
    exact ⟨hsock, hs.queued, hs.loaded, Connections.addClient_nonempty hs.records hadd⟩
  | accepted arrivalTime hdecode hempty hpoll hadd =>
    refine ⟨hsock, ?_, hs.loaded, Connections.addClient_nonempty hs.records hadd⟩
    intro item hitem
    rw [Buffer.toList_push] at hitem
    rcases BoundedFifo.mem_of_mem_push hitem with hold | rfl
    · exact hs.queued item hold
    · exact ⟨_, rfl⟩
  | delivery h => exact h.safe hs

theorem Reachable.safe {s : Server bufferSize} (hs : s.Reachable rule) : s.Safe :=
  hs.invariant (fun _ hfresh => hfresh.safe) fun _ _ _ hsafe htrans => htrans.safe hsafe

theorem prepareOne_total (hrule : rule.StaysInside) {s : Server bufferSize} (hs : s.Safe)
    (hbuffer : s.buffer.size > 0) : ∃ s' e, s.prepareOne rule = .ok (s', e) := by
  obtain ⟨item, rest, hitems⟩ := List.exists_cons_of_ne_nil (s.buffer.size_pos_iff.mp hbuffer)
  obtain ⟨buffer, hpop, -⟩ := s.buffer.pop_eq_ok hitems
  obtain ⟨connections, recipients, hget⟩ := Connections.getClients_total hrule s.connections
    item.arrivalTime (some item.sender)
  obtain ⟨message, hmessage⟩ := hs.queued item (by simp [hitems])
  exact ⟨_, _, prepareOne_eq hpop hget hmessage⟩

theorem prepareOne_safe {s s' : Server bufferSize} {e : Event} (hs : s.Safe)
    (hidle : s.currentClients = []) (h : s.prepareOne rule = .ok (s', e)) : s'.Safe := by
  obtain ⟨item, message, recipients, connections, buffer, hbuffer, hget, hmessage, rfl, rfl⟩ :=
    prepareOne_cases h
  have hpopped : Delivery rule s _ _ := .popped hidle hbuffer hget hmessage
  exact hpopped.safe hs

/-- The loop of `prepare_send_data` ends, and every message it takes is there. -/
theorem prepareSendData_total (hrule : rule.StaysInside) {s : Server bufferSize} (hs : s.Safe) :
    ∃ s' popped, s.prepareSendData rule = .ok (s', popped) ∧ s'.Safe := by
  induction hsize : s.buffer.size using Nat.strong_induction_on generalizing s with
  | _ size ih =>
    rw [prepareSendData]
    split_ifs with hguard
    · have hidle := List.length_eq_zero_iff.mp hguard.1
      obtain ⟨s₁, e, hone⟩ := prepareOne_total hrule hs hguard.2
      obtain ⟨s₂, later, hrest, hs₂⟩ :=
        ih _ (hsize ▸ prepareOne_size hone) (prepareOne_safe hs hidle hone) rfl
      refine ⟨s₂, e :: later, ?_, hs₂⟩
      split
      · rename_i a herror
        rw [hone] at herror
        cases herror
      · rename_i s₁' e' hone'
        rw [hone] at hone'
        cases hone'
        rw [hrest]
        rfl
    · exact ⟨s, [], rfl, hs⟩

theorem send_total (hrule : rule.StaysInside) {s : Server bufferSize} (hs : s.Safe)
    (answer : SendtoResult) : ∃ s' events, s.send rule answer = .ok (s', events) := by
  obtain ⟨s₁, popped, hprepare, hs₁⟩ := prepareSendData_total hrule hs
  cases hclients : s₁.currentClients with
  | nil =>
    obtain ⟨poll, hpoll, -⟩ := s₁.poll.setEvents_eq_ok hs₁.sockRegistered POLLIN
    exact ⟨_, _, send_eq_idle hprepare hclients hpoll answer⟩
  | cons a rest =>
    obtain ⟨message, hmessage⟩ := hs₁.loaded (by simp [hclients])
    exact ⟨_, _, send_eq_turn hprepare hclients hmessage answer⟩

theorem step_safe {s s' : Server bufferSize} {input : Input} {events : List Event} (hs : s.Safe)
    (h : s.step rule input = .ok (s', events)) : s'.Safe :=
  (step_path hs.sockRegistered h).preserves (fun _ _ _ hsafe htrans => htrans.safe hsafe) hs

theorem step_total (hrule : rule.StaysInside) {s : Server bufferSize} (hs : s.Safe)
    (input : Input) : ∃ s' events, s.step rule input = .ok (s', events) ∧ s'.Safe := by
  have hstep : ∃ s' events, s.step rule input = .ok (s', events) := by
    cases input with
    | wait answer => exact ⟨_, _, step_wait rule s answer⟩
    | receive input => exact receive_total hs.sockRegistered hs.records input
    | send answer => exact send_total hrule hs answer
    | stop => exact ⟨_, _, rfl⟩
  obtain ⟨s', events, hstep⟩ := hstep
  exact ⟨s', events, hstep, step_safe hs hstep⟩

theorem Constructed.run_total {s₀ : Server bufferSize} (hs₀ : s₀.Constructed)
    (hrule : rule.StaysInside) (inputs : List Input) :
    ∃ s trace, TracedRun.run (step rule) s₀ inputs = .ok (s, trace) := by
  obtain ⟨s, trace, hrun, -⟩ := TracedRun.run_total
    (fun s input hs => step_total hrule hs input) inputs hs₀.fresh.safe
  exact ⟨s, trace, hrun⟩

theorem prepareOne_error {s : Server bufferSize} (hs : s.Safe) (hbuffer : s.buffer.size > 0)
    {a : Abort} (h : s.prepareOne rule = .error a) : a = .undefined := by
  obtain ⟨item, rest, hitems⟩ := List.exists_cons_of_ne_nil (s.buffer.size_pos_iff.mp hbuffer)
  obtain ⟨buffer, hpop, -⟩ := s.buffer.pop_eq_ok hitems
  obtain ⟨message, hmessage⟩ := hs.queued item (by simp [hitems])
  cases hget : s.connections.getClients rule item.arrivalTime (some item.sender) with
  | ok r => cases h.symm.trans (prepareOne_eq hpop hget hmessage)
  | error b =>
    have hundefined := Connections.getClients_error hget
    rw [prepareOne, hpop] at h
    simp only [bind, Except.bind, hget] at h
    exact (Except.error.inj h).symm.trans hundefined

theorem prepareSendData_error {s : Server bufferSize} (hs : s.Safe) {a : Abort}
    (h : s.prepareSendData rule = .error a) : a = .undefined := by
  induction hsize : s.buffer.size using Nat.strong_induction_on generalizing s with
  | _ size ih =>
    rw [prepareSendData] at h
    split_ifs at h with hguard
    split at h
    · rename_i b hone
      exact (Except.error.inj h).symm.trans (prepareOne_error hs hguard.2 hone)
    · rename_i s₁ e hone
      have hidle := List.length_eq_zero_iff.mp hguard.1
      exact ih _ (hsize ▸ prepareOne_size hone) (prepareOne_safe hs hidle hone)
        (TracedRun.map_error_iff.mp h) rfl

theorem prepareSendData_safe {s s' : Server bufferSize} {popped : List Event} (hs : s.Safe)
    (h : s.prepareSendData rule = .ok (s', popped)) : s'.Safe :=
  (prepareSendData_path h).1.preserves (fun _ _ _ hsafe hstep => hstep.safe hsafe) hs

theorem send_error {s : Server bufferSize} (hs : s.Safe) {answer : SendtoResult} {a : Abort}
    (h : s.send rule answer = .error a) : a = .undefined := by
  cases hprepare : s.prepareSendData rule with
  | error b =>
    rw [send, hprepare] at h
    exact (Except.error.inj h).symm.trans (prepareSendData_error hs hprepare)
  | ok r =>
    obtain ⟨s₁, popped⟩ := r
    have hs₁ := prepareSendData_safe hs hprepare
    cases hclients : s₁.currentClients with
    | nil =>
      obtain ⟨poll, hpoll, -⟩ := s₁.poll.setEvents_eq_ok hs₁.sockRegistered POLLIN
      cases h.symm.trans (send_eq_idle hprepare hclients hpoll answer)
    | cons b rest =>
      obtain ⟨message, hmessage⟩ := hs₁.loaded (by simp [hclients])
      cases h.symm.trans (send_eq_turn hprepare hclients hmessage answer)

/-- The traversal alone can go wrong, and it throws nothing. -/
theorem step_error {s : Server bufferSize} (hs : s.Safe) {input : Input} {a : Abort}
    (h : s.step rule input = .error a) : a = .undefined := by
  cases input with
  | wait answer => cases h.symm.trans (step_wait rule s answer)
  | receive input =>
    obtain ⟨s', events, hreceive⟩ := receive_total hs.sockRegistered hs.records input
    cases h.symm.trans hreceive
  | send answer => exact send_error hs h
  | stop => cases h

theorem Constructed.run_error {s₀ : Server bufferSize} (hs₀ : s₀.Constructed)
    {inputs : List Input} {a : Abort}
    (h : TracedRun.run (step rule) s₀ inputs = .error a) : a = .undefined :=
  TracedRun.run_error (fun _ _ _ _ hs hstep => step_safe hs hstep)
    (fun _ _ _ hs hstep => step_error hs hstep) hs₀.fresh.safe h

/-- No exception leaves a `noexcept` function: whatever the traversal does, the loop and every
sequence of its steps go on or are undefined. With a well-defined traversal they go on for
ever, and in every state reached the descriptor is found, a message is taken only from a
buffer that holds one, and `send_message` has a message to dereference. -/
theorem never_aborts {s₀ : Server bufferSize} (hs₀ : s₀.Constructed) :
    (∀ turns e, s₀.run rule turns ≠ .error (.throws e)) ∧
    (∀ inputs e, TracedRun.run (step rule) s₀ inputs ≠ .error (.throws e)) ∧
    (rule.StaysInside →
      (∀ turns, ∃ s trace, s₀.run rule turns = .ok (s, trace)) ∧
      ∀ inputs, ∃ s trace, TracedRun.run (step rule) s₀ inputs = .ok (s, trace) ∧
        (∃ i, s.poll.access s.sock = .ok i) ∧
        (∀ input, ∃ s' events, s.receive input = .ok (s', events)) ∧
        (∀ answer, ∃ s' events, s.send rule answer = .ok (s', events)) ∧
        (s.currentClients.length = 0 ∧ s.buffer.size > 0 → ∃ item buffer,
          s.buffer.pop = .ok (item, buffer)) ∧
        ∃ s₁ popped, s.prepareSendData rule = .ok (s₁, popped) ∧
          (s₁.currentClients ≠ [] → ∃ message, s₁.currentMessage = some message)) := by
  have hthrows : ∀ inputs e, TracedRun.run (step rule) s₀ inputs ≠ .error (.throws e) :=
    fun inputs e herror => by cases hs₀.run_error herror
  refine ⟨fun turns e herror => hthrows _ e ((run_eq hs₀ turns).symm.trans herror), hthrows, ?_⟩
  intro hrule
  constructor
  · intro turns
    rw [run_eq hs₀]
    exact hs₀.run_total hrule (loopInputs turns)
  · intro inputs
    obtain ⟨s, trace, hrun⟩ := hs₀.run_total hrule inputs
    have hreach : s.Reachable rule := ⟨s₀, trace, hs₀, inputs, hrun⟩
    have hs := hreach.safe
    obtain ⟨s₁, popped, hprepare, hs₁⟩ := prepareSendData_total hrule hs
    refine ⟨s, trace, hrun, ⟨0, hs.sockRegistered⟩, receive_total hs.sockRegistered hs.records,
      send_total hrule hs, ?_, s₁, popped, hprepare, hs₁.loaded⟩
    intro hguard
    obtain ⟨s', e, hone⟩ := prepareOne_total hrule hs hguard.2
    obtain ⟨item, hpop⟩ := prepareOne_buffer hone
    exact ⟨item, _, hpop⟩

theorem never_aborts_sample :
    ∃ s, TracedRun.run (step .next) sampleServer sampleInputs = .ok (s, sampleTrace) ∧
      ∃ s' events, s.send .next ⟨12, .other⟩ = .ok (s', events) := by
  obtain ⟨s, hrun, -⟩ := sampleInputs_run
  obtain ⟨-, hall⟩ :=
    (never_aborts sampleServer_constructed).2.2 EraseRule.next_goesOn.staysInside
  obtain ⟨s', trace, hrun', -, -, hsend, -⟩ := hall sampleInputs
  cases hrun.symm.trans hrun'
  exact ⟨s, hrun, hsend ⟨12, .other⟩⟩

end SikUdp.Server
