import SikUdp.Runs.DeliveryOrder

/-!
# Turns and the end of the work

The recipients of the current message have their turns one after another, however the calls
end and whatever is received between them. And when nothing more arrives, every call that does
not report a full socket brings the server nearer to having sent everything.
-/
namespace SikUdp.Server

variable {bufferSize : ℕ} {rule : EraseRule}

def sendtoAnswers (inputs : List Input) : List SendtoResult :=
  inputs.filterMap fun
    | .send answer => some answer
    | _ => none

def attempts (trace : List Event) : List Attempt := trace.filterMap Event.attempt

theorem attempts_append (before after : List Event) :
    attempts (before ++ after) = attempts before ++ attempts after := List.filterMap_append

theorem send_rejects_nothing {s s' : Server bufferSize} {answer : SendtoResult}
    {events : List Event} (h : s.send rule answer = .ok (s', events)) (address : SockAddr)
    (what : String) : .rejected address what ∉ events := by
  obtain ⟨s₁, popped, hprepare, hcases⟩ := send_cases h
  have hpopped : .rejected address what ∉ popped := by
    intro hmem
    obtain ⟨item, recipients, heq⟩ := prepareSendData_popped hprepare _ hmem
    cases heq
  rcases hcases with ⟨poll, -, -, -, rfl⟩ | ⟨a, rest, message, -, -, -, rfl⟩
  · exact hpopped
  · unfold complaint
    split_ifs <;> simp [hpopped]

theorem step_idle {s s' : Server bufferSize} {input : Input} {events : List Event}
    (hsock : s.SockRegistered) (hinput : ∀ answer, input ≠ .send answer)
    (h : s.step rule input = .ok (s', events)) :
    s'.currentClients = s.currentClients ∧ s'.currentMessage = s.currentMessage ∧
      attempts events = [] ∧ jobs events = [] := by
  cases input with
  | wait answer =>
    rw [step_wait] at h
    obtain ⟨rfl, rfl⟩ := Prod.mk.inj (Except.ok.inj h)
    exact ⟨rfl, rfl, rfl, rfl⟩
  | receive input =>
    cases receive_reception hsock h with
    | failed hinput hadd => exact ⟨rfl, rfl, rfl, rfl⟩
    | rejected what hinput hreject hadd => exact ⟨rfl, rfl, rfl, rfl⟩
    | accepted hinput hdecode hempty hpoll hadd =>
      refine ⟨rfl, rfl, rfl, ?_⟩
      exact jobs_accepted [] _ _ _
  | send answer => exact absurd rfl (hinput answer)
  | stop =>
    obtain ⟨rfl, rfl⟩ := Prod.mk.inj (Except.ok.inj h)
    exact ⟨rfl, rfl, rfl, rfl⟩

/-- Whose turn an attempt was, and how the call of `sendto` ended. -/
def turn (attempt : Attempt) : SockAddr × SendtoResult := (attempt.address, attempt.result)

theorem send_turn {s s' : Server bufferSize} {answer : SendtoResult} {events : List Event}
    {a : SockAddr} {rest : List SockAddr} (hclients : s.currentClients = a :: rest)
    (h : s.send rule answer = .ok (s', events)) :
    ∃ message, s.currentMessage = some message ∧ s'.currentMessage = some message ∧
      s'.currentClients = (if !answer.wouldBlock then rest else rest ++ [a]) ∧
      attempts events = [⟨a, Sender.dataOf message true, answer⟩] ∧ jobs events = [] := by
  obtain ⟨s₁, popped, hprepare, hcases⟩ := send_cases h
  rw [prepareSendData_busy (by simp [hclients])] at hprepare
  obtain ⟨rfl, rfl⟩ := Prod.mk.inj (Except.ok.inj hprepare)
  rcases hcases with ⟨poll, hidle, -⟩ | ⟨a', rest', message, hclients', hmessage, rfl, rfl⟩
  · simp [hclients] at hidle
  · obtain ⟨rfl, rfl⟩ := List.cons.inj (hclients.symm.trans hclients')
    refine ⟨message, hmessage, hmessage, ?_, ?_⟩
    · cases answer.wouldBlock <;> rfl
    · unfold complaint
      split_ifs <;> exact ⟨rfl, rfl⟩

/-- As long as there are at least as many clients in front as calls of `send`, the calls
go round among the waiting clients. -/
theorem run_turns {s s' : Server bufferSize} {inputs : List Input} {trace : List Event}
    (hsock : s.SockRegistered) (h : TracedRun.run (step rule) s inputs = .ok (s', trace))
    {front behind : List SockAddr} (hclients : s.currentClients = front ++ behind)
    (hround : (sendtoAnswers inputs).length ≤ front.length) :
    ((attempts trace).map turn, s'.currentClients) =
      RoundRobin.serve (fun answer => !answer.wouldBlock) s.currentClients
        (sendtoAnswers inputs) ∧
    jobs trace = [] ∧ ∀ attempt ∈ attempts trace, ∃ message,
      s.currentMessage = some message ∧ attempt.data = Sender.dataOf message true := by
  induction inputs generalizing s trace front behind with
  | nil =>
    obtain ⟨rfl, rfl⟩ := Prod.mk.inj (Except.ok.inj h)
    exact ⟨rfl, rfl, by simp [attempts]⟩
  | cons input inputs ih =>
    obtain ⟨s₁, events, later, hstep, hrest, rfl⟩ := TracedRun.run_cons_ok.mp h
    have hsock₁ := step_sockRegistered hsock hstep
    have hjobs : jobs (events ++ later) = jobs events ++ jobs later := by
      simp [jobs, removedItems]
    by_cases hsend : ∃ answer, input = .send answer
    · obtain ⟨answer, rfl⟩ := hsend
      have hanswers : sendtoAnswers (.send answer :: inputs) = answer :: sendtoAnswers inputs := rfl
      rw [hanswers, List.length_cons] at hround
      obtain ⟨a, front, rfl⟩ : ∃ a rest, front = a :: rest :=
        List.exists_cons_of_length_pos (by omega)
      rw [List.cons_append] at hclients
      obtain ⟨message, hmessage, hmessage₁, hclients₁, hattempts, hnone⟩ :=
        send_turn hclients hstep
      have hqueue : ∃ behind', s₁.currentClients = front ++ behind' := by
        rw [hclients₁]
        split_ifs
        · exact ⟨behind, rfl⟩
        · exact ⟨behind ++ [a], List.append_assoc _ _ _⟩
      obtain ⟨behind', hqueue⟩ := hqueue
      obtain ⟨hserve, hlater, hdata⟩ := ih hsock₁ hrest hqueue (by simpa using hround)
      refine ⟨?_, by rw [hjobs, hnone, hlater]; rfl, ?_⟩
      · rw [hanswers, hclients, RoundRobin.serve, attempts_append, hattempts,
          ← hclients₁, ← hserve]
        rfl
      · intro attempt hattempt
        rw [attempts_append, hattempts] at hattempt
        rcases List.mem_cons.mp hattempt with rfl | hattempt
        · exact ⟨message, hmessage, rfl⟩
        · rw [hmessage, ← hmessage₁]
          exact hdata attempt hattempt
    · have hother : ∀ answer, input ≠ .send answer := fun answer heq => hsend ⟨answer, heq⟩
      obtain ⟨hclients₁, hmessage₁, hnone, hnojobs⟩ := step_idle hsock hother hstep
      have hanswers : sendtoAnswers (input :: inputs) = sendtoAnswers inputs := by
        cases input with
        | send answer => exact absurd rfl (hother answer)
        | _ => rfl
      rw [hanswers] at hround ⊢
      obtain ⟨hserve, hlater, hdata⟩ := ih hsock₁ hrest (hclients₁.trans hclients) hround
      rw [attempts_append, hnone, List.nil_append, hjobs, hnojobs, List.nil_append, ← hclients₁,
        ← hmessage₁]
      exact ⟨hserve, hlater, hdata⟩

/-- From any reachable state, as long as no client has had its turn twice, the `i`-th call of
`send` is for the `i`-th waiting client and carries the current message, whatever is received
between the calls. Behind the clients without a turn wait again those whose call would have
blocked; and until then no other message is taken from the buffer. -/
theorem served_in_turn {s s' : Server bufferSize} (hs : s.Reachable rule) {inputs : List Input}
    {trace : List Event} (h : TracedRun.run (step rule) s inputs = .ok (s', trace))
    (hround : (sendtoAnswers inputs).length ≤ s.currentClients.length) :
    (attempts trace).map turn = s.currentClients.zip (sendtoAnswers inputs) ∧
    s'.currentClients = s.currentClients.drop (sendtoAnswers inputs).length ++
      ((s.currentClients.zip (sendtoAnswers inputs)).filter fun t => t.2.wouldBlock).map
        Prod.fst ∧
    jobs trace = [] ∧ ∀ attempt ∈ attempts trace, ∃ message,
      s.currentMessage = some message ∧ attempt.data = Sender.dataOf message true := by
  have hclients : s.currentClients = s.currentClients ++ [] := (List.append_nil _).symm
  obtain ⟨hserve, hrest⟩ := run_turns hs.sockRegistered h hclients hround
  have hround' := RoundRobin.serve_eq (fun answer : SendtoResult => !answer.wouldBlock) hround []
  rw [List.append_nil, List.append_nil, ← hserve] at hround'
  obtain ⟨hattempts, hafter⟩ := Prod.mk.inj hround'
  exact ⟨hattempts, by simpa using hafter, hrest⟩

theorem reachable_waiting :
    ∃ s : Server 2, s.Reachable .next ∧ s.currentClients = [⟨10, 2⟩] := by
  obtain ⟨s, hrun, -, hclients⟩ := sampleInputs_run
  exact ⟨s, ⟨_, _, sampleServer_constructed, _, hrun⟩, hclients⟩

theorem served_in_turn_sample :
    ∃ (s s' : Server 2) (trace : List Event), s.Reachable .next ∧
      TracedRun.run (step .next) s
        [.receive ⟨.failed, 3, 3⟩, .send ⟨-1, .wouldBlock⟩] = .ok (s', trace) ∧
      (attempts trace).map turn = [(⟨10, 2⟩, ⟨-1, .wouldBlock⟩)] ∧
      s'.currentClients = [⟨10, 2⟩] := by
  obtain ⟨s, hreach, hclients⟩ := reachable_waiting
  obtain ⟨s', trace, hrun, -⟩ := TracedRun.run_total
    (fun s input hs => step_total EraseRule.next_goesOn.staysInside hs input)
    [.receive ⟨.failed, 3, 3⟩, .send ⟨-1, .wouldBlock⟩] hreach.safe
  obtain ⟨hturns, hafter, -⟩ := served_in_turn hreach hrun (by rw [hclients]; decide)
  rw [hclients] at hturns hafter
  exact ⟨s, s', trace, hreach, hrun, hturns, hafter⟩

/-- How many calls of `sendto` can be needed for what the server holds. -/
def load (s : Server bufferSize) : ℕ :=
  s.currentClients.length + s.buffer.toList.length * s.connections.clients.length

theorem Delivery.load_le {s s' : Server bufferSize} {events : List Event}
    (h : Delivery rule s events s') : s'.load ≤ s.load := by
  cases h with
  | @popped connections item message recipients buffer hidle hbuffer hget hmessage =>
    have htrav := Connections.getClients_traversed hget
    have hfound := htrav.found_sublist.length_le
    have hkept := htrav.kept_sublist.length_le
    rw [List.length_map, List.length_map] at hkept
    rw [List.length_map] at hfound
    simp only [load, hbuffer, List.length_cons, Nat.succ_mul]
    have hrest := Nat.mul_le_mul_left buffer.toList.length hkept
    omega
  | idle hidle hempty hpoll => exact le_rfl
  | blocked hclients hmessage hblock => simp [load, hclients]
  | completed hclients hmessage hdone hprinted =>
    simp only [load, hclients, List.length_cons]
    omega

/-- Everything was sent, and the server sleeps until a datagram arrives. -/
structure Drained (s : Server bufferSize) : Prop where
  buffer : s.buffer.toList = []
  clients : s.currentClients = []
  events : s.poll.events s.sock = some POLLIN

def works : Input → Bool
  | .send answer => !answer.wouldBlock
  | _ => false

theorem Drained.setEvents {s : Server bufferSize} {poll : Poll 1} (hsock : s.SockRegistered)
    (hbuffer : s.buffer.toList = []) (hclients : s.currentClients = [])
    (hpoll : s.poll.setEvents s.sock POLLIN = .ok poll) : Drained { s with poll } :=
  ⟨hbuffer, hclients, (s.poll.of_setEvents hsock hpoll).2⟩

/-- A call of `send` that does not find the socket full ends the work or lowers the load. -/
theorem send_load {s s' : Server bufferSize} {answer : SendtoResult} {events : List Event}
    (hsock : s.SockRegistered) (h : s.send rule answer = .ok (s', events)) :
    (s.Drained → s'.Drained) ∧
      (s'.Drained ∨ s'.load + (if !answer.wouldBlock then 1 else 0) ≤ s.load) := by
  obtain ⟨s₁, popped, hprepare, hcases⟩ := send_cases h
  obtain ⟨hpath, hend⟩ := prepareSendData_path hprepare
  have hsock₁ := hpath.preserves (fun _ _ _ hgood hstep => hstep.sockRegistered hgood) hsock
  have hload : s₁.load ≤ s.load :=
    hpath.invariant (fun _ t => t.load ≤ s.load)
      (fun _ _ _ _ hgood hstep => hstep.load_le.trans hgood) le_rfl
  rcases hcases with ⟨poll, hidle, hpoll, rfl, -⟩ | ⟨a, rest, message, hclients, -, rfl, -⟩
  · have hdrained := Drained.setEvents hsock₁ (hend hidle) hidle hpoll
    exact ⟨fun _ => hdrained, Or.inl hdrained⟩
  · constructor
    · intro hdrained
      have hguard : ¬ (s.currentClients.length = 0 ∧ s.buffer.size > 0) := fun hguard =>
        s.buffer.size_pos_iff.mp hguard.2 hdrained.buffer
      rw [prepareSendData, if_neg hguard] at hprepare
      obtain ⟨rfl, -⟩ := Prod.mk.inj (Except.ok.inj hprepare)
      exact absurd (hdrained.clients.symm.trans hclients) (by simp)
    · refine Or.inr (le_trans ?_ hload)
      cases answer.wouldBlock <;> simp [load, hclients]

theorem step_load (hrule : rule.StaysInside) {s : Server bufferSize} (hs : s.Safe) {input : Input}
    (hquiet : ∀ answers, input ≠ .receive answers) :
    ∃ s' events, s.step rule input = .ok (s', events) ∧ s'.Safe ∧ (s.Drained → s'.Drained) ∧
      (s'.Drained ∨ s'.load + (if works input then 1 else 0) ≤ s.load) := by
  obtain ⟨s', events, hstep, hsafe⟩ := step_total hrule hs input
  refine ⟨s', events, hstep, hsafe, ?_⟩
  cases input with
  | wait answer =>
    rw [step_wait] at hstep
    obtain ⟨rfl, -⟩ := Prod.mk.inj (Except.ok.inj hstep)
    refine ⟨fun hdrained => ⟨hdrained.buffer, hdrained.clients, ?_⟩, Or.inr le_rfl⟩
    exact (s.poll.events_wait answer s.sock).trans hdrained.events
  | receive answers => exact absurd rfl (hquiet answers)
  | send answer => exact send_load hs.sockRegistered hstep
  | stop =>
    obtain ⟨rfl, -⟩ := Prod.mk.inj (Except.ok.inj hstep)
    exact ⟨fun hdrained => ⟨hdrained.buffer, hdrained.clients, hdrained.events⟩, Or.inr le_rfl⟩

theorem run_load (hrule : rule.StaysInside) {s : Server bufferSize} (hs : s.Safe)
    {inputs : List Input} (hquiet : ∀ answers, .receive answers ∉ inputs) :
    ∃ s' trace, TracedRun.run (step rule) s inputs = .ok (s', trace) ∧ s'.Safe ∧
      (s.Drained → s'.Drained) ∧ (s'.Drained ∨ s'.load + inputs.countP works ≤ s.load) := by
  apply TracedRun.run_measure (A := fun input => ∀ answers, input ≠ .receive answers)
  · exact fun s input hs hinput => step_load hrule hs hinput
  · rintro _ hinput answers rfl
    exact hquiet answers hinput
  · exact hs

/-- If the traversal of the records stays inside them and no more datagrams are received, then
from any reachable state, after more calls of `send` than the load, not counting those that find
the socket full, everything accepted has left the buffer, every recipient of every message
taken was served exactly once, and the server asks to be woken up for reading only. -/
theorem work_ends (hrule : rule.StaysInside) {s₀ s : Server bufferSize} (hs₀ : s₀.Constructed)
    {before after : List Input} {past : List Event}
    (h : TracedRun.run (step rule) s₀ before = .ok (s, past))
    (hquiet : ∀ answers, .receive answers ∉ after) (hcount : s.load < after.countP works) :
    ∃ s' later, TracedRun.run (step rule) s after = .ok (s', later) ∧ s'.Drained ∧
      acceptedItems (past ++ later) = (removedItems (past ++ later)).map Prod.fst ∧
      Log s₀.fileContent (jobs (past ++ later)) (completedAttempts (past ++ later)) [] := by
  have hreach : s.Reachable rule := ⟨s₀, past, hs₀, before, h⟩
  obtain ⟨s', later, hafter, -, -, hend⟩ := run_load hrule hreach.safe hquiet
  have hdrained : s'.Drained := hend.resolve_right (by omega)
  have hconsistent := run_consistent hs₀
    (TracedRun.run_append_ok.mpr ⟨s, past, later, h, hafter, rfl⟩)
  refine ⟨s', later, hafter, hdrained, ?_, ?_⟩
  · simpa [hdrained.buffer] using hconsistent.fifo
  · simpa [hdrained.clients] using hconsistent.log

theorem work_ends_sample :
    ∃ (s s' : Server 2) (later : List Event),
      TracedRun.run (step .next) sampleServer sampleInputs = .ok (s, sampleTrace) ∧
      s.load = 1 ∧
      TracedRun.run (step .next) s [.send ⟨12, .other⟩, .send ⟨12, .other⟩] = .ok (s', later) ∧
      s'.Drained := by
  obtain ⟨s, hrun, hbuffer, hclients⟩ := sampleInputs_run
  have hload : s.load = 1 := by simp [load, hbuffer, hclients]
  have hcount : s.load < [Input.send ⟨12, .other⟩, .send ⟨12, .other⟩].countP works := by
    rw [hload]
    decide
  obtain ⟨s', later, hlater, hdrained, -⟩ := work_ends EraseRule.next_goesOn.staysInside
    sampleServer_constructed hrun (by simp) hcount
  exact ⟨s, s', later, hrun, hload, hlater, hdrained⟩

end SikUdp.Server
