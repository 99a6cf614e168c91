import SikUdp.Runs.Reachability

/-!
# The event loop, step by step

The order in which the loop takes its steps is decided by what `poll` answers and by the
signals: `run` does exactly the steps that these name. After a signal nothing is received
or sent any more, and in one turn at most one datagram is received and at most one sent.
-/
namespace SikUdp.Server

variable {bufferSize : ℕ} {rule : EraseRule}

structure Attends (s s' : Server bufferSize) : Prop where
  sock : s'.sock = s.sock
  stopping : s'.stopping = s.stopping
  polled : s'.poll.clientsLength = s.poll.clientsLength
  revents : (s'.poll.client 0).revents = (s.poll.client 0).revents

theorem Attends.refl (s : Server bufferSize) : s.Attends s := ⟨rfl, rfl, rfl, rfl⟩

theorem Attends.trans {s s₁ s' : Server bufferSize} (h : s.Attends s₁) (h' : s₁.Attends s') :
    s.Attends s' :=
  ⟨h'.sock.trans h.sock, h'.stopping.trans h.stopping, h'.polled.trans h.polled,
    h'.revents.trans h.revents⟩

theorem Attends.setEvents {s : Server bufferSize} {poll : Poll 1} {events : EventMask}
    (hsock : s.SockRegistered) (hpoll : s.poll.setEvents s.sock events = .ok poll) :
    s.Attends { s with poll } := by
  rw [Poll.setEvents, hsock] at hpoll
  cases hpoll
  exact ⟨rfl, rfl, rfl, by simp [Poll.client]⟩

theorem Reception.attends {s s' : Server bufferSize} {input : ReceiveInput} {events : List Event}
    (hsock : s.SockRegistered) (h : Reception s input s' events) : s.Attends s' := by
  cases h with
  | failed hinput hadd => exact ⟨rfl, rfl, rfl, rfl⟩
  | rejected what hinput hreject hadd => exact ⟨rfl, rfl, rfl, rfl⟩
  | accepted hinput hdecode hempty hpoll hadd =>
    have hset := Attends.setEvents hsock hpoll
    exact ⟨rfl, rfl, hset.polled, hset.revents⟩

theorem Delivery.attends {s s' : Server bufferSize} {events : List Event}
    (hsock : s.SockRegistered) (h : Delivery rule s events s') : s.Attends s' := by
  cases h with
  | popped hidle hbuffer hget hmessage => exact ⟨rfl, rfl, rfl, rfl⟩
  | idle hidle hempty hpoll => exact Attends.setEvents hsock hpoll
  | blocked hclients hmessage hblock => exact ⟨rfl, rfl, rfl, rfl⟩
  | completed hclients hmessage hdone hprinted => exact ⟨rfl, rfl, rfl, rfl⟩

theorem receive_attends {s s' : Server bufferSize} {input : ReceiveInput} {events : List Event}
    (hsock : s.SockRegistered) (h : s.receive input = .ok (s', events)) : s.Attends s' :=
  (receive_reception hsock h).attends hsock

theorem send_attends {s s' : Server bufferSize} {answer : SendtoResult} {events : List Event}
    (hsock : s.SockRegistered) (h : s.send rule answer = .ok (s', events)) : s.Attends s' := by
  have hboth : s'.SockRegistered ∧ s.Attends s' :=
    (send_path h).invariant (fun _ t => t.SockRegistered ∧ s.Attends t)
      (fun _ _ _ _ hgood hstep =>
        ⟨hstep.sockRegistered hgood.1, hgood.2.trans (hstep.attends hgood.1)⟩)
      ⟨hsock, .refl s⟩
  exact hboth.2

/-- What the loop calls for a reported event. -/
inductive IsHandler : Input → Prop
  | receive (input) : IsHandler (.receive input)
  | send (answer) : IsHandler (.send answer)

theorem step_attends {s s' : Server bufferSize} {input : Input} {events : List Event}
    (hsock : s.SockRegistered) (hinput : IsHandler input)
    (h : s.step rule input = .ok (s', events)) : s.Attends s' := by
  cases hinput with
  | receive input => exact receive_attends hsock h
  | send answer => exact send_attends hsock h

/-- A server whose socket is the one descriptor that `poll` is called with. -/
structure Polling (s : Server bufferSize) : Prop where
  sockRegistered : s.SockRegistered
  polled : s.poll.clientsLength = 1

theorem Constructed.polling {s : Server bufferSize} (h : s.Constructed) : s.Polling := by
  refine ⟨h.fresh.sockRegistered, ?_⟩
  obtain ⟨hsize, port, env, h⟩ := h
  obtain ⟨sock, -, h⟩ := TracedRun.bind_ok_iff.mp h
  obtain ⟨address, -, h⟩ := TracedRun.bind_ok_iff.mp h
  obtain ⟨content, -, h⟩ := TracedRun.bind_ok_iff.mp h
  obtain ⟨poll, hpoll, h⟩ := TracedRun.bind_ok_iff.mp h
  cases h
  rcases Poll.empty.addDescriptor_cases sock (POLLIN ||| POLLOUT) with ⟨e, he⟩ |
      ⟨i, -, -, -, -, heq⟩
  · rw [he] at hpoll
    cases hpoll
  · rw [heq] at hpoll
    cases hpoll
    rfl

theorem Polling.wait {s : Server bufferSize} (hs : s.Polling) (answer : PollResult 1) :
    Polling { s with poll := (s.poll.wait answer).1 } :=
  ⟨(s.poll.access_wait answer s.sock).trans hs.sockRegistered, hs.polled⟩

theorem revents_wait {s : Server bufferSize} (hs : s.Polling) (answer : PollResult 1) :
    ((s.poll.wait answer).1.client 0).revents = answer.revents 0 := by
  have hlt : (0 : ℕ) < s.poll.clientsLength := by rw [hs.polled]; decide
  simp [Poll.wait, Poll.client, hlt]

theorem onEvent_eq {s : Server bufferSize} (hsock : s.SockRegistered) (event : EventMask)
    {handler : Server bufferSize → Except Abort (Server bufferSize × List Event)} {input : Input}
    (hhandler : handler s = s.step rule input) :
    s.onEvent event handler = TracedRun.run (step rule) s
      (if (s.poll.client 0).revents &&& event ≠ 0 then [input] else []) := by
  rw [onEvent, s.poll.revents_eq_ok hsock]
  simp only [bind, Except.bind]
  split_ifs
  · rw [hhandler, TracedRun.run_singleton]
  · rfl

theorem handled {s s' : Server bufferSize} {c : Prop} [Decidable c] {input : Input}
    {trace : List Event} (hsock : s.SockRegistered) (hinput : IsHandler input)
    (h : TracedRun.run (step rule) s (if c then [input] else []) = .ok (s', trace)) :
    s'.SockRegistered ∧ s.Attends s' := by
  split_ifs at h
  · rw [TracedRun.run_singleton] at h
    exact ⟨step_sockRegistered hsock h, step_attends hsock hinput h⟩
  · cases h
    exact ⟨hsock, .refl s⟩

/-- The calls of `receive` and `send` are those of the events reported before both. -/
theorem serve_eq {s : Server bufferSize} (hsock : s.SockRegistered) {turn : Turn}
    (hrevents : (s.poll.client 0).revents = turn.poll.revents 0) :
    s.serve rule turn = TracedRun.run (step rule) s (servedInputs turn) := by
  have hreceive : s.onEvent POLLIN (fun s => s.receive turn.receive) = TracedRun.run (step rule) s
      (if turn.poll.revents 0 &&& POLLIN ≠ 0 then [.receive turn.receive] else []) := by
    rw [← hrevents]
    exact onEvent_eq hsock POLLIN rfl
  rw [serve, servedInputs, TracedRun.run_append, hreceive]
  simp only [bind, Except.bind]
  cases hfirst : TracedRun.run (step rule) s
      (if turn.poll.revents 0 &&& POLLIN ≠ 0 then [.receive turn.receive] else []) with
  | error a => rfl
  | ok r =>
    obtain ⟨s₁, received⟩ := r
    obtain ⟨hsock₁, hattends⟩ := handled hsock (.receive _) hfirst
    have hsend : s₁.onEvent POLLOUT (fun s => s.send rule turn.send) =
        TracedRun.run (step rule) s₁
          (if turn.poll.revents 0 &&& POLLOUT ≠ 0 then [.send turn.send] else []) := by
      rw [← hrevents, ← hattends.revents]
      exact onEvent_eq hsock₁ POLLOUT rfl
    dsimp only
    rw [hsend]
    cases TracedRun.run (step rule) s₁
        (if turn.poll.revents 0 &&& POLLOUT ≠ 0 then [.send turn.send] else []) <;> rfl

theorem served_polling {s s' : Server bufferSize} {turn : Turn} {trace : List Event}
    (hs : s.Polling)
    (h : TracedRun.run (step rule) s (servedInputs turn) = .ok (s', trace)) :
    s'.Polling ∧ s'.stopping = s.stopping := by
  obtain ⟨s₁, received, sent, hreceive, hsend, -⟩ := TracedRun.run_append_ok.mp h
  obtain ⟨hsock₁, hfirst⟩ := handled hs.sockRegistered (.receive _) hreceive
  obtain ⟨hsock₂, hsecond⟩ := handled hsock₁ (.send _) hsend
  have hattends := hfirst.trans hsecond
  exact ⟨⟨hsock₂, hattends.polled.trans hs.polled⟩, hattends.stopping⟩

theorem runLoop_stopping {s : Server bufferSize} (h : s.stopping = true) (turns : List Turn) :
    runLoop rule s turns = .ok (s, []) := by
  cases turns with
  | nil => rfl
  | cons turn turns =>
    have hstop : stopIf turn.stopBefore s = s := by
      cases turn.stopBefore with
      | false => rfl
      | true => rw [stopIf, if_pos rfl, stop, ← h]
    rw [runLoop, hstop]
    exact if_pos h

theorem wait_outcome (p : Poll 1) (answer : PollResult 1) :
    (0 < answer.result ∧ (p.wait answer).2 = .ok ()) ∨
      (¬ 0 < answer.result ∧ ∃ e, (p.wait answer).2 = .error (.throws e)) := by
  unfold Poll.wait
  dsimp only
  split_ifs with hzero hneg
  · exact Or.inr ⟨by omega, _, rfl⟩
  · exact Or.inr ⟨by omega, _, rfl⟩
  · exact Or.inl ⟨by omega, rfl⟩

theorem runLoop_eq {s : Server bufferSize} (hs : s.Polling) (hrunning : s.stopping = false)
    (turns : List Turn) :
    runLoop rule s turns = TracedRun.run (step rule) s (loopInputs turns) := by
  induction turns generalizing s with
  | nil => rfl
  | cons turn turns ih =>
    rw [runLoop, loopInputs]
    dsimp only
    cases turn.stopBefore with
    | true => rfl
    | false =>
      have hs₁ := hs.wait turn.poll
      have hrevents := revents_wait hs turn.poll
      rw [stopIf, if_neg Bool.false_ne_true, if_neg (by rw [hrunning]; exact Bool.false_ne_true),
        if_neg Bool.false_ne_true, TracedRun.run, step_wait]
      generalize hs₂ : ({ s with poll := (s.poll.wait turn.poll).1 } : Server bufferSize) = s₁
        at hs₁
      have hrunning₁ : s₁.stopping = false := by rw [← hs₂]; exact hrunning
      have hrevents₁ : (s₁.poll.client 0).revents = turn.poll.revents 0 := by
        rw [← hs₂]
        exact hrevents
      simp only [bind, Except.bind, List.nil_append]
      cases turn.stopDuringWait with
      | true =>
        have hstopped : (stopIf true s₁).stopping = true := rfl
        rcases wait_outcome s.poll turn.poll with ⟨-, hok⟩ | ⟨-, e, herror⟩
        · rw [hok]
          rfl
        · rw [herror]
          dsimp only
          rw [runLoop_stopping hstopped]
          rfl
      | false =>
        have hgoes : stopIf false s₁ = s₁ := rfl
        rw [hgoes, if_neg Bool.false_ne_true]
        rcases wait_outcome s.poll turn.poll with ⟨hpositive, hok⟩ | ⟨hfailed, e, herror⟩
        · rw [hok, if_pos hpositive, TracedRun.run_append]
          dsimp only
          rw [if_neg (by rw [hrunning₁]; exact Bool.false_ne_true),
            serve_eq hs₁.sockRegistered hrevents₁]
          simp only [bind, Except.bind]
          cases hserved : TracedRun.run (step rule) s₁ (servedInputs turn) with
          | error a => rfl
          | ok r =>
            obtain ⟨s₃, served⟩ := r
            obtain ⟨hs₃, hsame⟩ := served_polling hs₁ hserved
            dsimp only
            rw [ih hs₃ (hsame.trans hrunning₁)]
            cases TracedRun.run (step rule) s₃ (loopInputs turns) <;> rfl
        · rw [herror, if_neg hfailed, List.nil_append]
          dsimp only
          rw [ih hs₁ hrunning₁]
          cases TracedRun.run (step rule) s₁ (loopInputs turns) <;> rfl

theorem run_eq {s₀ : Server bufferSize} (hs₀ : s₀.Constructed) (turns : List Turn) :
    s₀.run rule turns = TracedRun.run (step rule) s₀ (loopInputs turns) := by
  have hstart : { s₀ with stopping := false } = s₀ := by rw [← hs₀.fresh.stopping]
  rw [run, hstart]
  exact runLoop_eq hs₀.polling hs₀.fresh.stopping turns

/-- Every state `run` leads to from a successful constructor is reachable. -/
theorem Constructed.run_reachable {s s' : Server bufferSize} {turns : List Turn}
    {trace : List Event} (hs : s.Constructed) (h : s.run rule turns = .ok (s', trace)) :
    s'.Reachable rule :=
  ⟨s, trace, hs, loopInputs turns, (run_eq hs turns).symm.trans h⟩

theorem loopInputs_signal {turn : Turn} (h : turn.stopBefore = true ∨ turn.stopDuringWait = true)
    (before after : List Turn) :
    loopInputs (before ++ turn :: after) = loopInputs (before ++ [turn]) := by
  induction before with
  | nil =>
    rw [List.nil_append, List.nil_append, loopInputs, loopInputs]
    rcases h with hbefore | hduring
    · simp [hbefore]
    · simp [hduring]
  | cons turn' before ih => rw [List.cons_append, List.cons_append, loopInputs, loopInputs, ih]

/-- The loop of a constructed server does exactly the steps that the answers of `poll` and the
signals name, in their order, and fails exactly where one of them fails. With the first
signal it ends: what would have come after that turn makes no difference. -/
theorem loop_exact {s₀ : Server bufferSize} (hs₀ : s₀.Constructed) (turns : List Turn) :
    s₀.run rule turns = TracedRun.run (step rule) s₀ (loopInputs turns) ∧
    ∀ before turn after, turns = before ++ turn :: after →
      turn.stopBefore = true ∨ turn.stopDuringWait = true →
        s₀.run rule turns = s₀.run rule (before ++ [turn]) := by
  refine ⟨run_eq hs₀ turns, ?_⟩
  rintro before turn after rfl hsignal
  rw [run_eq hs₀, run_eq hs₀, loopInputs_signal hsignal]

theorem loop_exact_sample :
    sampleServer.run .next
      [⟨false, false, ⟨1, fun _ => POLLIN ||| POLLOUT⟩, ⟨.failed, 0, 0⟩, ⟨-1, .wouldBlock⟩⟩,
        ⟨false, true, ⟨1, fun _ => POLLIN⟩, ⟨.failed, 0, 0⟩, ⟨-1, .wouldBlock⟩⟩] =
      TracedRun.run (step .next) sampleServer
        [.wait ⟨1, fun _ => POLLIN ||| POLLOUT⟩, .receive ⟨.failed, 0, 0⟩, .send ⟨-1, .wouldBlock⟩,
          .wait ⟨1, fun _ => POLLIN⟩, .stop] :=
  (loop_exact sampleServer_constructed _).1

end SikUdp.Server
