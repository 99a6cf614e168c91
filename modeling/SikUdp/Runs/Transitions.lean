import SikUdp.Program.Server
import SikUdp.Wire.Decoding

/-!
# What the server can do

Every step of the event loop is a path of transitions, and each transition says
all it does: which fields change, under which condition, and which events it
records. Invariants are proved once for each transition.
-/
namespace SikUdp.Server

variable {bufferSize : ℕ} {rule : EraseRule}

/-- The descriptor of the socket is found in the poll set. -/
def SockRegistered (s : Server bufferSize) : Prop := s.poll.access s.sock = .ok 0

/-- The calls made for the events reported for the socket. -/
def servedInputs (turn : Turn) : List Input :=
  (if turn.poll.revents 0 &&& POLLIN ≠ 0 then [.receive turn.receive] else []) ++
    if turn.poll.revents 0 &&& POLLOUT ≠ 0 then [.send turn.send] else []

/-- The steps the loop takes; a signal is the last one, and a failing `poll` or a timeout
serves nothing. -/
def loopInputs : List Turn → List Input
  | [] => []
  | turn :: turns =>
    if turn.stopBefore then [.stop]
    else .wait turn.poll ::
      if turn.stopDuringWait then [.stop]
      else (if 0 < turn.poll.result then servedInputs turn else []) ++ loopInputs turns

/-- The transitions `send` is made of and the events they record. -/
inductive Delivery (rule : EraseRule) :
    Server bufferSize → List Event → Server bufferSize → Prop
  | popped {s connections item message recipients} {buffer : Buffer BufferData bufferSize}
      (hidle : s.currentClients = []) (hbuffer : s.buffer.toList = item :: buffer.toList)
      (hget : s.connections.getClients rule item.arrivalTime (some item.sender) =
        .ok (connections, recipients))
      (hmessage : item.message = some message) :
      Delivery rule s [.popped item recipients]
        { s with
          buffer, connections
          currentClients := recipients
          currentMessage := some (message.setMessage s.fileContent) }
  | idle {s poll} (hidle : s.currentClients = []) (hempty : s.buffer.toList = [])
      (hpoll : s.poll.setEvents s.sock POLLIN = .ok poll) :
      Delivery rule s [] { s with poll }
  | blocked {s a rest message} {answer : SendtoResult} (hclients : s.currentClients = a :: rest)
      (hmessage : s.currentMessage = some message) (hblock : answer.wouldBlock = true) :
      Delivery rule s [.attempted ⟨a, Sender.dataOf message true, answer⟩]
        { s with currentClients := rest ++ [a] }
  | completed {s a rest message printed} {answer : SendtoResult}
      (hclients : s.currentClients = a :: rest) (hmessage : s.currentMessage = some message)
      (hdone : answer.wouldBlock = false)
      (hprinted : printed = [] ∨ printed = [.sendFailed s.address]) :
      Delivery rule s (.attempted ⟨a, Sender.dataOf message true, answer⟩ :: printed)
        { s with currentClients := rest }

/-- The transitions of the server and the events they record. -/
inductive Transition (rule : EraseRule) :
    Server bufferSize → List Event → Server bufferSize → Prop
  | wait (s) (answer : PollResult 1) :
      Transition rule s [] { s with poll := (s.poll.wait answer).1 }
  | stop (s) : Transition rule s [] s.stop
  | receiveFailed {s receiver connections t}
      (hadd : s.connections.addClient .zero t = .ok connections) :
      Transition rule s [.receiveFailed, .registered .zero t] { s with receiver, connections }
  | rejected {s receiver connections source t} (what : String)
      (hadd : s.connections.addClient source t = .ok connections) :
      Transition rule s [.rejected source what, .registered source t]
        { s with receiver, connections }
  | accepted {s receiver poll connections source t} {d : Datagram} {message : Message}
      (arrivalTime : ℤ) (hdecode : decode false d.bytes = .ok message)
      (hempty : message.message = [])
      (hpoll : s.poll.setEvents s.sock (POLLIN ||| POLLOUT) = .ok poll)
      (hadd : s.connections.addClient source t = .ok connections) :
      Transition rule s
        [.accepted d ⟨arrivalTime, some message, source⟩ (overwritten s.buffer),
          .registered source t]
        { s with
          receiver, poll, connections
          buffer := s.buffer.push ⟨arrivalTime, some message, source⟩ }
  | delivery {s events s'} (h : Delivery rule s events s') : Transition rule s events s'

/-- The outcomes of `receive` on given answers of the system. -/
inductive Reception (s : Server bufferSize) (input : ReceiveInput) :
    Server bufferSize → List Event → Prop
  | failed {receiver connections} (hinput : input.recvfrom = .failed)
      (hadd : s.connections.addClient .zero input.connectionTime = .ok connections) :
      Reception s input { s with receiver, connections }
        [.receiveFailed, .registered .zero input.connectionTime]
  | rejected {receiver connections source d} (what : String)
      (hinput : input.recvfrom = .received source d)
      (hreject : ∀ message, decode false d.bytes = .ok message → message.message ≠ [])
      (hadd : s.connections.addClient source input.connectionTime = .ok connections) :
      Reception s input { s with receiver, connections }
        [.rejected source what, .registered source input.connectionTime]
  | accepted {receiver poll connections source d message}
      (hinput : input.recvfrom = .received source d)
      (hdecode : decode false d.bytes = .ok message) (hempty : message.message = [])
      (hpoll : s.poll.setEvents s.sock (POLLIN ||| POLLOUT) = .ok poll)
      (hadd : s.connections.addClient source input.connectionTime = .ok connections) :
      Reception s input
        { s with
          receiver, poll, connections
          buffer := s.buffer.push ⟨input.arrivalTime, some message, source⟩ }
        [.accepted d ⟨input.arrivalTime, some message, source⟩ (overwritten s.buffer),
          .registered source input.connectionTime]

/-- How the `try` block ends: with a caught exception that changed nothing but the
receive buffer, or with an accepted datagram. -/
theorem receiveTry_cases (s : Server bufferSize) (hsock : s.SockRegistered)
    (input : ReceiveInput) :
    (∃ receiver, input.recvfrom = .failed ∧
      s.receiveTry input = ({ s with receiver }, [], .error (.throws .connectionException))) ∨
    (∃ receiver source d what, input.recvfrom = .received source d ∧
      (∀ message, decode false d.bytes = .ok message → message.message ≠ []) ∧
      s.receiveTry input =
        ({ s with receiver }, [], .error (.throws (.invalidArgument what)))) ∨
    (∃ receiver poll source d message, input.recvfrom = .received source d ∧
      decode false d.bytes = .ok message ∧ message.message = [] ∧
      s.poll.setEvents s.sock (POLLIN ||| POLLOUT) = .ok poll ∧
      s.receiveTry input =
        ({ s with
            receiver, poll
            buffer := s.buffer.push ⟨input.arrivalTime, some message, source⟩ },
          [.accepted d ⟨input.arrivalTime, some message, source⟩ (overwritten s.buffer)],
          .ok ())) := by
  unfold receiveTry
  cases hinput : input.recvfrom with
  | failed => exact Or.inl ⟨_, rfl, rfl⟩
  | received source d =>
    have hdecode := s.receiver.receiveMessage_received source d false
    generalize s.receiver.receiveMessage (.received source d) false = received at hdecode ⊢
    obtain ⟨receiver, outcome⟩ := received
    dsimp only at hdecode ⊢
    subst hdecode
    cases hresult : decode false d.bytes with
    | error a =>
      obtain ⟨what, rfl⟩ := decode_error hresult
      refine Or.inr (Or.inl ⟨receiver, source, d, what, rfl, ?_, rfl⟩)
      intro m hm
      rw [hresult] at hm
      cases hm
    | ok message =>
      by_cases hhas : message.hasMessage = true
      · have hne : message.message ≠ [] := by
          intro hnil
          rw [(message.hasMessage_eq_false_iff).mpr hnil] at hhas
          cases hhas
        refine Or.inr (Or.inl ⟨receiver, source, d, _, rfl, ?_, if_pos hhas⟩)
        intro m hm
        rw [hresult] at hm
        cases hm
        exact hne
      · have hnil := (message.hasMessage_eq_false_iff).mp (Bool.eq_false_iff.mpr hhas)
        obtain ⟨poll, hpoll, -, -⟩ := s.poll.setEvents_eq_ok hsock (POLLIN ||| POLLOUT)
        refine Or.inr (Or.inr ⟨receiver, poll, source, d, message, rfl, hresult, hnil, hpoll, ?_⟩)
        dsimp only
        rw [if_neg hhas, accept]
        dsimp only
        rw [hpoll]

theorem receive_reception {s s' : Server bufferSize} {input : ReceiveInput} {events : List Event}
    (hsock : s.SockRegistered) (h : s.receive input = .ok (s', events)) :
    Reception s input s' events := by
  unfold receive at h
  rcases s.receiveTry_cases hsock input with ⟨receiver, hinput, htry⟩ |
      ⟨receiver, source, d, what, hinput, hreject, htry⟩ |
      ⟨receiver, poll, source, d, message, hinput, hdecode, hempty, hpoll, htry⟩
  · rw [htry, hinput] at h
    obtain ⟨printed, hcatch, h⟩ := TracedRun.bind_ok_iff.mp h
    cases hcatch
    obtain ⟨connections, hadd, heq⟩ := TracedRun.bind_ok_iff.mp h
    cases heq
    exact .failed hinput hadd
  · rw [htry, hinput] at h
    obtain ⟨printed, hcatch, h⟩ := TracedRun.bind_ok_iff.mp h
    cases hcatch
    obtain ⟨connections, hadd, heq⟩ := TracedRun.bind_ok_iff.mp h
    cases heq
    exact .rejected what hinput hreject hadd
  · rw [htry, hinput] at h
    obtain ⟨printed, hcatch, h⟩ := TracedRun.bind_ok_iff.mp h
    cases hcatch
    obtain ⟨connections, hadd, heq⟩ := TracedRun.bind_ok_iff.mp h
    cases heq
    exact .accepted hinput hdecode hempty hpoll hadd

theorem receive_total {s : Server bufferSize} (hsock : s.SockRegistered)
    (hrecords : ∀ c ∈ s.connections.clients, c.connections ≠ []) (input : ReceiveInput) :
    ∃ s' events, s.receive input = .ok (s', events) := by
  obtain ⟨connections, hadd⟩ := Connections.addClient_total hrecords
    (clientAddress input.recvfrom) input.connectionTime
  unfold receive
  rcases s.receiveTry_cases hsock input with ⟨receiver, hinput, htry⟩ |
      ⟨receiver, source, d, what, hinput, hreject, htry⟩ |
      ⟨receiver, poll, source, d, message, hinput, hdecode, hempty, hpoll, htry⟩
  all_goals
    rw [htry]
    exact ⟨_, _, TracedRun.bind_ok_iff.mpr ⟨_, rfl, TracedRun.bind_ok_iff.mpr
      ⟨connections, hadd, rfl⟩⟩⟩

theorem Reception.transition {s s' : Server bufferSize} {input : ReceiveInput}
    {events : List Event} (h : Reception s input s' events) : Transition rule s events s' := by
  cases h with
  | failed hinput hadd => exact .receiveFailed hadd
  | rejected what hinput hreject hadd => exact .rejected what hadd
  | accepted hinput hdecode hempty hpoll hadd => exact .accepted _ hdecode hempty hpoll hadd

theorem prepareOne_eq {s : Server bufferSize} {item : BufferData} {message : Message}
    {buffer : Buffer BufferData bufferSize} {connections : Connections}
    {recipients : List SockAddr} (hpop : s.buffer.pop = .ok (item, buffer))
    (hget : s.connections.getClients rule item.arrivalTime (some item.sender) =
      .ok (connections, recipients)) (hmessage : item.message = some message) :
    s.prepareOne rule = .ok ({ s with
      buffer, connections
      currentClients := recipients
      currentMessage := some (message.setMessage s.fileContent) }, .popped item recipients) := by
  simp [prepareOne, hpop, hget, hmessage, bind, Except.bind]

theorem prepareOne_cases {s s' : Server bufferSize} {e : Event}
    (h : s.prepareOne rule = .ok (s', e)) :
    ∃ item message recipients connections, ∃ buffer : Buffer BufferData bufferSize,
      s.buffer.toList = item :: buffer.toList ∧
      s.connections.getClients rule item.arrivalTime (some item.sender) =
        .ok (connections, recipients) ∧
      item.message = some message ∧ e = .popped item recipients ∧
      s' = { s with
        buffer, connections
        currentClients := recipients
        currentMessage := some (message.setMessage s.fileContent) } := by
  obtain ⟨⟨item, buffer⟩, hpop, h⟩ := TracedRun.bind_ok_iff.mp h
  obtain ⟨⟨connections, recipients⟩, hget, h⟩ := TracedRun.bind_ok_iff.mp h
  dsimp only at h
  split at h
  · cases h
  · rename_i message hmessage
    cases h
    exact ⟨item, message, recipients, connections, buffer, s.buffer.toList_of_pop hpop, hget,
      hmessage, rfl, rfl⟩

/-- The loop of `prepare_send_data` takes messages while there is nobody to send to,
and ends with recipients or with an empty buffer. -/
theorem prepareSendData_path {s s' : Server bufferSize} {events : List Event}
    (h : s.prepareSendData rule = .ok (s', events)) :
    TracedRun.Path (Delivery rule) s events s' ∧
      (s'.currentClients = [] → s'.buffer.toList = []) := by
  induction hsize : s.buffer.size using Nat.strong_induction_on generalizing s events with
  | _ size ih =>
    rw [prepareSendData] at h
    split_ifs at h with hguard
    · split at h
      · cases h
      · rename_i s₁ e hone
        obtain ⟨⟨s₂, later⟩, hrest, heq⟩ := TracedRun.map_ok_iff.mp h
        cases heq
        obtain ⟨hpath, hend⟩ := ih _ (hsize ▸ prepareOne_size hone) hrest rfl
        obtain ⟨item, message, recipients, connections, buffer, hbuffer, hget, hmessage, rfl,
          rfl⟩ := prepareOne_cases hone
        have hidle := List.length_eq_zero_iff.mp hguard.1
        exact ⟨(TracedRun.Path.single (.popped hidle hbuffer hget hmessage)).trans hpath, hend⟩
    · cases h
      refine ⟨.nil _, fun hidle => ?_⟩
      by_contra hne
      exact hguard ⟨by simp [hidle], (Buffer.size_pos_iff _).mpr hne⟩

theorem prepareSendData_busy {s : Server bufferSize} (h : s.currentClients ≠ []) :
    s.prepareSendData rule = .ok (s, []) := by
  rw [prepareSendData, if_neg]
  rintro ⟨hidle, -⟩
  exact h (List.length_eq_zero_iff.mp hidle)

theorem prepareSendData_next {s s₁ : Server bufferSize} {e : Event}
    (hguard : s.currentClients.length = 0 ∧ s.buffer.size > 0)
    (hone : s.prepareOne rule = .ok (s₁, e)) :
    s.prepareSendData rule = (s₁.prepareSendData rule).map fun r => (r.1, e :: r.2) := by
  rw [prepareSendData, if_pos hguard]
  split
  · rename_i a herror
    cases hone.symm.trans herror
  · rename_i s₁' e' hone'
    obtain ⟨rfl, rfl⟩ := Prod.mk.inj (Except.ok.inj (hone.symm.trans hone'))
    rfl

theorem prepareSendData_popped {s s' : Server bufferSize} {events : List Event}
    (h : s.prepareSendData rule = .ok (s', events)) :
    ∀ e ∈ events, ∃ item recipients, e = .popped item recipients := by
  induction hsize : s.buffer.size using Nat.strong_induction_on generalizing s events with
  | _ size ih =>
    rw [prepareSendData] at h
    split_ifs at h with hguard
    · split at h
      · cases h
      · rename_i s₁ e hone
        obtain ⟨⟨s₂, later⟩, hrest, heq⟩ := TracedRun.map_ok_iff.mp h
        obtain ⟨rfl, rfl⟩ := Prod.mk.inj heq
        obtain ⟨item, message, recipients, connections, buffer, -, -, -, rfl, -⟩ :=
          prepareOne_cases hone
        rw [List.forall_mem_cons]
        exact ⟨⟨item, recipients, rfl⟩, ih _ (hsize ▸ prepareOne_size hone) hrest rfl⟩
    · obtain ⟨-, rfl⟩ := Prod.mk.inj (Except.ok.inj h)
      simp

theorem prepareSendData_found {s : Server bufferSize} {item : BufferData} {message : Message}
    {rest : List BufferData} {connections : Connections} {recipients : List SockAddr}
    (hidle : s.currentClients = []) (hbuffer : s.buffer.toList = item :: rest)
    (hget : s.connections.getClients rule item.arrivalTime (some item.sender) =
      .ok (connections, recipients))
    (hmessage : item.message = some message) (hfound : recipients ≠ []) :
    ∃ buffer : Buffer BufferData bufferSize, buffer.toList = rest ∧
      s.prepareSendData rule = .ok
        ({ s with
            buffer, connections
            currentClients := recipients
            currentMessage := some (message.setMessage s.fileContent) },
          [.popped item recipients]) := by
  obtain ⟨buffer, hpop, hrest⟩ := s.buffer.pop_eq_ok hbuffer
  have hone := prepareOne_eq hpop hget hmessage
  have hguard : s.currentClients.length = 0 ∧ s.buffer.size > 0 :=
    ⟨by simp [hidle], s.buffer.size_pos_iff.mpr (by simp [hbuffer])⟩
  refine ⟨buffer, hrest, ?_⟩
  rw [prepareSendData_next hguard hone, prepareSendData_busy hfound]
  rfl

/-- What is printed after a call of `sendto`: an error other than that it would block, and a
datagram cut short, are reported. -/
def complaint (s : Server bufferSize) (dataLength : ℕ) (answer : SendtoResult) : List Event :=
  if answer.wouldBlock = false ∧ answer.length ≠ dataLength then [.sendFailed s.address] else []

theorem complaint_cases (s : Server bufferSize) (dataLength : ℕ) (answer : SendtoResult) :
    s.complaint dataLength answer = [] ∨
      s.complaint dataLength answer = [.sendFailed s.address] := by
  unfold complaint
  split_ifs
  · exact Or.inr rfl
  · exact Or.inl rfl

theorem send_eq_idle {s s₁ : Server bufferSize} {popped : List Event} {poll : Poll 1}
    (hprepare : s.prepareSendData rule = .ok (s₁, popped)) (hclients : s₁.currentClients = [])
    (hpoll : s₁.poll.setEvents s₁.sock POLLIN = .ok poll) (answer : SendtoResult) :
    s.send rule answer = .ok ({ s₁ with poll }, popped) := by
  simp [send, hprepare, hclients, hpoll, bind, Except.bind]

theorem send_eq_turn {s s₁ : Server bufferSize} {popped : List Event} {a : SockAddr}
    {rest : List SockAddr} {message : Message}
    (hprepare : s.prepareSendData rule = .ok (s₁, popped))
    (hclients : s₁.currentClients = a :: rest) (hmessage : s₁.currentMessage = some message)
    (answer : SendtoResult) :
    s.send rule answer = .ok
      ({ s₁ with currentClients := if answer.wouldBlock then rest ++ [a] else rest },
        popped ++ .attempted ⟨a, Sender.dataOf message true, answer⟩ ::
          s₁.complaint (Sender.dataOf message true).length answer) := by
  have hsend : Sender.sendMessage a s₁.currentMessage true answer =
      ([⟨a, Sender.dataOf message true, answer⟩],
        Sender.outcome (Sender.dataOf message true).length answer) := by
    rw [hmessage]
    rfl
  rw [send, hprepare]
  simp only [bind, Except.bind, hclients, hsend]
  by_cases hblock : answer.length < 0 ∧ answer.errno = .wouldBlock
  · have hwould : answer.wouldBlock = true := by simpa [SendtoResult.wouldBlock] using hblock
    rw [Sender.outcome, if_pos hblock]
    simp [sendCatch, complaint, hwould]
  · have hwould : answer.wouldBlock = false := by simpa [SendtoResult.wouldBlock] using hblock
    rw [Sender.outcome, if_neg hblock]
    by_cases hlength : answer.length = (Sender.dataOf message true).length
    · rw [if_neg (not_not.mpr hlength)]
      simp [sendCatch, complaint, hwould, hlength]
    · rw [if_pos hlength]
      simp [sendCatch, complaint, hwould, hlength]

/-- A call of `send` first looks for recipients, and then one of the two happens. -/
theorem send_cases {s s' : Server bufferSize} {answer : SendtoResult} {events : List Event}
    (h : s.send rule answer = .ok (s', events)) :
    ∃ s₁ popped, s.prepareSendData rule = .ok (s₁, popped) ∧
      ((∃ poll, s₁.currentClients = [] ∧ s₁.poll.setEvents s₁.sock POLLIN = .ok poll ∧
        s' = { s₁ with poll } ∧ events = popped) ∨
      ∃ a rest message, s₁.currentClients = a :: rest ∧ s₁.currentMessage = some message ∧
        s' = { s₁ with currentClients := if answer.wouldBlock then rest ++ [a] else rest } ∧
        events = popped ++ .attempted ⟨a, Sender.dataOf message true, answer⟩ ::
          s₁.complaint (Sender.dataOf message true).length answer) := by
  obtain ⟨⟨s₁, popped⟩, hprepare, hrest⟩ := TracedRun.bind_ok_iff.mp h
  refine ⟨s₁, popped, hprepare, ?_⟩
  cases hclients : s₁.currentClients with
  | nil =>
    simp only [hclients] at hrest
    obtain ⟨poll, hpoll, heq⟩ := TracedRun.bind_ok_iff.mp hrest
    obtain ⟨rfl, rfl⟩ := Prod.mk.inj (Except.ok.inj heq)
    exact Or.inl ⟨poll, rfl, hpoll, by simp, rfl⟩
  | cons a rest =>
    cases hmessage : s₁.currentMessage with
    | none =>
      simp [hclients, Sender.sendMessage, hmessage, sendCatch, bind, Except.bind] at hrest
    | some message =>
      obtain ⟨rfl, rfl⟩ := Prod.mk.inj
        (Except.ok.inj (h.symm.trans (send_eq_turn hprepare hclients hmessage answer)))
      exact Or.inr ⟨a, rest, message, rfl, rfl, by simp [hmessage], rfl⟩

theorem send_path {s s' : Server bufferSize} {answer : SendtoResult} {events : List Event}
    (h : s.send rule answer = .ok (s', events)) :
    TracedRun.Path (Delivery rule) s events s' := by
  obtain ⟨s₁, popped, hprepare, hcases⟩ := send_cases h
  obtain ⟨hpath, hend⟩ := prepareSendData_path hprepare
  rcases hcases with ⟨poll, hidle, hpoll, rfl, rfl⟩ |
      ⟨a, rest, message, hclients, hmessage, rfl, rfl⟩
  · simpa using hpath.snoc (.idle hidle (hend hidle) hpoll)
  · cases hblock : answer.wouldBlock with
    | true => simpa [complaint, hblock] using hpath.snoc (.blocked hclients hmessage hblock)
    | false =>
      exact hpath.snoc (.completed hclients hmessage hblock (s₁.complaint_cases _ answer))

theorem Delivery.sockRegistered {s s' : Server bufferSize} {events : List Event}
    (h : Delivery rule s events s') (hs : s.SockRegistered) : s'.SockRegistered := by
  cases h with
  | popped _ _ _ _ => exact hs
  | idle _ _ hpoll => exact (s.poll.of_setEvents hs hpoll).1
  | blocked _ _ _ => exact hs
  | completed _ _ _ _ => exact hs

theorem Transition.sockRegistered {s s' : Server bufferSize} {events : List Event}
    (h : Transition rule s events s') (hs : s.SockRegistered) : s'.SockRegistered := by
  cases h with
  | wait answer => exact (s.poll.access_wait answer s.sock).trans hs
  | stop => exact hs
  | receiveFailed _ => exact hs
  | rejected _ _ => exact hs
  | accepted _ _ _ hpoll _ => exact (s.poll.of_setEvents hs hpoll).1
  | delivery h => exact h.sockRegistered hs

end SikUdp.Server
