import SikUdp.Runs.Transitions
import SikUdp.Startup.FileContent

/-!
# Steps, runs and reachable states

A step of the server is a path of transitions, and so is a run. What the constructor
establishes and every transition preserves therefore holds of every state that some steps
lead to.
-/
namespace SikUdp.Server

variable {bufferSize : ℕ} {rule : EraseRule}

/-- Every error exit of `wait` is an exception, which the loop catches. -/
theorem step_wait (rule : EraseRule) (s : Server bufferSize) (answer : PollResult 1) :
    s.step rule (.wait answer) = .ok ({ s with poll := (s.poll.wait answer).1 }, []) := by
  rw [step]
  split
  · rename_i poll hwait
    obtain ⟨e, he⟩ := s.poll.wait_error (congrArg Prod.snd hwait)
    cases he
  · rename_i poll outcome _ hwait
    rw [hwait]

theorem step_path {s s' : Server bufferSize} {input : Input} {events : List Event}
    (hsock : s.SockRegistered) (h : s.step rule input = .ok (s', events)) :
    TracedRun.Path (Transition rule) s events s' := by
  cases input with
  | wait answer =>
    rw [step_wait] at h
    cases h
    exact .single (.wait s answer)
  | receive input => exact .single (receive_reception hsock h).transition
  | send answer => exact (send_path h).mono fun _ _ _ => .delivery
  | stop =>
    cases h
    exact .single (.stop s)

theorem step_sockRegistered {s s' : Server bufferSize} {input : Input} {events : List Event}
    (hsock : s.SockRegistered) (h : s.step rule input = .ok (s', events)) : s'.SockRegistered :=
  (step_path hsock h).preserves (fun _ _ _ hgood htrans => htrans.sockRegistered hgood) hsock

/-- A server that was constructed successfully. -/
def Constructed (s : Server bufferSize) : Prop :=
  ∃ hsize port env, construct hsize port env = .ok s

theorem readFile_text {file : File.Reading} {content : List UInt8}
    (h : readFile file = .ok content) : 0 ∉ content := by
  unfold readFile at h
  rcases file.outcome_cases with ⟨text, htext, hnul⟩ | hopen | hread
  · rw [htext] at h
    cases h
    exact hnul
  · rw [hopen] at h
    cases h
  · rw [hread] at h
    cases h

/-- The state a successful constructor leaves. -/
structure Fresh (s : Server bufferSize) : Prop where
  stopping : s.stopping = false
  sockRegistered : s.SockRegistered
  events : s.poll.events s.sock = some (POLLIN ||| POLLOUT)
  text : 0 ∉ s.fileContent
  buffer : s.buffer.toList = []
  connections : s.connections = Connections.empty
  currentClients : s.currentClients = []

theorem Constructed.fresh {s : Server bufferSize} (h : s.Constructed) : s.Fresh := by
  obtain ⟨hsize, port, env, h⟩ := h
  obtain ⟨sock, -, h⟩ := TracedRun.bind_ok_iff.mp h
  obtain ⟨address, -, h⟩ := TracedRun.bind_ok_iff.mp h
  obtain ⟨content, hcontent, h⟩ := TracedRun.bind_ok_iff.mp h
  obtain ⟨poll, hpoll, h⟩ := TracedRun.bind_ok_iff.mp h
  cases h
  obtain ⟨haccess, hevents⟩ := Poll.of_addDescriptor_empty hpoll
  exact ⟨rfl, haccess, hevents, readFile_text hcontent, Buffer.toList_empty hsize, rfl, rfl⟩

theorem run_path {s s' : Server bufferSize} {inputs : List Input} {trace : List Event}
    (hs : s.Constructed) (h : TracedRun.run (step rule) s inputs = .ok (s', trace)) :
    TracedRun.Path (Transition rule) s trace s' :=
  TracedRun.run_path (fun _ _ _ hsock htrans => htrans.sockRegistered hsock)
    (fun _ _ _ _ hsock hstep => step_path hsock hstep) hs.fresh.sockRegistered h

def Steps (rule : EraseRule) (s : Server bufferSize) (trace : List Event)
    (s' : Server bufferSize) : Prop :=
  ∃ inputs, TracedRun.run (step rule) s inputs = .ok (s', trace)

theorem Steps.refl (s : Server bufferSize) : Steps rule s [] s := ⟨[], rfl⟩

theorem Steps.single {s s' : Server bufferSize} {trace : List Event} (input : Input)
    (h : s.step rule input = .ok (s', trace)) : Steps rule s trace s' :=
  ⟨[input], TracedRun.run_singleton_ok.mpr h⟩

theorem Steps.trans {s s₁ s' : Server bufferSize} {trace later : List Event}
    (h : Steps rule s trace s₁) (h' : Steps rule s₁ later s') :
    Steps rule s (trace ++ later) s' := by
  obtain ⟨before, hbefore⟩ := h
  obtain ⟨after, hafter⟩ := h'
  exact ⟨before ++ after, TracedRun.run_append_ok.mpr ⟨s₁, trace, later, hbefore, hafter, rfl⟩⟩

/-- A state some steps lead to from a successful constructor. -/
def Reachable (rule : EraseRule) (s : Server bufferSize) : Prop :=
  ∃ (s₀ : Server bufferSize) (trace : List Event), s₀.Constructed ∧ Steps rule s₀ trace s

/-- What every transition preserves holds of every reachable state. -/
theorem Reachable.invariant {Good : Server bufferSize → Prop} {s : Server bufferSize}
    (hs : s.Reachable rule) (hfresh : ∀ s : Server bufferSize, s.Fresh → Good s)
    (hstep : ∀ (s : Server bufferSize) (events : List Event) (s' : Server bufferSize),
      Good s → Transition rule s events s' → Good s') : Good s := by
  obtain ⟨s₀, trace, hs₀, inputs, hrun⟩ := hs
  exact (run_path hs₀ hrun).preserves hstep (hfresh s₀ hs₀.fresh)

theorem Reachable.step {s s' : Server bufferSize} {events : List Event} (hs : s.Reachable rule)
    (input : Input) (h : s.step rule input = .ok (s', events)) : s'.Reachable rule := by
  obtain ⟨s₀, trace, hs₀, hsteps⟩ := hs
  exact ⟨s₀, _, hs₀, hsteps.trans (.single input h)⟩

theorem Reachable.receive {s s' : Server bufferSize} {events : List Event}
    (hs : s.Reachable rule) (input : ReceiveInput) (h : s.receive input = .ok (s', events)) :
    s'.Reachable rule :=
  hs.step (.receive input) h

theorem Constructed.reachable {s : Server bufferSize} (hs : s.Constructed) (rule : EraseRule) :
    s.Reachable rule :=
  ⟨s, [], hs, .refl s⟩

theorem Reachable.sockRegistered {s : Server bufferSize} (hs : s.Reachable rule) :
    s.SockRegistered :=
  hs.invariant (fun _ hfresh => hfresh.sockRegistered)
    fun _ _ _ hsock htrans => htrans.sockRegistered hsock

def sampleServer : Server 2 where
  stopping := false
  sock := 3
  fileContent := [104, 105]
  address := ⟨0, htons 10001⟩
  poll := ⟨#v[⟨3, POLLIN ||| POLLOUT, 0⟩], 1⟩
  buffer := Buffer.empty (by decide)
  currentMessage := none
  connections := Connections.empty
  currentClients := []
  receiver := Receiver.zeroed

def sampleEnvironment : Environment := ⟨3, 0, File.sampleReading, Receiver.zeroed⟩

theorem sampleServer_constructed : sampleServer.Constructed := by
  have hfile : readFile File.sampleReading = .ok [104, 105] := by
    rw [readFile, File.sampleReading_outcome]
  refine ⟨by decide, 10001, sampleEnvironment, ?_⟩
  rw [construct, sampleEnvironment, hfile]
  rfl

def sampleItem (source : SockAddr) : BufferData := ⟨0, some sampleRequest, source⟩

def sampleAttempt (a : SockAddr) (answer : SendtoResult) : Attempt :=
  ⟨a, Sender.dataOf (sampleRequest.setMessage [104, 105]) true, answer⟩

/-- What the server holds when messages of the sample datagram are in its buffer. -/
structure Holds (s : Server 2) (items : List BufferData) (clients : List Connections.Client)
    (waiting : List SockAddr) : Prop where
  sockRegistered : s.SockRegistered
  fileContent : s.fileContent = [104, 105]
  buffer : s.buffer.toList = items
  connections : s.connections = ⟨clients⟩
  currentClients : s.currentClients = waiting
  currentMessage : waiting ≠ [] → s.currentMessage = some (sampleRequest.setMessage [104, 105])

theorem sampleServer_holds : sampleServer.Holds [] [] [] := by
  have hfresh := sampleServer_constructed.fresh
  exact ⟨hfresh.sockRegistered, rfl, hfresh.buffer, hfresh.connections, hfresh.currentClients,
    fun hne => absurd rfl hne⟩

theorem receive_sample {s : Server bufferSize} (hsock : s.SockRegistered)
    (hrecords : ∀ c ∈ s.connections.clients, c.connections ≠ []) (source : SockAddr) (t : ℤ) :
    ∃ receiver poll connections, s.connections.addClient source t = .ok connections ∧
      s.poll.setEvents s.sock (POLLIN ||| POLLOUT) = .ok poll ∧
      s.receive ⟨.received source sampleDatagram, t, t⟩ = .ok
        ({ s with
            receiver, poll, connections
            buffer := s.buffer.push ⟨t, some sampleRequest, source⟩ },
          [.accepted sampleDatagram ⟨t, some sampleRequest, source⟩ (overwritten s.buffer),
            .registered source t]) := by
  obtain ⟨s', events, h⟩ := receive_total hsock hrecords ⟨.received source sampleDatagram, t, t⟩
  cases receive_reception hsock h with
  | failed hinput hadd => cases hinput
  | rejected what hinput hreject hadd =>
    cases hinput
    exact absurd rfl (hreject _ decode_sampleDatagram)
  | accepted hinput hdecode hempty hpoll hadd =>
    cases hinput
    cases hdecode.symm.trans decode_sampleDatagram
    exact ⟨_, _, _, hadd, hpoll, h⟩

namespace Holds
variable {s : Server 2} {items rest : List BufferData} {clients clients' : List Connections.Client}
  {waiting : List SockAddr} {a source : SockAddr}

theorem receive (h : s.Holds items clients waiting) (source : SockAddr)
    (hrecords : ∀ c ∈ clients, c.connections ≠ [])
    (hadd : (⟨clients⟩ : Connections).addClient source 0 = .ok ⟨clients'⟩) :
    ∃ s', s.receive ⟨.received source sampleDatagram, 0, 0⟩ = .ok (s',
        [.accepted sampleDatagram (sampleItem source) (BoundedFifo.dropped 2 items),
          .registered source 0]) ∧
      s'.Holds (BoundedFifo.push 2 items (sampleItem source)) clients' waiting := by
  obtain ⟨receiver, poll, connections, hadd', hpoll, hreceive⟩ :=
    receive_sample h.sockRegistered (by rw [h.connections]; exact hrecords) source 0
  rw [h.connections, hadd] at hadd'
  cases hadd'
  rw [overwritten, h.buffer] at hreceive
  refine ⟨_, hreceive, (s.poll.of_setEvents h.sockRegistered hpoll).1, h.fileContent, ?_, rfl,
    h.currentClients, h.currentMessage⟩
  rw [Buffer.toList_push, h.buffer]
  rfl

theorem turn {s₁ : Server 2} {popped : List Event} (h : s₁.Holds items clients (a :: waiting))
    (answer : SendtoResult)
    (hprepare : s.prepareSendData .next = .ok (s₁, popped))
    (hanswer : answer.wouldBlock = true ∨ answer.length = 12) :
    ∃ s', s.send .next answer = .ok (s', popped ++ [.attempted (sampleAttempt a answer)]) ∧
      s'.Holds items clients (if answer.wouldBlock then waiting ++ [a] else waiting) := by
  have hmessage := h.currentMessage (List.cons_ne_nil _ _)
  have hsend := send_eq_turn hprepare h.currentClients hmessage answer
  have hquiet : s₁.complaint (Sender.dataOf (sampleRequest.setMessage [104, 105]) true).length
      answer = [] := by
    have hlength : (Sender.dataOf (sampleRequest.setMessage [104, 105]) true).length = 12 := rfl
    rw [complaint, hlength, if_neg]
    rintro ⟨hdone, hshort⟩
    rcases hanswer with hblock | hall
    · exact absurd (hdone.symm.trans hblock) Bool.false_ne_true
    · exact hshort hall
  rw [hquiet] at hsend
  exact ⟨_, hsend, h.sockRegistered, h.fileContent, h.buffer, h.connections, rfl, fun _ => hmessage⟩

theorem sendWaiting (h : s.Holds items clients (a :: waiting)) (answer : SendtoResult)
    (hanswer : answer.wouldBlock = true ∨ answer.length = 12) :
    ∃ s', s.send .next answer = .ok (s', [.attempted (sampleAttempt a answer)]) ∧
      s'.Holds items clients (if answer.wouldBlock then waiting ++ [a] else waiting) :=
  h.turn answer (prepareSendData_busy (by simp [h.currentClients])) hanswer

theorem sendNext (h : s.Holds (sampleItem source :: rest) clients []) (answer : SendtoResult)
    (hget : (⟨clients⟩ : Connections).getClients .next 0 (some source) =
      .ok (⟨clients'⟩, a :: waiting))
    (hanswer : answer.wouldBlock = true ∨ answer.length = 12) :
    ∃ s', s.send .next answer = .ok (s', [.popped (sampleItem source) (a :: waiting),
        .attempted (sampleAttempt a answer)]) ∧
      s'.Holds rest clients' (if answer.wouldBlock then waiting ++ [a] else waiting) := by
  rw [← h.connections] at hget
  obtain ⟨buffer, hbuffer, hprepare⟩ :=
    prepareSendData_found h.currentClients h.buffer hget rfl (List.cons_ne_nil _ _)
  refine Holds.turn ?_ answer hprepare hanswer
  exact ⟨h.sockRegistered, h.fileContent, hbuffer, rfl, rfl, fun _ => by rw [h.fileContent]⟩

end Holds

/-- A message of each of three clients, of which the first is overwritten, and four attempts:
the first one blocks and is repeated behind the second. -/
def sampleInputs : List Input :=
  [.receive ⟨.received ⟨10, 1⟩ sampleDatagram, 0, 0⟩,
    .receive ⟨.received ⟨10, 2⟩ sampleDatagram, 0, 0⟩,
    .receive ⟨.received ⟨10, 3⟩ sampleDatagram, 0, 0⟩,
    .send ⟨-1, .wouldBlock⟩, .send ⟨12, .other⟩, .send ⟨12, .other⟩, .send ⟨12, .other⟩]

def sampleTrace : List Event :=
  [.accepted sampleDatagram (sampleItem ⟨10, 1⟩) none, .registered ⟨10, 1⟩ 0,
    .accepted sampleDatagram (sampleItem ⟨10, 2⟩) none, .registered ⟨10, 2⟩ 0,
    .accepted sampleDatagram (sampleItem ⟨10, 3⟩) (some (sampleItem ⟨10, 1⟩)),
    .registered ⟨10, 3⟩ 0,
    .popped (sampleItem ⟨10, 2⟩) [⟨10, 1⟩, ⟨10, 3⟩],
    .attempted (sampleAttempt ⟨10, 1⟩ ⟨-1, .wouldBlock⟩),
    .attempted (sampleAttempt ⟨10, 3⟩ ⟨12, .other⟩),
    .attempted (sampleAttempt ⟨10, 1⟩ ⟨12, .other⟩),
    .popped (sampleItem ⟨10, 3⟩) [⟨10, 1⟩, ⟨10, 2⟩],
    .attempted (sampleAttempt ⟨10, 1⟩ ⟨12, .other⟩)]

theorem sampleInputs_run :
    ∃ s, TracedRun.run (step .next) sampleServer sampleInputs = .ok (s, sampleTrace) ∧
      s.buffer.toList = [] ∧ s.currentClients = [⟨10, 2⟩] := by
  have hblock : SendtoResult.wouldBlock ⟨-1, .wouldBlock⟩ = true := by decide
  obtain ⟨s₁, h₁, hs₁⟩ := sampleServer_holds.receive ⟨10, 1⟩ (by simp) rfl
  obtain ⟨s₂, h₂, hs₂⟩ := hs₁.receive ⟨10, 2⟩ (by simp [Connections.Client.new]) rfl
  obtain ⟨s₃, h₃, hs₃⟩ := hs₂.receive ⟨10, 3⟩ (by simp [Connections.Client.new]) rfl
  obtain ⟨s₄, h₄, hs₄⟩ := hs₃.sendNext _ rfl (Or.inl hblock)
  obtain ⟨s₅, h₅, hs₅⟩ := Holds.sendWaiting hs₄ ⟨12, .other⟩ (Or.inr rfl)
  obtain ⟨s₆, h₆, hs₆⟩ := Holds.sendWaiting hs₅ ⟨12, .other⟩ (Or.inr rfl)
  obtain ⟨s₇, h₇, hs₇⟩ := Holds.sendNext hs₆ ⟨12, .other⟩ rfl (Or.inr rfl)
  refine ⟨s₇, ?_, hs₇.buffer, hs₇.currentClients⟩
  have h₆₇ := TracedRun.run_cons_ok.mpr ⟨s₆, _, _, h₆, TracedRun.run_singleton_ok.mpr h₇, rfl⟩
  have h₄₇ := TracedRun.run_cons_ok.mpr
    ⟨s₄, _, _, h₄, TracedRun.run_cons_ok.mpr ⟨s₅, _, _, h₅, h₆₇, rfl⟩, rfl⟩
  exact TracedRun.run_cons_ok.mpr ⟨s₁, _, _, h₁, TracedRun.run_cons_ok.mpr
    ⟨s₂, _, _, h₂, TracedRun.run_cons_ok.mpr ⟨s₃, _, _, h₃, h₄₇, rfl⟩, rfl⟩, rfl⟩

end SikUdp.Server
