import SikUdp.Runs.EventLoop
import SikUdp.Runs.Sending
import SikUdp.Runs.Strangers

/-!
# What the server does not depend on

Given the order of the calls of `receive` and `send`, it makes no difference to anything but
the texts of diagnostics what is in an invalid datagram, what the receive buffer holds and
what `poll` has answered. And the loop can be driven through any order of these calls.
-/
namespace SikUdp

def Event.bare : Event → Event
  | .rejected address _ => .rejected address ""
  | e => e

/-- Poll sets that differ in what `poll` reported only. -/
def Poll.Alike (p q : Poll 1) : Prop :=
  q.clientsLength = p.clientsLength ∧ ∀ i : Fin 1,
    (q.client i).fd = (p.client i).fd ∧ (q.client i).events = (p.client i).events

theorem Poll.Alike.refl (p : Poll 1) : p.Alike p := ⟨rfl, fun _ => ⟨rfl, rfl⟩⟩

theorem Poll.Alike.wait {p q : Poll 1} (h : p.Alike q) (answer answer' : PollResult 1) :
    (p.wait answer).1.Alike (q.wait answer').1 := by
  refine ⟨h.1, fun i => ⟨?_, ?_⟩⟩
  · exact (q.wait_fd answer' i).trans ((h.2 i).1.trans (p.wait_fd answer i).symm)
  · exact (q.wait_events answer' i).trans ((h.2 i).2.trans (p.wait_events answer i).symm)

theorem Poll.Alike.waited {p q : Poll 1} (h : p.Alike q) (answer : PollResult 1) :
    p.Alike (q.wait answer).1 :=
  ⟨h.1, fun i => ⟨(q.wait_fd answer i).trans (h.2 i).1, (q.wait_events answer i).trans (h.2 i).2⟩⟩

theorem Poll.Alike.access {p q : Poll 1} (h : p.Alike q) (fd : ℤ) : q.access fd = p.access fd :=
  Poll.access_congr (fun i => (h.2 i).1) fd

theorem Poll.Alike.setEvents {p q p' : Poll 1} {fd : ℤ} {events : EventMask} (h : p.Alike q)
    (hset : p.setEvents fd events = .ok p') :
    ∃ q', q.setEvents fd events = .ok q' ∧ p'.Alike q' := by
  obtain ⟨i, haccess, heq⟩ := TracedRun.bind_ok_iff.mp hset
  cases heq
  refine ⟨_, TracedRun.bind_ok_iff.mpr ⟨i, (h.access fd).trans haccess, rfl⟩, h.1, fun j => ?_⟩
  simp only [Poll.client, Fin.getElem_fin, Vector.getElem_set]
  split_ifs
  · exact ⟨(h.2 i).1, rfl⟩
  · exact h.2 j

namespace Server

variable {bufferSize : ℕ} {rule : EraseRule}

/-- States that differ in the receive buffer and in what `poll` reported only. -/
def Alike (s t : Server bufferSize) : Prop :=
  ∃ poll receiver, t = { s with poll, receiver } ∧ s.poll.Alike poll

def Invalid (d : Datagram) : Prop :=
  ∀ message, decode false d.bytes = .ok message → message.message ≠ []

/-- Inputs the server should not tell apart: answers of `poll`, invalid datagrams received
from one address in one second, and failures in one second. -/
inductive Input.Alike : Input → Input → Prop
  | same (input : Input) : Alike input input
  | wait (answer answer' : PollResult 1) : Alike (.wait answer) (.wait answer')
  | invalid {source : SockAddr} {d d' : Datagram} (hd : Invalid d) (hd' : Invalid d')
      (arrivalTime arrivalTime' connectionTime : ℤ) :
      Alike (.receive ⟨.received source d, arrivalTime, connectionTime⟩)
        (.receive ⟨.received source d', arrivalTime', connectionTime⟩)
  | failed (arrivalTime arrivalTime' connectionTime : ℤ) :
      Alike (.receive ⟨.failed, arrivalTime, connectionTime⟩)
        (.receive ⟨.failed, arrivalTime', connectionTime⟩)

theorem Alike.refl (s : Server bufferSize) : s.Alike s := ⟨_, _, rfl, .refl s.poll⟩

theorem Alike.safe {s t : Server bufferSize} (h : s.Alike t) (hs : s.Safe) : t.Safe := by
  obtain ⟨poll, receiver, rfl, hpoll⟩ := h
  exact ⟨(hpoll.access s.sock).trans hs.sockRegistered, hs.queued, hs.loaded, hs.records⟩

theorem Alike.reception {s t s' t' : Server bufferSize} {input input' : ReceiveInput}
    {events events' : List Event} (h : s.Alike t)
    (hinput : Input.Alike (.receive input) (.receive input'))
    (hs : Reception s input s' events) (ht : Reception t input' t' events') :
    s'.Alike t' ∧ events'.map Event.bare = events.map Event.bare := by
  obtain ⟨poll, receiver, rfl, hpoll⟩ := h
  cases hinput with
  | same =>
    cases hs with
    | failed hrecv hadd =>
      cases ht with
      | failed hrecv' hadd' =>
        cases hadd.symm.trans hadd'
        exact ⟨⟨_, _, rfl, hpoll⟩, rfl⟩
      | rejected what' hrecv' hreject' hadd' => cases hrecv.symm.trans hrecv'
      | accepted hrecv' hdecode' hempty' hset' hadd' => cases hrecv.symm.trans hrecv'
    | rejected what hrecv hreject hadd =>
      cases ht with
      | failed hrecv' hadd' => cases hrecv.symm.trans hrecv'
      | rejected what' hrecv' hreject' hadd' =>
        cases hrecv.symm.trans hrecv'
        cases hadd.symm.trans hadd'
        exact ⟨⟨_, _, rfl, hpoll⟩, rfl⟩
      | accepted hrecv' hdecode' hempty' hset' hadd' =>
        cases hrecv.symm.trans hrecv'
        exact absurd hempty' (hreject _ hdecode')
    | accepted hrecv hdecode hempty hset hadd =>
      cases ht with
      | failed hrecv' hadd' => cases hrecv.symm.trans hrecv'
      | rejected what' hrecv' hreject' hadd' =>
        cases hrecv.symm.trans hrecv'
        exact absurd hempty (hreject' _ hdecode)
      | accepted hrecv' hdecode' hempty' hset' hadd' =>
        cases hrecv.symm.trans hrecv'
        cases hdecode.symm.trans hdecode'
        cases hadd.symm.trans hadd'
        obtain ⟨q, hq, halike⟩ := hpoll.setEvents hset
        cases hq.symm.trans hset'
        exact ⟨⟨_, _, rfl, halike⟩, rfl⟩
  | invalid hd hd' arrivalTime arrivalTime' connectionTime =>
    cases hs with
    | failed hrecv hadd => cases hrecv
    | rejected what hrecv hreject hadd =>
      cases ht with
      | failed hrecv' hadd' => cases hrecv'
      | rejected what' hrecv' hreject' hadd' =>
        cases hrecv
        cases hrecv'
        cases hadd.symm.trans hadd'
        exact ⟨⟨_, _, rfl, hpoll⟩, rfl⟩
      | accepted hrecv' hdecode' hempty' hset' hadd' =>
        cases hrecv'
        exact absurd hempty' (hd' _ hdecode')
    | accepted hrecv hdecode hempty hset hadd =>
      cases hrecv
      exact absurd hempty (hd _ hdecode)
  | failed arrivalTime arrivalTime' connectionTime =>
    cases hs with
    | failed hrecv hadd =>
      cases ht with
      | failed hrecv' hadd' =>
        cases hadd.symm.trans hadd'
        exact ⟨⟨_, _, rfl, hpoll⟩, rfl⟩
      | rejected what' hrecv' hreject' hadd' => cases hrecv'
      | accepted hrecv' hdecode' hempty' hset' hadd' => cases hrecv'
    | rejected what hrecv hreject hadd => cases hrecv
    | accepted hrecv hdecode hempty hset hadd => cases hrecv

theorem Alike.prepareOne {s t s' : Server bufferSize} {e : Event} (h : s.Alike t)
    (hone : s.prepareOne rule = .ok (s', e)) :
    ∃ t', t.prepareOne rule = .ok (t', e) ∧ s'.Alike t' := by
  obtain ⟨poll, receiver, rfl, hpoll⟩ := h
  obtain ⟨⟨item, buffer⟩, hpop, hrest⟩ := TracedRun.bind_ok_iff.mp hone
  obtain ⟨⟨connections, recipients⟩, hget, hrest⟩ := TracedRun.bind_ok_iff.mp hrest
  dsimp only at hget hrest
  cases hmessage : item.message with
  | none =>
    rw [hmessage] at hrest
    cases hrest
  | some message =>
    rw [prepareOne_eq hpop hget hmessage] at hone
    cases hone
    exact ⟨_, prepareOne_eq hpop hget hmessage, _, _, rfl, hpoll⟩

theorem Alike.prepareSendData {s t s' : Server bufferSize} {events : List Event} (h : s.Alike t)
    (hprepare : s.prepareSendData rule = .ok (s', events)) :
    ∃ t', t.prepareSendData rule = .ok (t', events) ∧ s'.Alike t' := by
  induction hsize : s.buffer.size using Nat.strong_induction_on generalizing s t events with
  | _ size ih =>
    have hguard : t.currentClients.length = 0 ∧ t.buffer.size > 0 ↔
        s.currentClients.length = 0 ∧ s.buffer.size > 0 := by
      obtain ⟨poll, receiver, rfl, -⟩ := h
      exact Iff.rfl
    rw [Server.prepareSendData] at hprepare
    split_ifs at hprepare with hbusy
    · split at hprepare
      · cases hprepare
      · rename_i s₁ e hone
        obtain ⟨⟨s₂, later⟩, hrest, heq⟩ := TracedRun.map_ok_iff.mp hprepare
        obtain ⟨rfl, rfl⟩ := Prod.mk.inj heq
        obtain ⟨t₁, hone', halike⟩ := h.prepareOne hone
        obtain ⟨t₂, hrest', halike'⟩ := ih _ (hsize ▸ prepareOne_size hone) halike hrest rfl
        refine ⟨t₂, ?_, halike'⟩
        rw [prepareSendData_next (hguard.mpr hbusy) hone', hrest']
        rfl
    · cases hprepare
      refine ⟨t, ?_, h⟩
      rw [Server.prepareSendData, if_neg (hguard.not.mpr hbusy)]

theorem Alike.send {s t s' : Server bufferSize} {answer : SendtoResult} {events : List Event}
    (h : s.Alike t) (hsend : s.send rule answer = .ok (s', events)) :
    ∃ t', t.send rule answer = .ok (t', events) ∧ s'.Alike t' := by
  obtain ⟨s₁, popped, hprepare, hcases⟩ := send_cases hsend
  obtain ⟨t₁, hprepare', halike⟩ := h.prepareSendData hprepare
  obtain ⟨poll₁, receiver, rfl, hpoll₁⟩ := halike
  rcases hcases with ⟨poll, hidle, hpoll, rfl, rfl⟩ |
      ⟨a, rest, message, hclients, hmessage, rfl, rfl⟩
  · obtain ⟨poll', hpoll', halike⟩ := hpoll₁.setEvents hpoll
    exact ⟨_, send_eq_idle hprepare' hidle hpoll' answer, _, _, rfl, halike⟩
  · exact ⟨_, send_eq_turn hprepare' hclients hmessage answer, _, _, rfl, hpoll₁⟩

/-- Steps on inputs that are not told apart. -/
theorem Alike.step {s t s' : Server bufferSize} {input input' : Input} {events : List Event}
    (hs : s.Safe) (h : s.Alike t) (hinput : Input.Alike input input')
    (hstep : s.step rule input = .ok (s', events)) :
    ∃ t' events', t.step rule input' = .ok (t', events') ∧ s'.Alike t' ∧
      events'.map Event.bare = events.map Event.bare := by
  have ht := h.safe hs
  have hreceive : ∀ {received received' : ReceiveInput},
      Input.Alike (.receive received) (.receive received') →
      s.receive received = .ok (s', events) →
      ∃ t' events', t.receive received' = .ok (t', events') ∧ s'.Alike t' ∧
        events'.map Event.bare = events.map Event.bare := by
    intro received received' halike hfirst
    obtain ⟨t', events', hsecond⟩ := receive_total ht.sockRegistered ht.records received'
    exact ⟨t', events', hsecond, h.reception halike (receive_reception hs.sockRegistered hfirst)
      (receive_reception ht.sockRegistered hsecond)⟩
  have hwait : ∀ {answer answer' : PollResult 1}, s.step rule (.wait answer) = .ok (s', events) →
      ∃ t' events', t.step rule (.wait answer') = .ok (t', events') ∧ s'.Alike t' ∧
        events'.map Event.bare = events.map Event.bare := by
    intro answer answer' hfirst
    rw [step_wait] at hfirst
    cases hfirst
    obtain ⟨poll, receiver, rfl, hpoll⟩ := h
    exact ⟨_, [], step_wait rule _ answer', ⟨_, _, rfl, hpoll.wait answer answer'⟩, rfl⟩
  cases hinput with
  | same input =>
    cases input with
    | wait answer => exact hwait hstep
    | receive received => exact hreceive (.same _) hstep
    | send answer =>
      obtain ⟨t', hsend, halike⟩ := h.send hstep
      exact ⟨t', events, hsend, halike, rfl⟩
    | stop =>
      cases hstep
      obtain ⟨poll, receiver, rfl, hpoll⟩ := h
      exact ⟨_, [], rfl, ⟨_, _, rfl, hpoll⟩, rfl⟩
  | wait answer answer' => exact hwait hstep
  | invalid hd hd' arrivalTime arrivalTime' connectionTime =>
    exact hreceive (.invalid hd hd' _ _ _) hstep
  | failed arrivalTime arrivalTime' connectionTime => exact hreceive (.failed _ _ _) hstep

theorem attempt_bare (e : Event) : e.bare.attempt = e.attempt := by cases e <;> rfl

theorem attempts_bare (trace : List Event) : attempts (trace.map Event.bare) = attempts trace := by
  rw [attempts, List.filterMap_map, attempts]
  congr 1
  exact funext attempt_bare

/-- Given the order of the calls of `receive` and `send`, neither the contents of invalid
datagrams, nor what the receive buffer held at the start, nor the answers of `poll` make a
difference to anything but the texts of diagnostics. What is sent, to whom and in which order
is the same, and in the end the servers differ in the receive buffer and the reported
events only. -/
theorem invalid_indifferent {s₀ s : Server bufferSize} (hs₀ : s₀.Constructed) (receiver : Receiver)
    {inputs inputs' : List Input} {trace : List Event}
    (hinputs : List.Forall₂ Input.Alike inputs inputs')
    (h : TracedRun.run (step rule) s₀ inputs = .ok (s, trace)) :
    ∃ t trace', TracedRun.run (step rule) { s₀ with receiver } inputs' = .ok (t, trace') ∧
      s.Alike t ∧ attempts trace' = attempts trace ∧
      trace'.map Event.bare = trace.map Event.bare := by
  have hstart : s₀.Safe ∧ s₀.Alike { s₀ with receiver } :=
    ⟨hs₀.fresh.safe, _, _, rfl, .refl s₀.poll⟩
  have hstep : ∀ (s t : Server bufferSize) (i j : Input) (s' : Server bufferSize)
      (events : List Event), (s.Safe ∧ s.Alike t) → Input.Alike i j →
      s.step rule i = .ok (s', events) → ∃ t' events', t.step rule j = .ok (t', events') ∧
        (s'.Safe ∧ s'.Alike t') ∧ events'.map Event.bare = events.map Event.bare := by
    intro s t i j s' events ⟨hs, halike⟩ hinput hstep
    obtain ⟨t', events', hother, halike', hview⟩ := halike.step hs hinput hstep
    exact ⟨t', events', hother, ⟨step_safe hs hstep, halike'⟩, hview⟩
  obtain ⟨t, trace', hother, ⟨-, halike⟩, hview⟩ := TracedRun.run_related hstep hinputs hstart h
  refine ⟨t, trace', hother, halike, ?_, hview⟩
  rw [← attempts_bare trace', hview, attempts_bare]

theorem invalid_nil : Invalid ⟨[], by decide⟩ := by
  intro message hdecode
  have hlength := ((decode_accepts_iff false _).mp ⟨message, hdecode⟩).1
  exact absurd hlength (by decide)

theorem invalid_strangerDatagram : Invalid Client.strangerDatagram := by
  intro message hdecode hempty
  have htext := (decode_eq_ok_iff.mp hdecode).2.2.2.2
  rw [hempty] at htext
  exact absurd htext (by decide)

theorem invalid_indifferent_sample :
    ∃ (s t : Server 2) (later trace : List Event),
      TracedRun.run (step .next) sampleServer
        (sampleInputs ++ [.receive ⟨.received ⟨10, 3⟩ ⟨[], by decide⟩, 0, 0⟩]) =
          .ok (s, sampleTrace ++ later) ∧
      TracedRun.run (step .next)
        { sampleServer with receiver := ⟨List.replicate packetSize 1, List.length_replicate⟩ }
        (sampleInputs ++ [.receive ⟨.received ⟨10, 3⟩ Client.strangerDatagram, 0, 0⟩]) =
          .ok (t, trace) ∧
      attempts trace = attempts (sampleTrace ++ later) := by
  obtain ⟨s₁, hfirst, -⟩ := sampleInputs_run
  have hreach : s₁.Reachable .next := ⟨_, _, sampleServer_constructed, _, hfirst⟩
  obtain ⟨s, later, hreceive⟩ := receive_total hreach.sockRegistered hreach.safe.records
    ⟨.received ⟨10, 3⟩ ⟨[], by decide⟩, 0, 0⟩
  have hrun := TracedRun.run_append_ok.mpr ⟨s₁, sampleTrace, later, hfirst,
    (TracedRun.run_singleton_ok (i := Input.receive _)).mpr hreceive, rfl⟩
  have hinputs : List.Forall₂ Input.Alike
      (sampleInputs ++ [.receive ⟨.received ⟨10, 3⟩ ⟨[], by decide⟩, 0, 0⟩])
      (sampleInputs ++ [.receive ⟨.received ⟨10, 3⟩ Client.strangerDatagram, 0, 0⟩]) :=
    List.rel_append (List.forall₂_same.mpr fun input _ => .same input)
      (.cons (.invalid invalid_nil invalid_strangerDatagram 0 0 0) .nil)
  obtain ⟨t, trace, hother, -, hattempts, -⟩ := invalid_indifferent sampleServer_constructed
    ⟨List.replicate packetSize 1, List.length_replicate⟩ hinputs hrun
  exact ⟨s, t, later, trace, hrun, hother, hattempts⟩

end Server
end SikUdp
