import SikUdp.Runs.EventLoop
import SikUdp.Runs.Sending

/-!
# The loop comes to rest

A socket can nearly always be written to, so `poll` returns at once for as long as the
server asks for that. It asks while something is left to send and little longer: the
number of wake-ups without a datagram is bounded by the work, and behind them the loop
sleeps with nothing left to do.
-/
namespace SikUdp.Server

variable {bufferSize : ℕ} {rule : EraseRule}

theorem Transition.polling {s s' : Server bufferSize} {events : List Event}
    (h : Transition rule s events s') (hs : s.Polling) : s'.Polling := by
  have hsock := hs.sockRegistered
  refine ⟨h.sockRegistered hsock, ?_⟩
  cases h with
  | wait answer => exact hs.polled
  | stop => exact hs.polled
  | receiveFailed hadd => exact hs.polled
  | rejected what hadd => exact hs.polled
  | accepted arrivalTime hdecode hempty hpoll hadd =>
    exact (Attends.setEvents hsock hpoll).polled.trans hs.polled
  | delivery h => exact (h.attends hsock).polled.trans hs.polled

theorem Reachable.polling {s : Server bufferSize} (hs : s.Reachable rule) : s.Polling := by
  obtain ⟨s₀, trace, hs₀, inputs, hrun⟩ := hs
  exact (run_path hs₀ hrun).preserves (fun _ _ _ hgood htrans => htrans.polling hgood) hs₀.polling

/-- A turn without a signal or a datagram, on a socket that can be written to: `poll` returns
because that was asked for, and the datagram is taken. -/
structure Writes (s : Server bufferSize) (turn : Turn) : Prop where
  asked : s.AsksFor POLLOUT
  undisturbed : turn.stopBefore = false ∧ turn.stopDuringWait = false
  woken : 0 < turn.poll.result ∧ turn.poll.revents 0 = POLLOUT
  taken : turn.send.wouldBlock = false

theorem loopInputs_writes {s : Server bufferSize} {turn : Turn} (h : s.Writes turn)
    (turns : List Turn) :
    loopInputs (turn :: turns) = [.wait turn.poll, .send turn.send] ++ loopInputs turns := by
  have hserved : servedInputs turn = [.send turn.send] := by
    rw [servedInputs, h.woken.2]
    rfl
  rw [loopInputs, h.undisturbed.1, h.undisturbed.2, hserved]
  simp [h.woken.1]

/-- One such turn ends the work or lowers the load, and the loop goes on behind it. -/
theorem Writes.turn (hrule : rule.StaysInside) {s : Server bufferSize} (hs : s.Reachable rule)
    (hrunning : s.stopping = false) {turn : Turn} (h : s.Writes turn) :
    ∃ s' trace, (∀ turns, runLoop rule s (turn :: turns) =
        (runLoop rule s' turns).map fun r => (r.1, trace ++ r.2)) ∧
      s'.Reachable rule ∧ s'.stopping = false ∧ (s'.Drained ∨ s'.load + 1 ≤ s.load) := by
  have hsock := hs.sockRegistered
  obtain ⟨s', trace, hrun, -, -, hless⟩ := run_load hrule hs.safe
    (show ∀ answers, Input.receive answers ∉ [.wait turn.poll, .send turn.send] by simp)
  have hworks : [Input.wait turn.poll, .send turn.send].countP works = 1 := by
    simp [works, h.taken]
  have hreach : s'.Reachable rule := by
    obtain ⟨s₀, past, hs₀, hsteps⟩ := hs
    exact ⟨s₀, _, hs₀, hsteps.trans ⟨_, hrun⟩⟩
  have hrunning' : s'.stopping = false := by
    obtain ⟨s₁, waited, sent, hwait, hsend, -⟩ := TracedRun.run_cons_ok.mp hrun
    have hsock₁ := step_sockRegistered hsock hwait
    rw [step_wait] at hwait
    obtain ⟨rfl, -⟩ := Prod.mk.inj (Except.ok.inj hwait)
    exact (send_attends hsock₁ (TracedRun.run_singleton_ok.mp hsend)).stopping.trans hrunning
  refine ⟨s', trace, fun turns => ?_, hreach, hrunning', hworks ▸ hless⟩
  rw [runLoop_eq hs.polling hrunning, loopInputs_writes h, TracedRun.run_append, hrun,
    runLoop_eq hreach.polling hrunning']
  rfl

end SikUdp.Server
