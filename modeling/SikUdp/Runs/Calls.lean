import SikUdp.Roster.Histories
import SikUdp.Runs.Reachability

/-!
# The calls to the record of clients

The events of a run tell which calls were made to the record of clients. What the server
holds is what these calls make of an empty one.
-/
namespace SikUdp.Server

variable {bufferSize : ℕ} {rule : EraseRule}

/-- The call to the record of clients that an event tells of. -/
def callOf : Event → Option Connections.Call
  | .registered a t => some (.addClient a t)
  | .popped item _ => some (.getClients item.arrivalTime (some item.sender))
  | _ => none

def callsOf (trace : List Event) : List Connections.Call := trace.filterMap callOf

theorem callsOf_append (before after : List Event) :
    callsOf (before ++ after) = callsOf before ++ callsOf after := List.filterMap_append

theorem popped_mem_callsOf {trace : List Event} {item : BufferData} {recipients : List SockAddr}
    (h : .popped item recipients ∈ trace) :
    .getClients item.arrivalTime (some item.sender) ∈ callsOf trace :=
  List.mem_filterMap.mpr ⟨_, h, rfl⟩

inductive RosterStep (rule : EraseRule) (s : Server bufferSize) :
    List Event → Server bufferSize → Prop
  | unchanged {events s'} (hcalls : callsOf events = [])
      (hconnections : s'.connections = s.connections) : RosterStep rule s events s'
  | registered {events s' a t} (hcalls : callsOf events = [.addClient a t])
      (hadd : s.connections.addClient a t = .ok s'.connections) : RosterStep rule s events s'
  | queried {item recipients s'}
      (hget : s.connections.getClients rule item.arrivalTime (some item.sender) =
        .ok (s'.connections, recipients)) : RosterStep rule s [.popped item recipients] s'

theorem Delivery.roster {s s' : Server bufferSize} {events : List Event}
    (h : Delivery rule s events s') : RosterStep rule s events s' := by
  cases h with
  | popped hidle hbuffer hget hmessage => exact .queried hget
  | idle hidle hempty hpoll => exact .unchanged rfl rfl
  | blocked hclients hmessage hblock => exact .unchanged rfl rfl
  | completed hclients hmessage hdone hprinted =>
    rcases hprinted with rfl | rfl
    · exact .unchanged rfl rfl
    · exact .unchanged rfl rfl

theorem Transition.roster {s s' : Server bufferSize} {events : List Event}
    (h : Transition rule s events s') : RosterStep rule s events s' := by
  cases h with
  | wait answer => exact .unchanged rfl rfl
  | stop => exact .unchanged rfl rfl
  | receiveFailed hadd => exact .registered rfl hadd
  | rejected what hadd => exact .registered rfl hadd
  | accepted arrivalTime hdecode hempty hpoll hadd => exact .registered rfl hadd
  | delivery h => exact h.roster

/-- The record of clients is what the calls since the start make of an empty one. -/
def Recorded (rule : EraseRule) (past : List Event) (s : Server bufferSize) : Prop :=
  ∃ answers, TracedRun.run (Connections.call rule) Connections.empty (callsOf past) =
    .ok (s.connections, answers)

theorem Recorded.called {past events : List Event} {s s' : Server bufferSize}
    (h : s.Recorded rule past) {call : Connections.Call} {answers : List (List SockAddr)}
    (hcalls : callsOf events = [call])
    (hcall : Connections.call rule s.connections call = .ok (s'.connections, answers)) :
    s'.Recorded rule (past ++ events) := by
  obtain ⟨before, hrun⟩ := h
  unfold Recorded
  rw [callsOf_append, hcalls]
  exact ⟨before ++ answers, TracedRun.run_append_ok.mpr
    ⟨s.connections, before, answers, hrun, TracedRun.run_singleton_ok.mpr hcall, rfl⟩⟩

theorem RosterStep.recorded {past events : List Event} {s s' : Server bufferSize}
    (h : RosterStep rule s events s') (hs : s.Recorded rule past) :
    s'.Recorded rule (past ++ events) := by
  cases h with
  | unchanged hcalls hconnections =>
    unfold Recorded
    rw [callsOf_append, hcalls, List.append_nil, hconnections]
    exact hs
  | registered hcalls hadd =>
    exact hs.called hcalls (TracedRun.map_ok_iff.mpr ⟨_, hadd, rfl⟩)
  | queried hget => exact hs.called rfl (TracedRun.map_ok_iff.mpr ⟨_, hget, rfl⟩)

theorem Fresh.recorded {s : Server bufferSize} (h : s.Fresh) : s.Recorded rule [] :=
  ⟨[], by rw [h.connections]; rfl⟩

theorem run_recorded {s₀ s : Server bufferSize} (hs₀ : s₀.Constructed) {inputs : List Input}
    {trace : List Event} (h : TracedRun.run (step rule) s₀ inputs = .ok (s, trace)) :
    s.Recorded rule trace := by
  apply (run_path hs₀ h).invariant (fun past s => s.Recorded rule past)
  · exact fun past s events s' hs htrans => htrans.roster.recorded hs
  · exact hs₀.fresh.recorded

end SikUdp.Server
