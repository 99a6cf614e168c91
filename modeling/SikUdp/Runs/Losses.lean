import SikUdp.Library.Backlog
import SikUdp.Runs.DeliveryOrder

/-!
# What overflow costs

A message is lost when another one is accepted while the buffer is full. How many messages
a run loses can be told from when messages are accepted and when they are taken from the
buffer: as many as the buffer was ever short of.
-/
namespace SikUdp.Server

open Backlog

variable {bufferSize : ℕ} {rule : EraseRule}

def lossOf : Event → Option BufferData
  | .accepted _ _ overwritten => overwritten
  | _ => none

def losses (trace : List Event) : List BufferData := trace.filterMap lossOf

/-- What an event does to the number of messages in the buffer. -/
def moveOf : Event → Option Move
  | .accepted _ _ _ => some .arrive
  | .popped _ _ => some .take
  | _ => none

def movesOf (trace : List Event) : List Move := trace.filterMap moveOf

theorem losses_append (before after : List Event) :
    losses (before ++ after) = losses before ++ losses after := List.filterMap_append

theorem movesOf_append (before after : List Event) :
    movesOf (before ++ after) = movesOf before ++ movesOf after := List.filterMap_append

theorem movesOf_concat (past : List Event) (e : Event) :
    movesOf (past ++ [e]) = movesOf past ++ (moveOf e).toList := filterMap_concat moveOf past e

theorem count_arrive (trace : List Event) :
    (movesOf trace).count .arrive = (acceptedItems trace).length := by
  induction trace using List.reverseRecOn with
  | nil => rfl
  | append_singleton past e ih =>
    rw [movesOf_concat, acceptedItems_concat, List.count_append, List.length_append, ih]
    cases e <;> rfl

theorem count_take (trace : List Event) :
    (movesOf trace).count .take = (jobs trace).length := by
  induction trace using List.reverseRecOn with
  | nil => rfl
  | append_singleton past e ih =>
    rw [movesOf_concat, List.count_append, ih]
    cases e with
    | popped item recipients =>
      rw [jobs_popped, List.length_append]
      rfl
    | accepted d item overwritten =>
      rw [jobs_accepted]
      rfl
    | _ =>
      rw [jobs_of_removedItems ((removedItems_concat past _).trans (List.append_nil _))]
      rfl

theorem excess_movesOf (bufferSize : ℕ) (trace : List Event) :
    excess bufferSize (movesOf trace) =
      (acceptedItems trace).length - ((jobs trace).length + bufferSize) := by
  rw [excess, count_arrive, count_take]

theorem excesses_movesOf (bufferSize : ℕ) (trace : List Event) :
    excesses bufferSize (movesOf trace) =
      {n | ∃ before, before <+: trace ∧
        n = (acceptedItems before).length - ((jobs before).length + bufferSize)} := by
  ext n
  constructor
  · rintro ⟨moves, ⟨later, hmoves⟩, rfl⟩
    obtain ⟨before, after, rfl, rfl, -⟩ := List.filterMap_eq_append_iff.mp hmoves.symm
    exact ⟨before, List.prefix_append before after, excess_movesOf bufferSize before⟩
  · rintro ⟨before, ⟨after, rfl⟩, rfl⟩
    refine ⟨movesOf before, ?_, (excess_movesOf bufferSize before).symm⟩
    rw [movesOf_append]
    exact List.prefix_append _ _

/-- The history of the server accounts for what is in the buffer and what was lost. -/
def Audited (past : List Event) (s : Server bufferSize) : Prop :=
  Accounted bufferSize (movesOf past) s.buffer.toList.length (losses past).length

namespace Audited
variable {past events : List Event} {s s' : Server bufferSize}

theorem silent (h : s.Audited past) (hmoves : movesOf events = []) (hlosses : losses events = [])
    (hbuffer : s'.buffer = s.buffer) : s'.Audited (past ++ events) := by
  unfold Audited
  rw [movesOf_append, losses_append, hmoves, hlosses, hbuffer, List.append_nil, List.append_nil]
  exact h

theorem accepted (h : s.Audited past) {item : BufferData}
    (hmoves : movesOf events = [.arrive])
    (hlosses : losses events = (overwritten s.buffer).toList)
    (hbuffer : s'.buffer = s.buffer.push item) : s'.Audited (past ++ events) := by
  unfold Audited
  rw [movesOf_append, losses_append, hmoves, hlosses, hbuffer, Buffer.toList_push,
    List.length_append]
  exact h.push s.buffer.size_pos item

theorem popped (h : s.Audited past) {item : BufferData} (hmoves : movesOf events = [.take])
    (hlosses : losses events = []) (hbuffer : s.buffer.toList = item :: s'.buffer.toList) :
    s'.Audited (past ++ events) := by
  unfold Audited at h ⊢
  rw [hbuffer, List.length_cons] at h
  rw [movesOf_append, losses_append, hmoves, hlosses, List.append_nil]
  exact h.take

end Audited

theorem Delivery.audited {past events : List Event} {s s' : Server bufferSize}
    (h : Delivery rule s events s') (hs : s.Audited past) : s'.Audited (past ++ events) := by
  cases h with
  | popped hidle hbuffer hget hmessage => exact hs.popped rfl rfl hbuffer
  | idle hidle hempty hpoll => exact hs.silent rfl rfl rfl
  | blocked hclients hmessage hblock => exact hs.silent rfl rfl rfl
  | completed hclients hmessage hdone hprinted =>
    rcases hprinted with rfl | rfl
    · exact hs.silent rfl rfl rfl
    · exact hs.silent rfl rfl rfl

theorem Transition.audited {past events : List Event} {s s' : Server bufferSize}
    (h : Transition rule s events s') (hs : s.Audited past) : s'.Audited (past ++ events) := by
  cases h with
  | wait answer => exact hs.silent rfl rfl rfl
  | stop => exact hs.silent rfl rfl rfl
  | receiveFailed hadd => exact hs.silent rfl rfl rfl
  | rejected what hadd => exact hs.silent rfl rfl rfl
  | accepted arrivalTime hdecode hempty hpoll hadd =>
    apply hs.accepted
    · rfl
    · cases hlost : overwritten s.buffer <;> rfl
    · rfl
  | delivery h => exact h.audited hs

theorem run_audited {s₀ s : Server bufferSize} (hs₀ : s₀.Constructed) {inputs : List Input}
    {trace : List Event} (h : TracedRun.run (step rule) s₀ inputs = .ok (s, trace)) :
    s.Audited trace := by
  apply (run_path hs₀ h).invariant (fun past s => s.Audited past)
  · exact fun past s events s' hs htrans => htrans.audited hs
  · unfold Audited
    rw [hs₀.fresh.buffer]
    exact Accounted.empty bufferSize

/-- In every run as many messages are lost as the buffer was ever short of: the greatest
excess, at any moment, of the messages accepted until then over those taken until then and
the size of the buffer. -/
theorem losses_exact {s₀ s : Server bufferSize} (hs₀ : s₀.Constructed) {inputs : List Input}
    {trace : List Event} (h : TracedRun.run (step rule) s₀ inputs = .ok (s, trace)) :
    IsGreatest {n | ∃ before, before <+: trace ∧
        n = (acceptedItems before).length - ((jobs before).length + bufferSize)}
      (losses trace).length := by
  rw [← excesses_movesOf]
  exact (run_audited hs₀ h).greatest

def overflowInputs : List Input :=
  [.receive ⟨.received ⟨10, 1⟩ sampleDatagram, 0, 0⟩,
    .receive ⟨.received ⟨10, 2⟩ sampleDatagram, 0, 0⟩,
    .receive ⟨.received ⟨10, 3⟩ sampleDatagram, 0, 0⟩]

theorem losses_exact_sample :
    ∃ s trace, TracedRun.run (step .next) sampleServer overflowInputs = .ok (s, trace) ∧
      IsGreatest {n | ∃ before, before <+: trace ∧
          n = (acceptedItems before).length - ((jobs before).length + 2)}
        (losses trace).length := by
  obtain ⟨s, trace, hrun⟩ := sampleServer_constructed.run_total
    EraseRule.next_goesOn.staysInside overflowInputs
  exact ⟨s, trace, hrun, losses_exact sampleServer_constructed hrun⟩

end SikUdp.Server
