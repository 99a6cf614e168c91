import SikUdp.Runs.DeliveryOrder

/-!
# What a run shows of the clock and the network

The messages accepted and the addresses registered, with the readings of the clock
that belong to them. They depend on the answers given to `receive` alone, not on
when messages were sent.
-/
namespace SikUdp.Server

variable {bufferSize : ℕ} {rule : EraseRule}

/-- A message accepted, or an address registered at a time. -/
abbrev Observation := BufferData ⊕ SockAddr × ℤ

def observe : Event → Option Observation
  | .accepted _ item _ => some (.inl item)
  | .registered a t => some (.inr (a, t))
  | _ => none

def observations (trace : List Event) : List Observation := trace.filterMap observe

def Observation.time : Observation → ℤ
  | .inl item => item.arrivalTime
  | .inr (_, t) => t

def readings (trace : List Event) : List ℤ := (observations trace).map Observation.time

def registrations (trace : List Event) : List (SockAddr × ℤ) :=
  (observations trace).filterMap Sum.getRight?

def queried (trace : List Event) : List ℤ := (jobs trace).map fun job => job.1.arrivalTime

theorem observations_append (past events : List Event) :
    observations (past ++ events) = observations past ++ observations events :=
  List.filterMap_append

theorem registrations_append (past events : List Event) :
    registrations (past ++ events) = registrations past ++ registrations events := by
  rw [registrations, observations_append, List.filterMap_append]
  rfl

theorem readings_append (past events : List Event) :
    readings (past ++ events) = readings past ++ readings events := by
  rw [readings, observations_append, List.map_append]
  rfl

theorem acceptedItems_eq (trace : List Event) :
    acceptedItems trace = (observations trace).filterMap Sum.getLeft? := by
  unfold acceptedItems observations
  rw [List.filterMap_filterMap]
  congr 1
  funext e
  cases e <;> rfl

theorem mem_registrations {trace : List Event} {a : SockAddr} {t : ℤ} :
    (a, t) ∈ registrations trace ↔ .registered a t ∈ trace := by
  rw [registrations, observations, List.filterMap_filterMap, List.mem_filterMap]
  constructor
  · rintro ⟨e, he, hregistered⟩
    cases e <;> simp_all [observe]
  · intro h
    exact ⟨_, h, rfl⟩

theorem mem_readings_of_registrations {trace : List Event} {u : SockAddr × ℤ}
    (h : u ∈ registrations trace) : u.2 ∈ readings trace := by
  obtain ⟨o, ho, hright⟩ := List.mem_filterMap.mp h
  cases o with
  | inl item => cases hright
  | inr v =>
    cases hright
    exact List.mem_map.mpr ⟨.inr u, ho, rfl⟩

theorem arrivalTimes_sublist (trace : List Event) :
    ((acceptedItems trace).map BufferData.arrivalTime).Sublist (readings trace) := by
  rw [acceptedItems_eq, readings]
  induction observations trace with
  | nil => exact .slnil
  | cons o os ih =>
    cases o with
    | inl item => exact ih.cons_cons _
    | inr u => exact ih.cons _

/-- The clock was never set back. -/
def Steady (trace : List Event) : Prop := (readings trace).Pairwise (· ≤ ·)

theorem Steady.of_append {past events : List Event} (h : Steady (past ++ events)) :
    Steady past := by
  unfold Steady at h
  rw [readings_append] at h
  exact (List.pairwise_append.mp h).1

theorem Steady.le {past events : List Event} (h : Steady (past ++ events)) {x y : ℤ}
    (hx : x ∈ readings past) (hy : y ∈ readings events) : x ≤ y := by
  unfold Steady at h
  rw [readings_append] at h
  exact (List.pairwise_append.mp h).2.2 x hx y hy

def receives (inputs : List Input) : List ReceiveInput :=
  inputs.filterMap fun
    | .receive input => some input
    | _ => none

def receipts (inputs : List Input) : List (SockAddr × ℤ) :=
  (receives inputs).filterMap fun input =>
    match input.recvfrom with
    | .failed => none
    | .received source _ => some (source, input.connectionTime)

/-- What one call of `receive` adds to the observations, whatever the state. -/
def observationsOf (input : ReceiveInput) : List Observation :=
  match input.recvfrom with
  | .failed => [.inr (.zero, input.connectionTime)]
  | .received source d =>
    match decode false d.bytes with
    | .error _ => [.inr (source, input.connectionTime)]
    | .ok message =>
      if message.message = [] then
        [.inl ⟨input.arrivalTime, some message, source⟩, .inr (source, input.connectionTime)]
      else [.inr (source, input.connectionTime)]

theorem observationsOf_received {input : ReceiveInput} {source : SockAddr} {d : Datagram}
    (h : input.recvfrom = .received source d) :
    (observationsOf input).filterMap Sum.getRight? = [(source, input.connectionTime)] := by
  rw [observationsOf, h]
  dsimp only
  split
  · rfl
  · split_ifs <;> rfl

theorem Reception.observations_eq {s s' : Server bufferSize} {input : ReceiveInput}
    {events : List Event} (h : Reception s input s' events) :
    observations events = observationsOf input := by
  cases h with
  | failed hinput hadd =>
    rw [observationsOf, hinput]
    rfl
  | rejected what hinput hreject hadd =>
    rw [observationsOf, hinput]
    dsimp only
    split
    · rfl
    · rename_i message hdecode
      rw [if_neg (hreject message hdecode)]
      rfl
  | accepted hinput hdecode hempty hpoll hadd =>
    rw [observationsOf, hinput]
    dsimp only
    rw [hdecode]
    dsimp only
    rw [if_pos hempty]
    rfl

theorem send_observations {s s' : Server bufferSize} {answer : SendtoResult} {events : List Event}
    (h : s.send rule answer = .ok (s', events)) : observations events = [] := by
  apply (send_path h).invariant fun past _ => observations past = []
  · intro past s₁ later s₂ hpast hstep
    rw [observations_append, hpast]
    cases hstep with
    | completed _ _ _ hprinted => rcases hprinted with rfl | rfl <;> rfl
    | _ => rfl
  · rfl

/-- The observations of a run are determined by the answers given to `receive`. -/
theorem run_observations {s s' : Server bufferSize} (hsock : s.SockRegistered)
    {inputs : List Input} {trace : List Event}
    (h : TracedRun.run (step rule) s inputs = .ok (s', trace)) :
    observations trace = (receives inputs).flatMap observationsOf := by
  induction inputs generalizing s trace with
  | nil =>
    cases h
    rfl
  | cons input inputs ih =>
    obtain ⟨s₁, events, later, hstep, hrest, rfl⟩ := TracedRun.run_cons_ok.mp h
    have hsock₁ : s₁.SockRegistered := by
      apply (step_path hsock hstep).preserves _ hsock
      intro s events s' hgood htrans
      exact htrans.sockRegistered hgood
    have hlater := ih hsock₁ hrest
    rw [observations_append, hlater]
    cases input with
    | wait answer =>
      rw [step_wait] at hstep
      cases hstep
      rfl
    | stop =>
      cases hstep
      rfl
    | send answer =>
      rw [send_observations hstep]
      rfl
    | receive input =>
      rw [(receive_reception hsock hstep).observations_eq]
      rfl

theorem registrations_eq_receipts {s s' : Server bufferSize} (hsock : s.SockRegistered)
    {inputs : List Input} {trace : List Event}
    (h : TracedRun.run (step rule) s inputs = .ok (s', trace))
    (hreceived : ∀ input ∈ receives inputs, input.recvfrom ≠ .failed) :
    registrations trace = receipts inputs := by
  rw [registrations, run_observations hsock h, receipts]
  generalize receives inputs = answers at hreceived
  induction answers with
  | nil => rfl
  | cons input rest ih =>
    have hrest := ih fun i hi => hreceived i (List.mem_cons_of_mem _ hi)
    rw [List.flatMap_cons, List.filterMap_append, hrest]
    cases hinput : input.recvfrom with
    | failed => exact absurd hinput (hreceived input List.mem_cons_self)
    | received source d =>
      rw [observationsOf_received hinput]
      simp [hinput]

end SikUdp.Server
