import SikUdp.Runs.Safety

/-!
# Whom the server knows

The addresses the server stores, queues up and sends to are the sources of datagrams
it received, as long as no `recvfrom` fails. A failed call leaves `client_address`
as it was initialized, and `receive` goes on to register it.
-/
namespace SikUdp.Server

variable {bufferSize : ℕ} {rule : EraseRule}

theorem Delivery.unique {s s' : Server bufferSize} {events : List Event}
    (h : Delivery rule s events s') (hs : s.connections.addresses.Nodup) :
    s'.connections.addresses.Nodup := by
  cases h with
  | popped _ _ hget _ => exact hs.sublist (Connections.getClients_traversed hget).kept_sublist
  | idle _ _ _ => exact hs
  | blocked _ _ _ => exact hs
  | completed _ _ _ _ => exact hs

theorem Transition.unique {s s' : Server bufferSize} {events : List Event}
    (h : Transition rule s events s') (hs : s.connections.addresses.Nodup) :
    s'.connections.addresses.Nodup := by
  cases h with
  | wait _ => exact hs
  | stop => exact hs
  | receiveFailed hadd => exact Connections.nodup_addClient hs hadd
  | rejected _ hadd => exact Connections.nodup_addClient hs hadd
  | accepted _ _ _ _ hadd => exact Connections.nodup_addClient hs hadd
  | delivery h => exact h.unique hs

theorem Reachable.unique {s : Server bufferSize} (hs : s.Reachable rule) :
    s.connections.addresses.Nodup := by
  apply hs.invariant
  · intro s hfresh
    simp [hfresh.connections, Connections.empty, Connections.addresses]
  · intro s events s' hunique htrans
    exact htrans.unique hunique

def sources (inputs : List Input) : List SockAddr :=
  inputs.filterMap fun
    | .receive ⟨.received source _, _, _⟩ => some source
    | _ => none

/-- Only these addresses are stored or wait for the current message. -/
structure Knows (known : List SockAddr) (s : Server bufferSize) : Prop where
  stored : ∀ a ∈ s.connections.addresses, a ∈ known
  waiting : ∀ a ∈ s.currentClients, a ∈ known

theorem Knows.mono {known later : List SockAddr} {s : Server bufferSize} (h : s.Knows known) :
    s.Knows (known ++ later) where
  stored := fun a ha => List.mem_append_left _ (h.stored a ha)
  waiting := fun a ha => List.mem_append_left _ (h.waiting a ha)

def Serves (known : List SockAddr) : Event → Prop
  | .popped _ recipients => ∀ a ∈ recipients, a ∈ known
  | .attempted attempt => attempt.address ∈ known
  | _ => True

theorem Delivery.knows {known : List SockAddr} {s s' : Server bufferSize} {events : List Event}
    (h : Delivery rule s events s') (hs : s.Knows known) :
    s'.Knows known ∧ ∀ e ∈ events, Serves known e := by
  cases h with
  | popped _ _ hget _ =>
    have htrav := Connections.getClients_traversed hget
    have hfound : ∀ a ∈ _, a ∈ known := fun a ha => hs.stored a (htrav.found_sublist.subset ha)
    refine ⟨⟨fun a ha => hs.stored a (htrav.kept_sublist.subset ha), hfound⟩, ?_⟩
    intro e he
    rw [List.mem_singleton.mp he]
    exact hfound
  | idle _ _ _ => exact ⟨⟨hs.stored, hs.waiting⟩, by simp⟩
  | blocked hclients _ _ =>
    refine ⟨⟨hs.stored, ?_⟩, ?_⟩
    · intro b hb
      apply hs.waiting
      rw [hclients]
      simpa [or_comm] using hb
    · intro e he
      rw [List.mem_singleton.mp he]
      apply hs.waiting
      simp [hclients]
  | completed hclients _ _ hprinted =>
    refine ⟨⟨hs.stored, ?_⟩, ?_⟩
    · intro b hb
      apply hs.waiting
      simp [hclients, hb]
    · intro e he
      rcases List.mem_cons.mp he with rfl | he
      · apply hs.waiting
        simp [hclients]
      · rcases hprinted with rfl | rfl
        · cases he
        · rw [List.mem_singleton.mp he]
          trivial

theorem send_knows {known : List SockAddr} {s s' : Server bufferSize} {answer : SendtoResult}
    {events : List Event} (hs : s.Knows known) (h : s.send rule answer = .ok (s', events)) :
    s'.Knows known ∧ ∀ e ∈ events, Serves known e := by
  apply (send_path h).invariant fun past s => s.Knows known ∧ ∀ e ∈ past, Serves known e
  · intro past s₁ events s₂ hpast hstep
    obtain ⟨hknows, hserves⟩ := hstep.knows hpast.1
    refine ⟨hknows, fun e he => ?_⟩
    rcases List.mem_append.mp he with he | he
    · exact hpast.2 e he
    · exact hserves e he
  · exact ⟨hs, by simp⟩

/-- The failure changes nothing but the log. -/
structure Untouched (s s' : Server bufferSize) : Prop where
  buffer : s'.buffer = s.buffer
  currentMessage : s'.currentMessage = s.currentMessage
  currentClients : s'.currentClients = s.currentClients
  connections : s'.connections = s.connections
  events : s'.poll.events s'.sock = s.poll.events s.sock

/-- The address 0.0.0.0:0 has a record that ends two minutes after `connectionTime`. -/
def ZeroRecorded (s : Server bufferSize) (connectionTime : ℤ) : Prop :=
  ∃ c ∈ s.connections.clients, c.address = .zero ∧
    ∃ start, c.connections.getLast? = some (start, connectionTime + timeout)

theorem failure_untouched_iff {s s' : Server bufferSize} {events : List Event}
    {arrivalTime connectionTime : ℤ} (hs : s.Reachable rule)
    (h : s.receive ⟨.failed, arrivalTime, connectionTime⟩ = .ok (s', events)) :
    s.Untouched s' ↔ s.ZeroRecorded connectionTime := by
  have hself := Connections.addClient_eq_self_iff hs.unique hs.safe.records .zero connectionTime
  cases receive_reception hs.sockRegistered h with
  | failed hinput hadd =>
    constructor
    · intro huntouched
      have hsame := huntouched.connections
      dsimp only at hsame
      exact hself.mp (hsame ▸ hadd)
    · intro hzero
      have hsame := hadd.symm.trans (hself.mpr hzero)
      exact ⟨rfl, rfl, rfl, Except.ok.inj hsame, rfl⟩
  | rejected what hinput hreject hadd => cases hinput
  | accepted hinput hdecode hempty hpoll hadd => cases hinput

/-- What holds after `past` if only real senders become clients: what is stored and
served then, and that a failed `recvfrom` which comes next leaves the state alone. -/
structure OnlySenders (rule : EraseRule) (past later : List Input) (s : Server bufferSize) :
    Prop where
  knows : s.Knows (sources past)
  serves : ∀ answer s' events, s.send rule answer = .ok (s', events) →
    ∀ e ∈ events, Serves (sources past) e
  untouched : ∀ arrivalTime connectionTime,
    later.head? = some (.receive ⟨.failed, arrivalTime, connectionTime⟩) →
    ∃ s' events, s.receive ⟨.failed, arrivalTime, connectionTime⟩ = .ok (s', events) ∧
      s.Untouched s'

/-- Every failure happens while a record for 0.0.0.0:0 makes the registration void. -/
def FailuresVoid (rule : EraseRule) (s₀ : Server bufferSize) (inputs : List Input) : Prop :=
  ∀ past later s trace arrivalTime connectionTime,
    inputs = past ++ .receive ⟨.failed, arrivalTime, connectionTime⟩ :: later →
    TracedRun.run (step rule) s₀ past = .ok (s, trace) → s.ZeroRecorded connectionTime

/-- If failures change nothing, all that is known are sources of datagrams. -/
theorem run_knows {s₀ : Server bufferSize} (hs₀ : s₀.Constructed) {inputs : List Input}
    (hvoid : FailuresVoid rule s₀ inputs) (past later : List Input)
    (hinputs : inputs = past ++ later) {s : Server bufferSize} {trace : List Event}
    (h : TracedRun.run (step rule) s₀ past = .ok (s, trace)) : s.Knows (sources past) := by
  induction past using List.reverseRecOn generalizing later s trace with
  | nil =>
    cases h
    have hfresh := hs₀.fresh
    exact ⟨by simp [hfresh.connections, Connections.empty, Connections.addresses],
      by simp [hfresh.currentClients]⟩
  | append_singleton past input ih =>
    have hsplit : inputs = past ++ input :: later := by rw [hinputs]; simp
    obtain ⟨s₁, events, last, hpast, hlast, rfl⟩ := TracedRun.run_append_ok.mp h
    have hstep := TracedRun.run_singleton_ok.mp hlast
    have hknows := ih _ hsplit hpast
    have hreach : s₁.Reachable rule := ⟨s₀, events, hs₀, past, hpast⟩
    have hsources : sources (past ++ [input]) = sources past ++ sources [input] :=
      List.filterMap_append
    rw [hsources]
    cases input with
    | wait answer =>
      rw [step_wait] at hstep
      cases hstep
      exact Knows.mono ⟨hknows.stored, hknows.waiting⟩
    | stop =>
      cases hstep
      exact Knows.mono ⟨hknows.stored, hknows.waiting⟩
    | send answer => exact (send_knows hknows hstep).1.mono
    | receive input =>
      obtain ⟨recvfrom, arrivalTime, connectionTime⟩ := input
      cases recvfrom with
      | failed =>
        have hzero := hvoid past later s₁ events arrivalTime connectionTime hsplit hpast
        have huntouched := (failure_untouched_iff hreach hstep).mpr hzero
        constructor
        · rw [huntouched.connections]
          exact hknows.mono.stored
        · rw [huntouched.currentClients]
          exact hknows.mono.waiting
      | received source d =>
        obtain ⟨hadd, hclients⟩ : s₁.connections.addClient source connectionTime =
            .ok s.connections ∧ s.currentClients = s₁.currentClients := by
          cases receive_reception hreach.sockRegistered hstep with
          | failed hinput hadd => cases hinput
          | rejected what hinput hreject hadd =>
            cases hinput
            exact ⟨hadd, rfl⟩
          | accepted hinput hdecode hempty hpoll hadd =>
            cases hinput
            exact ⟨hadd, rfl⟩
        constructor
        · intro a ha
          rcases Connections.mem_addresses_addClient hadd ha with ha | rfl
          · exact hknows.mono.stored a ha
          · exact List.mem_append_right _ (by simp [sources])
        · rw [hclients]
          exact hknows.mono.waiting

/-- Only real senders become clients, and failures change nothing, exactly in the runs
in which every failure is void. -/
theorem onlySenders_iff {s₀ : Server bufferSize} (hs₀ : s₀.Constructed) (inputs : List Input) :
    (∀ past later s trace, inputs = past ++ later →
      TracedRun.run (step rule) s₀ past = .ok (s, trace) → OnlySenders rule past later s) ↔
    FailuresVoid rule s₀ inputs := by
  constructor
  · intro honly past later s trace arrivalTime connectionTime hinputs hpast
    have hreach : s.Reachable rule := ⟨s₀, trace, hs₀, past, hpast⟩
    obtain ⟨s', events, hreceive, huntouched⟩ :=
      (honly past _ s trace hinputs hpast).untouched arrivalTime connectionTime rfl
    exact (failure_untouched_iff hreach hreceive).mp huntouched
  · intro hvoid past later s trace hinputs hpast
    have hknows := run_knows hs₀ hvoid past later hinputs hpast
    have hreach : s.Reachable rule := ⟨s₀, trace, hs₀, past, hpast⟩
    constructor
    · exact hknows
    · intro answer s' events hsend
      exact (send_knows hknows hsend).2
    · intro arrivalTime connectionTime hnext
      obtain ⟨s', events, hreceive⟩ := receive_total hreach.sockRegistered hreach.safe.records
        ⟨.failed, arrivalTime, connectionTime⟩
      refine ⟨s', events, hreceive, (failure_untouched_iff hreach hreceive).mpr ?_⟩
      obtain ⟨rest, rfl⟩ := List.head?_eq_some_iff.mp hnext
      exact hvoid past rest s trace arrivalTime connectionTime hinputs hpast

/-- A datagram that seems to come from 0.0.0.0:0, and a failure in the same second. -/
def failingInputs : List Input :=
  [.receive ⟨.received .zero sampleDatagram, 0, 0⟩, .receive ⟨.failed, 0, 0⟩]

theorem failingInputs_void : FailuresVoid .next sampleServer failingInputs := by
  intro past later s trace arrivalTime connectionTime hinputs hpast
  rcases past with - | ⟨first, - | ⟨second, past⟩⟩
  · cases hinputs
  · cases hinputs
    obtain ⟨s', hreceive, hs'⟩ := sampleServer_holds.receive .zero (by simp) rfl
    cases (TracedRun.run_singleton_ok.mp hpast).symm.trans hreceive
    refine ⟨.new .zero 0, ?_, rfl, 0, rfl⟩
    rw [hs'.connections]
    exact List.mem_singleton_self _
  · simp [failingInputs] at hinputs

theorem onlySenders_iff_sample :
    FailuresVoid .next sampleServer failingInputs ∧
      ∀ past later s trace, failingInputs = past ++ later →
        TracedRun.run (step .next) sampleServer past = .ok (s, trace) →
        OnlySenders .next past later s :=
  ⟨failingInputs_void,
    (onlySenders_iff sampleServer_constructed failingInputs).mpr failingInputs_void⟩

/-- A single failing `recvfrom` registers 0.0.0.0:0. -/
theorem failure_registers_zero :
    ¬ ∀ past later s trace, [Input.receive ⟨.failed, 0, 0⟩] = past ++ later →
      TracedRun.run (step .next) sampleServer past = .ok (s, trace) →
      OnlySenders .next past later s := by
  intro honly
  obtain ⟨s', events, hreceive, huntouched⟩ :=
    (honly [] _ sampleServer [] rfl rfl).untouched 0 0 rfl
  have hreach := sampleServer_constructed.reachable .next
  obtain ⟨c, hc, -⟩ := (failure_untouched_iff hreach hreceive).mp huntouched
  simp [sampleServer, Connections.empty] at hc

end SikUdp.Server
