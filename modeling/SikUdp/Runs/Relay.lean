import SikUdp.Library.Relay
import SikUdp.Runs.Indifference
import SikUdp.Runs.Recipients

/-!
# The server as a relay

What the server is for, without records, intervals, queues of waiting clients or poll
events: every message goes to those others that were, by the time it is taken, heard of as
present at its arrival. As long as the clock is not set back and the traversal goes on behind
an erased record, what can be seen of a run of the server is exactly what can be seen of that
relay.
-/
namespace SikUdp.Server

variable {bufferSize : ℕ} {rule : EraseRule}

/-- What the server does for its clients. -/
def service (bufferSize : ℕ) (fileContent : List UInt8) :
    Relay.Service SockAddr BufferData ℤ (List UInt8) where
  capacity := bufferSize
  valid item := ∃ message, item.message = some message ∧ message.message = []
  source := BufferData.sender
  audience heard item :=
    {a | a ≠ item.sender ∧
      item.arrivalTime ∈ IntervalQueue.windows timeout {t | (a, t) ∈ heard}}
  packet item := (item.message.map fun message =>
    Sender.dataOf (message.setMessage fileContent) true).getD []

abbrev Sight := Relay.Sight SockAddr BufferData ℤ (List UInt8)

abbrev RelayState := Relay.State SockAddr BufferData ℤ

/-- What an event shows of the server: a call of `sendto` that would block shows nothing. -/
def sight : Event → Option Sight
  | .accepted _ item _ => some (.accepted item)
  | .registered a t => some (.heard a t)
  | .attempted attempt =>
    if attempt.result.wouldBlock then none else some (.served attempt.address attempt.data)
  | _ => none

def sights (trace : List Event) : List Sight := trace.filterMap sight

theorem sights_append (before after : List Event) :
    sights (before ++ after) = sights before ++ sights after := List.filterMap_append

/-- The state of the relay that has seen the same. -/
structure Matches (fileContent : List UInt8) (past : List Event) (s : Server bufferSize)
    (r : RelayState) : Prop where
  heard : r.heard = {u | u ∈ registrations past}
  queue : r.queue = s.buffer.toList
  waiting : r.waiting = {a | a ∈ s.currentClients}
  distinct : s.currentClients.Nodup
  current : s.currentClients ≠ [] → ∃ item message, r.current = some item ∧
    item.message = some message ∧ s.currentMessage = some (message.setMessage fileContent)

namespace Matches
variable {fileContent : List UInt8} {past events : List Event} {s s' : Server bufferSize}
  {r : RelayState}

theorem empty (h : s.Fresh) : s.Matches fileContent [] .empty where
  heard := by simp [Relay.State.empty, registrations, observations]
  queue := h.buffer.symm
  waiting := by simp [Relay.State.empty, h.currentClients]
  distinct := by simp [h.currentClients]
  current := fun hclients => absurd h.currentClients hclients

theorem idle_iff (h : s.Matches fileContent past r) : r.waiting = ∅ ↔ s.currentClients = [] := by
  rw [h.waiting, Set.eq_empty_iff_forall_notMem, List.eq_nil_iff_forall_not_mem]
  rfl

theorem kept (h : s.Matches fileContent past r) {heard : Set (SockAddr × ℤ)}
    {queue : List BufferData} (hheard : heard = {u | u ∈ registrations (past ++ events)})
    (hqueue : queue = s'.buffer.toList) (hclients : s'.currentClients = s.currentClients)
    (hmessage : s'.currentMessage = s.currentMessage) :
    s'.Matches fileContent (past ++ events) { r with heard, queue } := by
  refine ⟨hheard, hqueue, ?_, ?_, ?_⟩
  · rw [hclients]
    exact h.waiting
  · rw [hclients]
    exact h.distinct
  · rw [hclients, hmessage]
    exact h.current

theorem silent (h : s.Matches fileContent past r) (hregistrations : registrations events = [])
    (hbuffer : s'.buffer = s.buffer) (hclients : s'.currentClients = s.currentClients)
    (hmessage : s'.currentMessage = s.currentMessage) :
    s'.Matches fileContent (past ++ events) r := by
  refine h.kept ?_ (by rw [hbuffer, h.queue]) hclients hmessage
  rw [registrations_append, hregistrations, List.append_nil]
  exact h.heard

theorem hear (h : s.Matches fileContent past r) {a : SockAddr} {t : ℤ}
    (hregistrations : registrations events = [(a, t)])
    (hbuffer : s'.buffer = s.buffer) (hclients : s'.currentClients = s.currentClients)
    (hmessage : s'.currentMessage = s.currentMessage) :
    s'.Matches fileContent (past ++ events) { r with heard := insert (a, t) r.heard } := by
  refine h.kept ?_ (by rw [hbuffer, h.queue]) hclients hmessage
  rw [registrations_append, hregistrations, h.heard]
  ext u
  simp [or_comm]

theorem accept (h : s.Matches fileContent past r) {item : BufferData} {t : ℤ}
    (hregistrations : registrations events = [(item.sender, t)])
    (hbuffer : s'.buffer = s.buffer.push item) (hclients : s'.currentClients = s.currentClients)
    (hmessage : s'.currentMessage = s.currentMessage) :
    s'.Matches fileContent (past ++ events)
      { r with
        heard := insert ((service bufferSize fileContent).source item, t) r.heard
        queue := BoundedFifo.push (service bufferSize fileContent).capacity r.queue item } := by
  refine h.kept ?_ ?_ hclients hmessage
  · rw [registrations_append, hregistrations, h.heard]
    ext u
    simp [service, or_comm]
  · rw [hbuffer, Buffer.toList_push, h.queue]
    rfl

/-- The recipients computed for the oldest message are those the relay would serve. -/
theorem audience_eq (h : s.Matches fileContent past r) (hrule : rule.GoesOn)
    (hs : s.Consistent rule fileContent past) (hsteady : Steady past) (hfaithful : s.Faithful past)
    {item : BufferData} {rest : List BufferData} (hbuffer : s.buffer.toList = item :: rest)
    {connections : Connections} {recipients : List SockAddr}
    (hget : s.connections.getClients rule item.arrivalTime (some item.sender) =
      .ok (connections, recipients)) :
    (service bufferSize fileContent).audience r.heard item = {a | a ∈ recipients} := by
  have hanswer := (hfaithful.represents.getClients hrule
    (Faithful.queried_le hs hsteady hbuffer) hget).2
  ext a
  simp only [Set.mem_ofPred_eq, hanswer, service, h.heard]
  simp [present, eq_comm]

theorem take (h : s.Matches fileContent past r) {item : BufferData} {message : Message}
    {recipients : List SockAddr} (hregistrations : registrations events = [])
    (hrecipients : (service bufferSize fileContent).audience r.heard item =
      {a | a ∈ recipients}) (hdistinct : recipients.Nodup)
    (hitem : item.message = some message) (hclients : s'.currentClients = recipients)
    (hmessage : s'.currentMessage = some (message.setMessage fileContent)) :
    s'.Matches fileContent (past ++ events)
      { r with
        queue := s'.buffer.toList, current := some item
        waiting := (service bufferSize fileContent).audience r.heard item } := by
  constructor
  · rw [registrations_append, hregistrations, List.append_nil]
    exact h.heard
  · rfl
  · rw [hclients]
    exact hrecipients
  · rw [hclients]
    exact hdistinct
  · exact fun _ => ⟨item, message, rfl, hitem, hmessage⟩

end Matches

theorem prepareSendData_sights {s s₁ : Server bufferSize} {popped : List Event}
    (h : s.prepareSendData rule = .ok (s₁, popped)) :
    sights popped = [] ∧ registrations popped = [] := by
  have hpopped := prepareSendData_popped h
  constructor
  · rw [sights, List.filterMap_eq_nil_iff]
    intro e he
    obtain ⟨item, recipients, rfl⟩ := hpopped e he
    rfl
  · have hobservations : observations popped = [] := by
      rw [observations, List.filterMap_eq_nil_iff]
      intro e he
      obtain ⟨item, recipients, rfl⟩ := hpopped e he
      rfl
    rw [registrations, hobservations]
    rfl

/-- With nobody waiting the loop that looks for recipients settles the relay. -/
theorem Matches.settles {fileContent : List UInt8} {past popped : List Event}
    {s s₁ : Server bufferSize} {r : RelayState} (hrule : rule.GoesOn)
    (hs : s.Consistent rule fileContent past) (hsteady : Steady past) (hfaithful : s.Faithful past)
    (hm : s.Matches fileContent past r) (hidle : s.currentClients = [])
    (h : s.prepareSendData rule = .ok (s₁, popped)) :
    s₁.Matches fileContent (past ++ popped) (r.settle (service bufferSize fileContent)) := by
  induction hsize : s.buffer.size using Nat.strong_induction_on
    generalizing s r past popped with
  | _ size ih =>
    rw [prepareSendData] at h
    split_ifs at h with hguard
    · split at h
      · cases h
      · rename_i s₂ e hone
        obtain ⟨⟨s₃, later⟩, hrest, heq⟩ := TracedRun.map_ok_iff.mp h
        obtain ⟨rfl, rfl⟩ := Prod.mk.inj heq
        have hless := prepareOne_size hone
        obtain ⟨item, message, recipients, connections, buffer, hbuffer, hget, hmessage, rfl,
          rfl⟩ := prepareOne_cases hone
        have hqueue : r.queue = item :: buffer.toList := hm.queue.trans hbuffer
        have haudience := hm.audience_eq hrule hs hsteady hfaithful hbuffer hget
        have hpop : Delivery rule s [.popped item recipients] _ :=
          .popped hidle hbuffer hget hmessage
        have hdistinct : recipients.Nodup :=
          hs.unique.sublist (Connections.getClients_traversed hget).found_sublist
        by_cases hnobody : recipients = []
        · have hempty : (service bufferSize fileContent).audience r.heard item = ∅ := by
            rw [haudience, hnobody]
            simp
          have hsteady' : Steady (past ++ [.popped item recipients]) := by
            unfold Steady
            rw [readings_append]
            exact (List.append_nil _).symm ▸ hsteady
          rw [Relay.State.settle_skip hqueue hempty, List.append_cons]
          refine ih _ (hsize ▸ hless) ((Transition.delivery hpop).consistent hs) hsteady'
            (hpop.faithful hrule hs hsteady hfaithful) ⟨?_, rfl, ?_, hdistinct, ?_⟩ hnobody hrest
            rfl
          · rw [registrations_append, hm.heard]
            simp [registrations, observations, observe]
          · rw [hm.waiting, hidle, hnobody]
          · exact fun hclients => absurd hnobody hclients
        · rw [prepareSendData_busy hnobody] at hrest
          obtain ⟨rfl, rfl⟩ := Prod.mk.inj (Except.ok.inj hrest)
          have hsomebody : (service bufferSize fileContent).audience r.heard item ≠ ∅ := by
            rw [haudience]
            exact (Set.nonempty_iff_ne_empty.mp
              (List.exists_mem_of_ne_nil recipients hnobody))
          rw [Relay.State.settle_found hqueue hsomebody]
          exact hm.take rfl haudience hdistinct hmessage rfl (by rw [hs.content])
    · obtain ⟨rfl, rfl⟩ := Prod.mk.inj (Except.ok.inj h)
      have hbuffer : s.buffer.toList = [] := by
        by_contra hne
        exact hguard ⟨by simp [hidle], (Buffer.size_pos_iff _).mpr hne⟩
      rw [Relay.State.settle_of_empty (hm.queue.trans hbuffer), List.append_nil]
      exact hm

theorem attempted_sights (s : Server bufferSize) (a : SockAddr) (data : List UInt8)
    (answer : SendtoResult) :
    sights (.attempted ⟨a, data, answer⟩ :: s.complaint data.length answer) =
        (if answer.wouldBlock then [] else [.served a data]) ∧
      registrations (.attempted ⟨a, data, answer⟩ :: s.complaint data.length answer) = [] := by
  have hcomplaint : sights (s.complaint data.length answer) = [] ∧
      registrations (s.complaint data.length answer) = [] := by
    unfold complaint
    split_ifs <;> exact ⟨rfl, rfl⟩
  refine ⟨?_, hcomplaint.2⟩
  rw [← List.singleton_append, sights_append, hcomplaint.1, List.append_nil]
  cases hblock : answer.wouldBlock <;> simp [sights, sight, hblock]

namespace Matches
variable {fileContent : List UInt8} {past events : List Event} {s s' : Server bufferSize}
  {r : RelayState}

/-- The relay does not know in which order clients wait. -/
theorem reordered (h : s.Matches fileContent past r) {clients : List SockAddr}
    (hperm : clients.Perm s.currentClients) (hregistrations : registrations events = []) :
    Matches fileContent (past ++ events) { s with currentClients := clients } r := by
  constructor
  · rw [registrations_append, hregistrations, List.append_nil]
    exact h.heard
  · exact h.queue
  · rw [h.waiting]
    ext b
    exact hperm.mem_iff.symm
  · exact hperm.nodup_iff.mpr h.distinct
  · intro hclients
    exact h.current fun hnil => hclients (List.perm_nil.mp (hnil ▸ hperm))

theorem served (h : s.Matches fileContent past r) {a : SockAddr} {rest : List SockAddr}
    (hclients : s.currentClients = a :: rest) (hregistrations : registrations events = []) :
    Matches fileContent (past ++ events) { s with currentClients := rest }
      { r with waiting := r.waiting \ {a} } := by
  have hdistinct := h.distinct
  rw [hclients] at hdistinct
  obtain ⟨hfresh, hrest⟩ := List.nodup_cons.mp hdistinct
  constructor
  · rw [registrations_append, hregistrations, List.append_nil]
    exact h.heard
  · exact h.queue
  · rw [h.waiting, hclients]
    ext b
    simp only [Set.mem_sdiff, Set.mem_ofPred_eq, List.mem_cons, Set.mem_singleton_iff]
    constructor
    · rintro ⟨rfl | hb, hne⟩
      · exact absurd rfl hne
      · exact hb
    · intro hb
      exact ⟨Or.inr hb, fun heq => hfresh (heq ▸ hb)⟩
  · exact hrest
  · exact fun _ => h.current (by simp [hclients])

theorem packet_eq (h : s.Matches fileContent past r) {a : SockAddr} {rest : List SockAddr}
    {message : Message} (hclients : s.currentClients = a :: rest)
    (hmessage : s.currentMessage = some message) :
    ∃ item, r.current = some item ∧
      (service bufferSize fileContent).packet item = Sender.dataOf message true := by
  obtain ⟨item, message', hcurrent, hitem, hmessage'⟩ := h.current (by simp [hclients])
  obtain rfl := Option.some.inj (hmessage.symm.trans hmessage')
  exact ⟨item, hcurrent, by simp [service, hitem]⟩

theorem prepares (h : s.Matches fileContent past r) (hrule : rule.GoesOn)
    (hs : s.Consistent rule fileContent past) (hsteady : Steady past) (hfaithful : s.Faithful past)
    {s₁ : Server bufferSize} {popped : List Event}
    (hprepare : s.prepareSendData rule = .ok (s₁, popped)) :
    ∃ r₁, TracedRun.Path (Relay.Step (service bufferSize fileContent)) r [] r₁ ∧
      s₁.Matches fileContent (past ++ popped) r₁ := by
  by_cases hidle : s.currentClients = []
  · exact ⟨_, .single (.settle (h.idle_iff.mpr hidle)),
      h.settles hrule hs hsteady hfaithful hidle hprepare⟩
  · rw [prepareSendData_busy hidle] at hprepare
    obtain ⟨rfl, rfl⟩ := Prod.mk.inj (Except.ok.inj hprepare)
    exact ⟨r, .nil r, by rwa [List.append_nil]⟩

theorem send (h : s.Matches fileContent past r) (hrule : rule.GoesOn)
    (hs : s.Consistent rule fileContent past) (hsteady : Steady past) (hfaithful : s.Faithful past)
    {answer : SendtoResult} (hsend : s.send rule answer = .ok (s', events)) :
    ∃ r', TracedRun.Path (Relay.Step (service bufferSize fileContent)) r (sights events) r' ∧
      s'.Matches fileContent (past ++ events) r' := by
  obtain ⟨s₁, popped, hprepare, hcases⟩ := send_cases hsend
  obtain ⟨r₁, hpath, hm⟩ := h.prepares hrule hs hsteady hfaithful hprepare
  have hpopped := (prepareSendData_sights hprepare).1
  rcases hcases with ⟨poll, -, -, rfl, rfl⟩ | ⟨a, rest, message, hclients, hmessage, rfl, rfl⟩
  · exact ⟨r₁, hpopped ▸ hpath, hm.heard, hm.queue, hm.waiting, hm.distinct, hm.current⟩
  · obtain ⟨hsights, hregistrations⟩ :=
      s₁.attempted_sights a (Sender.dataOf message true) answer
    rw [sights_append, hpopped, hsights, ← List.append_assoc]
    cases hblock : answer.wouldBlock with
    | true =>
      have hperm : (rest ++ [a]).Perm s₁.currentClients := by
        rw [hclients]
        exact List.perm_append_singleton a rest
      exact ⟨r₁, hpath, hm.reordered hperm hregistrations⟩
    | false =>
      obtain ⟨item, hcurrent, hpacket⟩ := hm.packet_eq hclients hmessage
      have hwaits : a ∈ r₁.waiting := by
        rw [hm.waiting, hclients]
        exact List.mem_cons_self
      have hserve := hpath.snoc (.serve hcurrent hwaits)
      rw [hpacket] at hserve
      exact ⟨_, hserve, hm.served hclients hregistrations⟩

theorem receive (h : s.Matches fileContent past r) {input : ReceiveInput}
    (hreceive : Reception s input s' events) :
    ∃ r', TracedRun.Path (Relay.Step (service bufferSize fileContent)) r (sights events) r' ∧
      s'.Matches fileContent (past ++ events) r' := by
  cases hreceive with
  | failed hinput hadd => exact ⟨_, .single (.hear r _ _), h.hear rfl rfl rfl rfl⟩
  | rejected what hinput hreject hadd =>
    exact ⟨_, .single (.hear r _ _), h.hear rfl rfl rfl rfl⟩
  | @accepted receiver poll connections source d message hinput hdecode hempty hpoll hadd =>
    have hvalid : (service bufferSize fileContent).valid
        ⟨input.arrivalTime, some message, source⟩ := ⟨message, rfl, hempty⟩
    exact ⟨_, .single (.accept r input.connectionTime hvalid), h.accept rfl rfl rfl rfl⟩

theorem step (h : s.Matches fileContent past r) (hrule : rule.GoesOn) (hsock : s.SockRegistered)
    (hs : s.Consistent rule fileContent past) (hsteady : Steady past) (hfaithful : s.Faithful past)
    {input : Input} (hstep : s.step rule input = .ok (s', events)) :
    ∃ r', TracedRun.Path (Relay.Step (service bufferSize fileContent)) r (sights events) r' ∧
      s'.Matches fileContent (past ++ events) r' := by
  cases input with
  | wait answer =>
    rw [step_wait] at hstep
    obtain ⟨rfl, rfl⟩ := Prod.mk.inj (Except.ok.inj hstep)
    exact ⟨r, .nil r, h.silent rfl rfl rfl rfl⟩
  | receive input => exact h.receive (receive_reception hsock hstep)
  | send answer => exact h.send hrule hs hsteady hfaithful hstep
  | stop =>
    obtain ⟨rfl, rfl⟩ := Prod.mk.inj (Except.ok.inj hstep)
    exact ⟨r, .nil r, h.silent rfl rfl rfl rfl⟩

end Matches

theorem send_shows (rule : EraseRule) {s : Server bufferSize} {a : SockAddr} {rest : List SockAddr}
    {message : Message} (hclients : s.currentClients = a :: rest)
    (hmessage : s.currentMessage = some message) (answer : SendtoResult) :
    ∃ events, s.step rule (.send answer) =
        .ok ({ s with currentClients := if answer.wouldBlock then rest ++ [a] else rest }, events) ∧
      sights events =
        (if answer.wouldBlock then [] else [.served a (Sender.dataOf message true)]) ∧
      registrations events = [] :=
  ⟨_, send_eq_turn (prepareSendData_busy (by simp [hclients])) hclients hmessage answer,
    s.attempted_sights a (Sender.dataOf message true) answer⟩

/-- Calls of `send` that would block bring any waiting client to the front. -/
theorem run_blocked (rule : EraseRule) {s : Server bufferSize} {front behind : List SockAddr}
    {message : Message} (hclients : s.currentClients = front ++ behind)
    (hmessage : s.currentMessage = some message) :
    ∃ trace, TracedRun.run (step rule) s (front.map fun _ => .send ⟨-1, .wouldBlock⟩) =
        .ok ({ s with currentClients := behind ++ front }, trace) ∧
      sights trace = [] ∧ registrations trace = [] := by
  induction front generalizing s behind with
  | nil =>
    refine ⟨[], ?_, rfl, rfl⟩
    rw [List.append_nil, ← List.nil_append behind, ← hclients]
    rfl
  | cons a front ih =>
    obtain ⟨events, hsend, hsights, hregistrations⟩ :=
      send_shows rule hclients hmessage ⟨-1, .wouldBlock⟩
    obtain ⟨later, hrun, hsights', hregistrations'⟩ :=
      @ih { s with currentClients := front ++ (behind ++ [a]) } (behind ++ [a]) rfl hmessage
    refine ⟨events ++ later, TracedRun.run_cons_ok.mpr ⟨_, _, _, hsend, ?_, rfl⟩, ?_, ?_⟩
    · rw [List.append_assoc behind, List.singleton_append, ← List.append_assoc front] at hrun
      exact hrun
    · rw [sights_append, hsights, hsights']
      rfl
    · rw [registrations_append, hregistrations, hregistrations', List.append_nil]

/-- Calls of `receive` and `send` can show what is seen of a step of the relay and lead to a
state that matches what it leads to. -/
def CanShow (rule : EraseRule) (fileContent : List UInt8) (past : List Event)
    (s : Server bufferSize) (seen : List Sight) (r : RelayState) : Prop :=
  ∃ inputs s' events, (∀ input ∈ inputs, IsHandler input) ∧
    TracedRun.run (step rule) s inputs = .ok (s', events) ∧ sights events = seen ∧
    s'.Matches fileContent (past ++ events) r

theorem CanShow.single {fileContent : List UInt8} {past events : List Event}
    {s s' : Server bufferSize} {seen : List Sight} {r : RelayState} {input : Input}
    (hinput : IsHandler input) (hstep : s.step rule input = .ok (s', events))
    (hshown : sights events = seen ∧ s'.Matches fileContent (past ++ events) r) :
    s.CanShow rule fileContent past seen r :=
  ⟨[input], s', events, by simpa using hinput, TracedRun.run_singleton_ok.mpr hstep, hshown⟩

namespace Matches
variable {fileContent : List UInt8} {past : List Event} {s : Server bufferSize} {r : RelayState}

theorem accepts (h : s.Matches fileContent past r) (hs : s.Reachable rule) {item : BufferData}
    (hvalid : (service bufferSize fileContent).valid item) (t : ℤ) :
    s.CanShow rule fileContent past
      [.accepted item, .heard ((service bufferSize fileContent).source item) t]
      { r with
        heard := insert ((service bufferSize fileContent).source item, t) r.heard
        queue := BoundedFifo.push (service bufferSize fileContent).capacity r.queue item } := by
  obtain ⟨arrivalTime, message, sender⟩ := item
  obtain ⟨message, rfl, hempty⟩ := hvalid
  have hdata := decode_dataOf_empty hempty
  have hlength : (Sender.dataOf message false).length ≤ packetSize - 1 := by
    rw [length_dataOf, hempty]
    decide
  let input : ReceiveInput := ⟨.received sender ⟨_, hlength⟩, arrivalTime, t⟩
  obtain ⟨s', events, hreceive⟩ := receive_total hs.sockRegistered hs.safe.records input
  apply CanShow.single (.receive input) hreceive
  cases receive_reception hs.sockRegistered hreceive with
  | failed hinput hadd => cases hinput
  | rejected what hinput hreject hadd =>
    cases hinput
    exact absurd hempty (hreject message hdata)
  | accepted hinput hdecode hempty' hpoll hadd =>
    cases hinput
    obtain rfl := Except.ok.inj (hdata.symm.trans hdecode)
    exact ⟨rfl, h.accept rfl rfl rfl rfl⟩

/-- Any waiting client can be the next to be served. -/
theorem serves (h : s.Matches fileContent past r) {a : SockAddr} {item : BufferData}
    (hcurrent : r.current = some item) (ha : a ∈ r.waiting) :
    s.CanShow rule fileContent past
      [.served a ((service bufferSize fileContent).packet item)]
      { r with waiting := r.waiting \ {a} } := by
  rw [h.waiting] at ha
  obtain ⟨front, behind, hclients⟩ := List.append_of_mem ha
  obtain ⟨item', message, hitem', hmessage, hcarried⟩ := h.current (List.ne_nil_of_mem ha)
  obtain rfl := Option.some.inj (hcurrent.symm.trans hitem')
  obtain ⟨before, hrun, hsights, hregistrations⟩ := run_blocked rule hclients hcarried
  have hperm : (a :: behind ++ front).Perm s.currentClients := by
    rw [hclients]
    exact List.perm_append_comm
  have hm := h.reordered hperm hregistrations
  obtain ⟨events, hsend, hshown, hregistrations'⟩ :=
    send_shows rule (s := { s with currentClients := a :: behind ++ front }) rfl hcarried
      ⟨0, .other⟩
  refine ⟨front.map (fun _ => .send ⟨-1, .wouldBlock⟩) ++ [.send ⟨0, .other⟩], _, before ++ events,
    ?_, TracedRun.run_append_ok.mpr ⟨_, before, events, hrun, TracedRun.run_singleton_ok.mpr hsend,
      rfl⟩, ?_, ?_⟩
  · intro input hinput
    rcases List.mem_append.mp hinput with hblocked | hlast
    · obtain ⟨b, -, rfl⟩ := List.mem_map.mp hblocked
      exact .send _
    · rw [List.mem_singleton.mp hlast]
      exact .send _
  · rw [sights_append, hsights, hshown]
    simp [SendtoResult.wouldBlock, service, hmessage]
  · rw [← List.append_assoc]
    exact hm.served rfl hregistrations'

end Matches

end SikUdp.Server
