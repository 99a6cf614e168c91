import SikUdp.Library.DeliveryLog
import SikUdp.Runs.Calls
import SikUdp.Runs.Senders
import SikUdp.Wire.Formats

/-!
# Delivery order

The events of a run tell which messages were accepted, which left the buffer and
which calls of `sendto` did not block. Accepted messages leave the buffer in the
order they came, and the calls that did not block serve the messages taken from
it one after another.
-/
namespace SikUdp.Server

variable {bufferSize : ℕ} {rule : EraseRule}

/-- A message taken from the buffer, with the recipients computed for it. -/
abbrev Job := BufferData × List SockAddr

def acceptedItem : Event → Option BufferData
  | .accepted _ item _ => some item
  | _ => none

def removedItem : Event → Option (BufferData × Option (List SockAddr))
  | .popped item recipients => some (item, some recipients)
  | .accepted _ _ (some old) => some (old, none)
  | _ => none

/-- A call of `sendto` that did not report that it would block. -/
def completedAttempt : Event → Option Attempt
  | .attempted attempt => if attempt.result.wouldBlock then none else some attempt
  | _ => none

def acceptedItems (trace : List Event) : List BufferData := trace.filterMap acceptedItem

def removedItems (trace : List Event) : List (BufferData × Option (List SockAddr)) :=
  trace.filterMap removedItem

def jobs (trace : List Event) : List Job :=
  (removedItems trace).filterMap fun r => r.2.map fun recipients => (r.1, recipients)

def completedAttempts (trace : List Event) : List Attempt := trace.filterMap completedAttempt

/-- The bytes of an attempt are the message of a job with the file content as text. -/
def Carries (fileContent : List UInt8) (job : Job) (attempt : Attempt) : Prop :=
  ∃ message, job.1.message = some message ∧
    attempt.data = Sender.dataOf (message.setMessage fileContent) true

/-- The log of completed attempts for the given jobs and missing recipients. -/
abbrev Log (fileContent : List UInt8) :
    List Job → List Attempt → List SockAddr → Prop :=
  DeliveryLog Prod.snd Attempt.address (Carries fileContent)

/-- What each event is entitled to by those before it. -/
def Justified (rule : EraseRule) (bufferSize : ℕ) (fileContent : List UInt8)
    (past : List Event) : Event → Prop
  | .accepted d item overwritten =>
    (∃ message, item.message = some message ∧ decode false d.bytes = .ok message) ∧
      -- an overwritten item was the oldest one of a full buffer
      ∀ old, overwritten = some old → ∃ rest,
        acceptedItems past = (removedItems past).map Prod.fst ++ old :: rest ∧
          (old :: rest).length = bufferSize
  | .popped item recipients => recipients.Nodup ∧ item.sender ∉ recipients ∧
      -- `get_clients` answered this on the record that the calls so far had left
      ∃ connections answers connections',
        TracedRun.run (Connections.call rule) Connections.empty (callsOf past) =
          .ok (connections, answers) ∧
        connections.getClients rule item.arrivalTime (some item.sender) =
          .ok (connections', recipients)
  | .attempted attempt => ∃ front job, jobs past = front ++ [job] ∧ attempt.address ∈ job.2 ∧
      -- the header of the datagram that was accepted, and the file
      ∃ d overwritten, .accepted d job.1 overwritten ∈ past ∧
        attempt.data = d.bytes.take 9 ++ fileContent ++ [0]
  | _ => True

section Append
variable (past : List Event) (e : Event)

theorem filterMap_concat {α β : Type} (f : α → Option β) (xs : List α) (x : α) :
    (xs ++ [x]).filterMap f = xs.filterMap f ++ (f x).toList := by
  rw [List.filterMap_append]
  cases hx : f x <;> simp [hx]

theorem acceptedItems_concat :
    acceptedItems (past ++ [e]) = acceptedItems past ++ (acceptedItem e).toList :=
  filterMap_concat acceptedItem past e

theorem removedItems_concat :
    removedItems (past ++ [e]) = removedItems past ++ (removedItem e).toList :=
  filterMap_concat removedItem past e

theorem completedAttempts_concat :
    completedAttempts (past ++ [e]) = completedAttempts past ++ (completedAttempt e).toList :=
  filterMap_concat completedAttempt past e

theorem jobs_of_removedItems {past past' : List Event}
    (h : removedItems past' = removedItems past) : jobs past' = jobs past := by
  unfold jobs
  rw [h]

theorem jobs_registered (a : SockAddr) (t : ℤ) : jobs (past ++ [.registered a t]) = jobs past :=
  jobs_of_removedItems ((removedItems_concat past _).trans (List.append_nil _))

theorem jobs_popped (item : BufferData) (recipients : List SockAddr) :
    jobs (past ++ [.popped item recipients]) = jobs past ++ [(item, recipients)] := by
  rw [jobs, removedItems_concat, List.filterMap_append]
  rfl

theorem jobs_accepted (d : Datagram) (item : BufferData) (overwritten : Option BufferData) :
    jobs (past ++ [.accepted d item overwritten]) = jobs past := by
  rw [jobs, removedItems_concat, List.filterMap_append]
  cases overwritten <;> exact List.append_nil _

theorem mem_jobs {past : List Event} {job : Job} :
    job ∈ jobs past ↔ .popped job.1 job.2 ∈ past := by
  unfold jobs removedItems
  rw [List.filterMap_filterMap, List.mem_filterMap]
  constructor
  · rintro ⟨e, he, hjob⟩
    cases e with
    | popped item recipients =>
      cases hjob
      exact he
    | accepted d item overwritten => cases overwritten <;> cases hjob
    | _ => cases hjob
  · exact fun he => ⟨_, he, rfl⟩

end Append

def Quiet : Event → Prop
  | .rejected _ _ => True
  | .receiveFailed => True
  | .registered _ _ => True
  | .sendFailed _ => True
  | _ => False

/-- What was accepted, taken and sent agrees with what is buffered and who waits. -/
structure Balanced (rule : EraseRule) (fileContent : List UInt8) (past : List Event)
    (s : Server bufferSize) : Prop where
  content : s.fileContent = fileContent
  unique : s.connections.addresses.Nodup
  fifo : acceptedItems past = (removedItems past).map Prod.fst ++ s.buffer.toList
  log : Log fileContent (jobs past) (completedAttempts past) s.currentClients
  current : ∀ front job, jobs past = front ++ [job] → ∃ message, job.1.message = some message ∧
    s.currentMessage = some (message.setMessage fileContent)
  justified : TracedRun.Along (Justified rule bufferSize fileContent) [] past

theorem Fresh.balanced {s : Server bufferSize} (h : s.Fresh) :
    s.Balanced rule s.fileContent [] where
  content := rfl
  unique := by simp [h.connections, Connections.empty, Connections.addresses]
  fifo := by rw [h.buffer]; rfl
  log := by rw [h.currentClients]; exact .empty
  current := by simp [jobs, removedItems]
  justified := trivial

namespace Balanced
variable {fileContent : List UInt8} {past : List Event} {s s' : Server bufferSize}

theorem silent (hs : s.Balanced rule fileContent past) (hunique : s'.connections.addresses.Nodup)
    (hcontent : s'.fileContent = s.fileContent) (hbuffer : s'.buffer = s.buffer)
    (hclients : s'.currentClients = s.currentClients)
    (hmessage : s'.currentMessage = s.currentMessage) : s'.Balanced rule fileContent past := by
  constructor
  · rw [hcontent, hs.content]
  · exact hunique
  · rw [hbuffer, hs.fifo]
  · rw [hclients]
    exact hs.log
  · rw [hmessage]
    exact hs.current
  · exact hs.justified

theorem quiet (hs : s.Balanced rule fileContent past) {e : Event} (he : Quiet e) :
    s.Balanced rule fileContent (past ++ [e]) := by
  have haccepted : acceptedItems (past ++ [e]) = acceptedItems past := by
    rw [acceptedItems_concat]
    cases e <;> first | exact he.elim | exact List.append_nil _
  have hremoved : removedItems (past ++ [e]) = removedItems past := by
    rw [removedItems_concat]
    cases e <;> first | exact he.elim | exact List.append_nil _
  have hcompleted : completedAttempts (past ++ [e]) = completedAttempts past := by
    rw [completedAttempts_concat]
    cases e <;> first | exact he.elim | exact List.append_nil _
  have hjobs := jobs_of_removedItems hremoved
  have hjustified : Justified rule bufferSize fileContent past e := by
    cases e <;> first | exact he.elim | trivial
  constructor
  · exact hs.content
  · exact hs.unique
  · rw [haccepted, hremoved, hs.fifo]
  · rw [hjobs, hcompleted]
    exact hs.log
  · rw [hjobs]
    exact hs.current
  · rw [TracedRun.along_append]
    exact ⟨hs.justified, hjustified, trivial⟩

theorem accepted (hs : s.Balanced rule fileContent past) {d : Datagram} {message : Message}
    (arrivalTime : ℤ) (source : SockAddr) (hdecode : decode false d.bytes = .ok message)
    (hunique : s'.connections.addresses.Nodup) (hcontent : s'.fileContent = s.fileContent)
    (hbuffer : s'.buffer = s.buffer.push ⟨arrivalTime, some message, source⟩)
    (hclients : s'.currentClients = s.currentClients)
    (hmessage : s'.currentMessage = s.currentMessage) :
    s'.Balanced rule fileContent (past ++
      [.accepted d ⟨arrivalTime, some message, source⟩ (overwritten s.buffer)]) := by
  generalize hitem : (⟨arrivalTime, some message, source⟩ : BufferData) = item at hbuffer ⊢
  have haccepted : acceptedItems (past ++ [.accepted d item (overwritten s.buffer)]) =
      acceptedItems past ++ [item] := acceptedItems_concat past _
  have hremoved : removedItems (past ++ [.accepted d item (overwritten s.buffer)]) =
      removedItems past ++ (overwritten s.buffer).toList.map fun old => (old, none) := by
    rw [removedItems_concat]
    cases overwritten s.buffer <;> rfl
  have hjobs := jobs_accepted past d item (overwritten s.buffer)
  have hcompleted : completedAttempts (past ++ [.accepted d item (overwritten s.buffer)]) =
      completedAttempts past := (completedAttempts_concat past _).trans (List.append_nil _)
  have hpush : (overwritten s.buffer).toList ++ BoundedFifo.push bufferSize s.buffer.toList item =
      s.buffer.toList ++ [item] := BoundedFifo.dropped_append_push s.buffer.size_pos item
  constructor
  · rw [hcontent, hs.content]
  · exact hunique
  · rw [haccepted, hremoved, hs.fifo, hbuffer, Buffer.toList_push, List.append_assoc, ← hpush]
    simp [Function.comp_def]
  · rw [hjobs, hcompleted, hclients]
    exact hs.log
  · rw [hjobs, hmessage]
    exact hs.current
  · rw [TracedRun.along_append]
    refine ⟨hs.justified, ⟨⟨message, hitem ▸ rfl, hdecode⟩, ?_⟩, trivial⟩
    intro old hold
    obtain ⟨hfull, rest, hrest⟩ := BoundedFifo.dropped_eq_some hold
    exact ⟨rest, by rw [List.nil_append, hs.fifo, hrest], hrest ▸ hfull⟩

theorem popped (hs : s.Balanced rule fileContent past) (hrecorded : s.Recorded rule past)
    {item : BufferData} {message : Message} {recipients : List SockAddr}
    (hidle : s.currentClients = [])
    (hbuffer : s.buffer.toList = item :: s'.buffer.toList)
    (hget : s.connections.getClients rule item.arrivalTime (some item.sender) =
      .ok (s'.connections, recipients))
    (hitem : item.message = some message) (hcontent : s'.fileContent = s.fileContent)
    (hclients : s'.currentClients = recipients)
    (hmessage : s'.currentMessage = some (message.setMessage s.fileContent)) :
    s'.Balanced rule fileContent (past ++ [.popped item recipients]) := by
  have htrav := Connections.getClients_traversed hget
  have haccepted : acceptedItems (past ++ [.popped item recipients]) = acceptedItems past :=
    (acceptedItems_concat past _).trans (List.append_nil _)
  have hremoved : removedItems (past ++ [.popped item recipients]) =
      removedItems past ++ [(item, some recipients)] := removedItems_concat past _
  have hjobs := jobs_popped past item recipients
  have hcompleted : completedAttempts (past ++ [.popped item recipients]) =
      completedAttempts past := (completedAttempts_concat past _).trans (List.append_nil _)
  constructor
  · rw [hcontent, hs.content]
  · exact hs.unique.sublist htrav.kept_sublist
  · rw [haccepted, hremoved, hs.fifo, hbuffer]
    simp
  · rw [hjobs, hcompleted, hclients]
    exact (hidle ▸ hs.log).start (item, recipients)
  · intro front job hfront
    rw [hjobs] at hfront
    obtain ⟨-, hjob⟩ := List.append_inj' hfront rfl
    cases hjob
    exact ⟨message, hitem, by rw [hmessage, hs.content]⟩
  · rw [TracedRun.along_append]
    obtain ⟨answers, hrun⟩ := hrecorded
    refine ⟨hs.justified, ⟨hs.unique.sublist htrav.found_sublist, ?_, _, answers, _, hrun, hget⟩,
      trivial⟩
    intro hsender
    exact htrav.exclude_notMem item.sender hsender rfl

theorem accepted_of_job (hs : s.Balanced rule fileContent past) {job : Job}
    (hjob : job ∈ jobs past) :
    ∃ d overwritten message, .accepted d job.1 overwritten ∈ past ∧
      job.1.message = some message ∧ decode false d.bytes = .ok message := by
  obtain ⟨r, hr, hrjob⟩ := List.mem_filterMap.mp hjob
  obtain ⟨recipients, -, heq⟩ := Option.map_eq_some_iff.mp hrjob
  cases heq
  have hmem : r.1 ∈ acceptedItems past := by
    rw [hs.fifo]
    exact List.mem_append_left _ (List.mem_map_of_mem hr)
  obtain ⟨e, he, hitem⟩ := List.mem_filterMap.mp hmem
  cases e with
  | accepted d item overwritten =>
    cases hitem
    have halong := hs.justified
    obtain ⟨before, after, hsplit⟩ := List.append_of_mem he
    rw [hsplit] at halong
    obtain ⟨⟨message, hmessage, hdecode⟩, -⟩ := halong.split
    exact ⟨d, overwritten, message, he, hmessage, hdecode⟩
  | _ => cases hitem

theorem distinct (hs : s.Balanced rule fileContent past) :
    ∀ job ∈ jobs past, job.2.Nodup ∧ job.1.sender ∉ job.2 := by
  intro job hjob
  obtain ⟨before, after, hsplit⟩ := List.append_of_mem (mem_jobs.mp hjob)
  have halong := hs.justified
  rw [hsplit] at halong
  exact ⟨halong.split.1, halong.split.2.1⟩

theorem attempted (hs : s.Balanced rule fileContent past) {a : SockAddr} {rest : List SockAddr}
    {message : Message} (answer : SendtoResult) (hclients : s.currentClients = a :: rest)
    (hmessage : s.currentMessage = some message) :
    (∀ front job, jobs past = front ++ [job] →
      Carries fileContent job ⟨a, Sender.dataOf message true, answer⟩) ∧
    Justified rule bufferSize fileContent past
      (.attempted ⟨a, Sender.dataOf message true, answer⟩) := by
  have hcarries : ∀ front job, jobs past = front ++ [job] →
      Carries fileContent job ⟨a, Sender.dataOf message true, answer⟩ := by
    intro front job hfront
    obtain ⟨original, horiginal, hcurrent⟩ := hs.current front job hfront
    rw [hmessage] at hcurrent
    cases hcurrent
    exact ⟨original, horiginal, rfl⟩
  obtain ⟨front, job, hfront, hmem⟩ := (hclients ▸ hs.log).last
  have hjob : job ∈ jobs past := by simp [hfront]
  obtain ⟨d, overwritten, original, haccepted, horiginal, hdecode⟩ := hs.accepted_of_job hjob
  refine ⟨hcarries, front, job, hfront, hmem, d, overwritten, haccepted, ?_⟩
  obtain ⟨message', hmessage', hdata⟩ := hcarries front job hfront
  rw [horiginal] at hmessage'
  cases hmessage'
  exact hdata.trans (dataOf_decode hdecode)

/-- The call of `sendto` completes or not; `missing` are the recipients left. -/
theorem concat_attempted (hs : s.Balanced rule fileContent past) {attempt : Attempt}
    {missing : List SockAddr}
    (hjustified : Justified rule bufferSize fileContent past (.attempted attempt))
    (hlog : Log fileContent (jobs past)
      (completedAttempts past ++ (completedAttempt (.attempted attempt)).toList) missing) :
    Balanced rule fileContent (past ++ [.attempted attempt])
      { s with currentClients := missing } := by
  have haccepted : acceptedItems (past ++ [.attempted attempt]) = acceptedItems past :=
    (acceptedItems_concat past _).trans (List.append_nil _)
  have hremoved : removedItems (past ++ [.attempted attempt]) = removedItems past :=
    (removedItems_concat past _).trans (List.append_nil _)
  have hjobs := jobs_of_removedItems hremoved
  constructor
  · exact hs.content
  · exact hs.unique
  · rw [haccepted, hremoved, hs.fifo]
  · rw [hjobs, completedAttempts_concat]
    exact hlog
  · rw [hjobs]
    exact hs.current
  · rw [TracedRun.along_append]
    exact ⟨hs.justified, hjustified, trivial⟩

theorem blocked (hs : s.Balanced rule fileContent past) {a : SockAddr} {rest : List SockAddr}
    {message : Message} {answer : SendtoResult} (hclients : s.currentClients = a :: rest)
    (hmessage : s.currentMessage = some message) (hblock : answer.wouldBlock = true) :
    Balanced rule fileContent (past ++ [.attempted ⟨a, Sender.dataOf message true, answer⟩])
      { s with currentClients := rest ++ [a] } := by
  obtain ⟨-, hjustified⟩ := hs.attempted answer hclients hmessage
  have hperm : (a :: rest).Perm (rest ++ [a]) := (List.perm_append_singleton a rest).symm
  apply hs.concat_attempted hjustified
  simpa [completedAttempt, hblock] using (hclients ▸ hs.log).reorder hperm

theorem completed (hs : s.Balanced rule fileContent past) {a : SockAddr} {rest : List SockAddr}
    {message : Message} {answer : SendtoResult} (hclients : s.currentClients = a :: rest)
    (hmessage : s.currentMessage = some message) (hdone : answer.wouldBlock = false) :
    Balanced rule fileContent (past ++ [.attempted ⟨a, Sender.dataOf message true, answer⟩])
      { s with currentClients := rest } := by
  obtain ⟨hcarries, hjustified⟩ := hs.attempted answer hclients hmessage
  apply hs.concat_attempted hjustified
  simpa [completedAttempt, hdone] using (hclients ▸ hs.log).serve hcarries

end Balanced

theorem Delivery.balanced {fileContent : List UInt8} {past events : List Event}
    {s s' : Server bufferSize} (h : Delivery rule s events s')
    (hs : s.Balanced rule fileContent past) (hrecorded : s.Recorded rule past) :
    s'.Balanced rule fileContent (past ++ events) := by
  cases h with
  | popped hidle hbuffer hget hmessage =>
    exact hs.popped hrecorded hidle hbuffer hget hmessage rfl rfl rfl
  | idle hidle hempty hpoll =>
    rw [List.append_nil]
    exact hs.silent hs.unique rfl rfl rfl rfl
  | blocked hclients hmessage hblock => exact hs.blocked hclients hmessage hblock
  | completed hclients hmessage hdone hprinted =>
    have hcompleted := hs.completed hclients hmessage hdone
    rcases hprinted with rfl | rfl
    · exact hcompleted
    · rw [List.append_cons]
      exact hcompleted.quiet trivial

theorem Transition.balanced {fileContent : List UInt8} {past events : List Event}
    {s s' : Server bufferSize} (h : Transition rule s events s')
    (hs : s.Balanced rule fileContent past) (hrecorded : s.Recorded rule past) :
    s'.Balanced rule fileContent (past ++ events) := by
  have hunique := h.unique hs.unique
  cases h with
  | wait answer =>
    rw [List.append_nil]
    exact hs.silent hunique rfl rfl rfl rfl
  | stop =>
    rw [List.append_nil]
    exact hs.silent hunique rfl rfl rfl rfl
  | receiveFailed hadd =>
    rw [List.append_cons]
    apply Balanced.quiet
    · apply Balanced.quiet
      · exact hs.silent hunique rfl rfl rfl rfl
      · trivial
    · trivial
  | rejected what hadd =>
    rw [List.append_cons]
    apply Balanced.quiet
    · apply Balanced.quiet
      · exact hs.silent hunique rfl rfl rfl rfl
      · trivial
    · trivial
  | accepted arrivalTime hdecode hempty hpoll hadd =>
    rw [List.append_cons]
    exact Balanced.quiet (hs.accepted arrivalTime _ hdecode hunique rfl rfl rfl rfl) trivial
  | delivery h => exact h.balanced hs hrecorded

/-- The history of the server agrees with its state. -/
structure Consistent (rule : EraseRule) (fileContent : List UInt8) (past : List Event)
    (s : Server bufferSize) : Prop extends Balanced rule fileContent past s where
  recorded : s.Recorded rule past

theorem Fresh.consistent {s : Server bufferSize} (h : s.Fresh) :
    s.Consistent rule s.fileContent [] :=
  ⟨h.balanced, h.recorded⟩

theorem Transition.consistent {fileContent : List UInt8} {past events : List Event}
    {s s' : Server bufferSize} (h : Transition rule s events s')
    (hs : s.Consistent rule fileContent past) : s'.Consistent rule fileContent (past ++ events) :=
  ⟨h.balanced hs.toBalanced hs.recorded, h.roster.recorded hs.recorded⟩

theorem run_consistent {s₀ s : Server bufferSize} (hs₀ : s₀.Constructed) {inputs : List Input}
    {trace : List Event} (h : TracedRun.run (step rule) s₀ inputs = .ok (s, trace)) :
    s.Consistent rule s₀.fileContent trace := by
  apply (run_path hs₀ h).invariant fun past s => s.Consistent rule s₀.fileContent past
  · intro past s₁ events s₂ hpast hstep
    exact hstep.consistent hpast
  · exact hs₀.fresh.consistent

/-- Delivery order, no loss and no duplication. The log of completed attempts serves the
messages taken from the buffer one after another, with the waiting clients missing from
the last one. Accepted messages are, in order, those that left the buffer and those
still in it. And every event is justified by those before it: an overwritten message
was the oldest of a full buffer, recipients are distinct and do not include the
sender, and an attempt carries the message it is made for. -/
theorem delivery_exact {s₀ s : Server bufferSize} (hs₀ : s₀.Constructed) {inputs : List Input}
    {trace : List Event} (h : TracedRun.run (step rule) s₀ inputs = .ok (s, trace)) :
    Log s₀.fileContent (jobs trace) (completedAttempts trace) s.currentClients ∧
    acceptedItems trace = (removedItems trace).map Prod.fst ++ s.buffer.toList ∧
    ∀ before e after, trace = before ++ e :: after →
      Justified rule bufferSize s₀.fileContent before e := by
  have hs := run_consistent hs₀ h
  refine ⟨hs.log, hs.fifo, ?_⟩
  intro before e after htrace
  have halong := hs.justified
  rw [htrace] at halong
  exact halong.split

theorem delivery_exact_sample :
    ∃ s, TracedRun.run (step .next) sampleServer sampleInputs = .ok (s, sampleTrace) ∧
      s.currentClients = [⟨10, 2⟩] ∧
      Log [104, 105]
        [(sampleItem ⟨10, 2⟩, [⟨10, 1⟩, ⟨10, 3⟩]), (sampleItem ⟨10, 3⟩, [⟨10, 1⟩, ⟨10, 2⟩])]
        [sampleAttempt ⟨10, 3⟩ ⟨12, .other⟩, sampleAttempt ⟨10, 1⟩ ⟨12, .other⟩,
          sampleAttempt ⟨10, 1⟩ ⟨12, .other⟩] [⟨10, 2⟩] ∧
      acceptedItems sampleTrace = (removedItems sampleTrace).map Prod.fst ∧
      ∀ before e after, sampleTrace = before ++ e :: after →
        Justified .next 2 [104, 105] before e := by
  obtain ⟨s, hrun, hbuffer, hclients⟩ := sampleInputs_run
  obtain ⟨hlog, hfifo, hjustified⟩ := delivery_exact sampleServer_constructed hrun
  rw [hclients] at hlog
  rw [hbuffer, List.append_nil] at hfifo
  exact ⟨s, hrun, hclients, hlog, hfifo, hjustified⟩

end SikUdp.Server
