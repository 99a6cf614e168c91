import SikUdp.Program.System

/-!
# The poll set

An array of `pollfd` structures, free ones with descriptor `-1`. Lookup scans
the whole array; `poll` is called on the first `clientsLength` elements.
-/
namespace SikUdp

structure PollFd where
  fd : ℤ
  events : EventMask
  revents : EventMask
  deriving DecidableEq, Repr

/-- The default state of an element, set by `reset_client`. -/
def PollFd.reset : PollFd := ⟨-1, 0, 0⟩

structure Poll (maxClients : ℕ) where
  clients : Vector PollFd maxClients
  clientsLength : ℕ

namespace Poll

variable {maxClients : ℕ}

def empty : Poll maxClients := ⟨Vector.replicate maxClients .reset, 0⟩

variable (p : Poll maxClients)

/-- The slot with an index inside the array. -/
abbrev client (i : Fin maxClients) : PollFd := p.clients[i]

def getIndex (fd : ℤ) : Except Abort (Fin maxClients) :=
  match (List.finRange maxClients).find? (fun i => p.clients[i].fd = fd) with
  | some i => .ok i
  | none => .error (.throws (.outOfRange "fd not in poll"))

/-- `operator[]` returns a reference, here the index it refers to. -/
def access (fd : ℤ) : Except Abort (Fin maxClients) :=
  if fd < 0 then .error (.throws (.invalidArgument "fd must be a positive integer"))
  else p.getIndex fd

/-- `(*poll)[fd].events = events`. -/
def setEvents (fd : ℤ) (events : EventMask) : Except Abort (Poll maxClients) := do
  let i ← p.access fd
  .ok { p with clients := p.clients.set i { p.clients[i] with events } }

def revents (fd : ℤ) : Except Abort EventMask := do
  let i ← p.access fd
  .ok p.clients[i].revents

def events (fd : ℤ) : Option EventMask :=
  match p.access fd with
  | .ok i => some p.clients[i].events
  | .error _ => none

def addDescriptor (fd : ℤ) (events : EventMask) : Except Abort (Poll maxClients) :=
  if fd < 0 then .error (.throws (.invalidArgument "fd must be a positive integer"))
  else
    match p.getIndex fd with
    | .ok _ => .error (.throws (.pollException "fd already in the poll"))
    | .error _ =>
      match p.getIndex (-1) with
      | .ok i =>
        .ok { clients := p.clients.set i { p.clients[i] with fd, events }
              clientsLength := p.clientsLength + 1 }
      | .error _ => .error (.throws (.overflowError "limit exceeded"))

/-- Move the slot behind the first `clientsLength` into the freed one. -/
def compact (index : Fin maxClients) (h : p.clientsLength < maxClients) : Poll maxClients where
  clients := (p.clients.set index p.clients[p.clientsLength]).set p.clientsLength .reset
  clientsLength := p.clientsLength - 1

theorem client_compact (index : Fin maxClients) (h : p.clientsLength < maxClients)
    (j : Fin maxClients) :
    (p.compact index h).client j =
      if p.clientsLength = j then .reset
      else if (index : ℕ) = j then p.clients[p.clientsLength] else p.client j := by
  simp only [client, compact, Fin.getElem_fin, Vector.getElem_set]

/-- In a full set the slot behind the used ones is behind the array. -/
def removeDescriptor (fd : ℤ) : Except Abort (Poll maxClients) :=
  if fd < 0 then .error (.throws (.invalidArgument "fd must be a positive integer"))
  else do
    let index ← p.getIndex fd
    if h : p.clientsLength < maxClients then .ok (p.compact index h) else .error .undefined

/-- The elements passed to `poll`, which are those from `begin()` to `end()`. -/
def polled : List PollFd := p.clients.toList.take p.clientsLength

/-- A range based loop that has come to `position`; `end()` is `clientsLength` elements
behind the start of the array. -/
def loop (position : ℕ) : Except Abort (List PollFd) :=
  if position ≠ p.clientsLength then
    if h : position < maxClients then (loop (position + 1)).map (p.clients[position] :: ·)
    else .error .undefined
  else .ok []
termination_by maxClients - position

/-- The array after `poll` returned: every `revents` is cleared before the call,
and the elements passed to it hold what it stored. -/
def wait (answer : PollResult maxClients) : Poll maxClients × Except Abort Unit :=
  let cleared := p.clients.map fun c => { c with revents := 0 }
  let polled := Vector.ofFn fun i : Fin maxClients =>
    if i < p.clientsLength then { cleared[i] with revents := answer.revents i } else cleared[i]
  ({ p with clients := polled },
    if answer.result = 0 then .error (.throws .pollTimeoutException)
    else if answer.result < 0 then .error (.throws (.runtimeError "Error when calling poll"))
    else .ok ())

theorem getIndex_cases (fd : ℤ) :
    (∃ i, p.getIndex fd = .ok i ∧ (p.client i).fd = fd ∧ ∀ j < i, (p.client j).fd ≠ fd) ∨
    (p.getIndex fd = .error (.throws (.outOfRange "fd not in poll")) ∧
      ∀ i : Fin maxClients, (p.client i).fd ≠ fd) := by
  unfold getIndex
  split
  · rename_i i hfind
    obtain ⟨hfd, k, hk, hki, hfirst⟩ := List.find?_eq_some_iff_getElem.mp hfind
    subst hki
    refine Or.inl ⟨_, rfl, by simpa using hfd, ?_⟩
    intro j hj
    have hjk : (j : ℕ) < k := by simpa [Fin.lt_def] using hj
    simpa using hfirst j hjk
  · rename_i hfind
    refine Or.inr ⟨rfl, fun i => ?_⟩
    simpa using List.find?_eq_none.mp hfind i (List.mem_finRange i)

/-- Adding throws and changes nothing, or fills the first free slot. -/
theorem addDescriptor_cases (fd : ℤ) (events : EventMask) :
    (∃ e, p.addDescriptor fd events = .error (.throws e)) ∨
    (∃ i : Fin maxClients, 0 ≤ fd ∧ (∀ j : Fin maxClients, (p.client j).fd ≠ fd) ∧
      (p.client i).fd = -1 ∧ (∀ j < i, (p.client j).fd ≠ -1) ∧
      p.addDescriptor fd events = .ok
        { clients := p.clients.set i { p.client i with fd, events }
          clientsLength := p.clientsLength + 1 }) := by
  unfold addDescriptor
  split_ifs with hneg
  · exact Or.inl ⟨_, rfl⟩
  · rcases p.getIndex_cases fd with ⟨i, hi, -⟩ | ⟨hnone, hnew⟩
    · rw [hi]
      exact Or.inl ⟨_, rfl⟩
    · rw [hnone]
      rcases p.getIndex_cases (-1) with ⟨i, hi, hfree, hfirst⟩ | ⟨hfull, -⟩
      · rw [hi]
        exact Or.inr ⟨i, not_lt.mp hneg, hnew, hfree, hfirst, rfl⟩
      · rw [hfull]
        exact Or.inl ⟨_, rfl⟩

/-- Removing throws and changes nothing, or moves a slot, or leaves the array. -/
theorem removeDescriptor_cases (fd : ℤ) :
    ((fd < 0 ∨ ∀ i : Fin maxClients, (p.client i).fd ≠ fd) ∧
      ∃ e, p.removeDescriptor fd = .error (.throws e)) ∨
    (∃ i : Fin maxClients, 0 ≤ fd ∧ (p.client i).fd = fd ∧
      ((maxClients ≤ p.clientsLength ∧ p.removeDescriptor fd = .error .undefined) ∨
        ∃ h : p.clientsLength < maxClients, p.removeDescriptor fd = .ok (p.compact i h))) := by
  unfold removeDescriptor
  by_cases hneg : fd < 0
  · rw [if_pos hneg]
    exact Or.inl ⟨Or.inl hneg, _, rfl⟩
  · rw [if_neg hneg]
    rcases p.getIndex_cases fd with ⟨i, hi, hfd, -⟩ | ⟨hnone, hmissing⟩
    · refine Or.inr ⟨i, not_lt.mp hneg, hfd, ?_⟩
      rw [hi]
      by_cases hlt : p.clientsLength < maxClients
      · simp [hlt, bind, Except.bind]
      · simp [hlt, bind, Except.bind, not_lt.mp hlt]
    · rw [hnone]
      exact Or.inl ⟨Or.inr hmissing, _, rfl⟩

@[simp] theorem wait_fd (answer : PollResult maxClients) (i : Fin maxClients) :
    (p.wait answer).1.clients[i].fd = p.clients[i].fd := by
  simp only [wait, Fin.getElem_fin, Vector.getElem_ofFn, Vector.getElem_map]
  split_ifs <;> rfl

@[simp] theorem wait_events (answer : PollResult maxClients) (i : Fin maxClients) :
    (p.wait answer).1.clients[i].events = p.clients[i].events := by
  simp only [wait, Fin.getElem_fin, Vector.getElem_ofFn, Vector.getElem_map]
  split_ifs <;> rfl

/-- `poll` and its error exits do not end the program: every abort is an exception. -/
theorem wait_error {answer : PollResult maxClients} {a : Abort} (h : (p.wait answer).2 = .error a) :
    ∃ e, a = .throws e := by
  unfold wait at h
  dsimp only at h
  split_ifs at h <;> cases h <;> exact ⟨_, rfl⟩

theorem access_congr {p q : Poll maxClients}
    (h : ∀ i : Fin maxClients, q.clients[i].fd = p.clients[i].fd) (fd : ℤ) :
    q.access fd = p.access fd := by
  unfold access getIndex
  simp only [h]

theorem access_wait (answer : PollResult maxClients) (fd : ℤ) :
    (p.wait answer).1.access fd = p.access fd := access_congr (p.wait_fd answer) fd

theorem events_wait (answer : PollResult maxClients) (fd : ℤ) :
    (p.wait answer).1.events fd = p.events fd := by
  unfold events
  rw [access_wait]
  cases p.access fd with
  | error a => rfl
  | ok i => simp only [wait_events]

theorem setEvents_eq_ok {fd : ℤ} {i : Fin maxClients} (h : p.access fd = .ok i)
    (events : EventMask) :
    ∃ q, p.setEvents fd events = .ok q ∧ q.access fd = .ok i ∧ q.events fd = some events := by
  let q : Poll maxClients := { p with clients := p.clients.set i { p.clients[i] with events } }
  have hq : p.setEvents fd events = .ok q := by
    rw [setEvents, h]
    rfl
  have hfd : ∀ j : Fin maxClients, q.clients[j].fd = p.clients[j].fd := by
    intro j
    simp only [q, Fin.getElem_fin, Vector.getElem_set]
    split_ifs with hij
    · simp only [hij]
    · rfl
  have haccess : q.access fd = .ok i := (access_congr hfd fd).trans h
  refine ⟨q, hq, haccess, ?_⟩
  rw [Poll.events, haccess]
  simp [q]

theorem of_setEvents {fd : ℤ} {i : Fin maxClients} {events : EventMask} {q : Poll maxClients}
    (h : p.access fd = .ok i) (hset : p.setEvents fd events = .ok q) :
    q.access fd = .ok i ∧ q.events fd = some events := by
  obtain ⟨q', hq', haccess, hevents⟩ := p.setEvents_eq_ok h events
  cases hset.symm.trans hq'
  exact ⟨haccess, hevents⟩

theorem revents_eq_ok {fd : ℤ} {i : Fin maxClients} (h : p.access fd = .ok i) :
    p.revents fd = .ok p.clients[i].revents := by
  rw [revents, h]
  rfl

theorem of_addDescriptor_empty {fd : ℤ} {events : EventMask} {q : Poll 1}
    (h : Poll.empty.addDescriptor fd events = .ok q) :
    q.access fd = .ok 0 ∧ q.events fd = some events := by
  have hfree : (Poll.empty : Poll 1).getIndex (-1) = .ok 0 := rfl
  unfold addDescriptor at h
  split_ifs at h with hneg
  split at h
  · cases h
  · rw [hfree] at h
    cases h
    let q : Poll 1 := ⟨Poll.empty.clients.set 0 ⟨fd, events, 0⟩, 1⟩
    have haccess : q.access fd = .ok 0 := by
      rw [access, if_neg hneg, getIndex]
      simp [q, List.finRange_succ]
    have hevents : q.events fd = some events := by
      rw [Poll.events, haccess]
      simp [q]
    exact ⟨haccess, hevents⟩

end Poll
end SikUdp
