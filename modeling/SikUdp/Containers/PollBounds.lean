import SikUdp.Containers.PollSet

/-!
# The counter of the poll set

`clientsLength` always counts the slots in use. It is also the index of the slot that a
removal moves, so a removal stays inside the array exactly if some slot is free.
-/
namespace SikUdp.Poll

variable {maxClients : ℕ}

def used (c : PollFd) : Bool := decide (c.fd ≠ -1)

/-- The number of slots whose descriptor is not `-1`. -/
def inUse (p : Poll maxClients) : ℕ := p.clients.countP used

theorem used_eq_true {c : PollFd} (h : c.fd ≠ -1) : used c = true := decide_eq_true h

theorem used_reset : used .reset = false := rfl

theorem inUse_empty : (empty : Poll maxClients).inUse = 0 := by
  simp [inUse, empty, used_reset, Vector.countP_replicate]

theorem inUse_le (p : Poll maxClients) : p.inUse ≤ maxClients := Vector.countP_le_size

theorem inUse_pos {p : Poll maxClients} {i : Fin maxClients} (hi : (p.client i).fd ≠ -1) :
    0 < p.inUse :=
  Vector.countP_pos_iff.mpr ⟨p.client i, Vector.getElem_mem i.isLt, used_eq_true hi⟩

theorem inUse_add {p : Poll maxClients} {i : Fin maxClients} (hi : (p.client i).fd = -1)
    {fd : ℤ} (hfd : 0 ≤ fd) (events : EventMask) (clientsLength : ℕ) :
    inUse { clients := p.clients.set i { p.client i with fd, events }, clientsLength } =
      p.inUse + 1 := by
  have hfree : used p.clients[(i : ℕ)] = false := decide_eq_false (not_not.mpr hi)
  have hfilled (revents : EventMask) : used ⟨fd, events, revents⟩ = true :=
    used_eq_true (by dsimp only; omega)
  simp [inUse, Vector.countP_set, hfree, hfilled]

/-- Moving a slot into a used one and freeing it takes one away, also if the two are one. -/
theorem inUse_compact {p : Poll maxClients} {i : Fin maxClients} (hi : (p.client i).fd ≠ -1)
    (h : p.clientsLength < maxClients) : (p.compact i h).inUse + 1 = p.inUse := by
  have hfreed : used p.clients[(i : ℕ)] = true := used_eq_true hi
  have hpos : 0 < p.inUse := inUse_pos hi
  unfold inUse at hpos ⊢
  rw [compact, Vector.countP_set, Vector.countP_set, Vector.getElem_set, used_reset, hfreed]
  by_cases hsame : (i : ℕ) = p.clientsLength
  · simp only [hsame] at hfreed
    simp only [hsame, hfreed, if_true]
    simp
    omega
  · rw [if_neg hsame]
    cases used p.clients[p.clientsLength]
    · simp
      omega
    · simp
      omega

/-- The call removes a registered descriptor while all slots are in use. -/
def RemovesFromFull (p : Poll maxClients) (c : Call) : Prop :=
  ∃ fd, c = .removeDescriptor fd ∧ 0 ≤ fd ∧ (∃ i : Fin maxClients, (p.client i).fd = fd) ∧
    p.inUse = maxClients

theorem call_counts {p : Poll maxClients} (hcount : p.clientsLength = p.inUse) {c : Call}
    (hc : ¬ p.RemovesFromFull c) :
    ∃ q returned, p.call c = .ok (q, returned) ∧ q.clientsLength = q.inUse := by
  cases c with
  | addDescriptor fd events =>
    rcases p.addDescriptor_cases fd events with ⟨e, he⟩ | ⟨i, hfd, -, hi, -, hadd⟩
    · exact ⟨p, [], call_throws he, hcount⟩
    · refine ⟨_, _, call_ok hadd, ?_⟩
      rw [inUse_add hi hfd, hcount]
  | removeDescriptor fd =>
    rcases p.removeDescriptor_cases fd with ⟨-, e, he⟩ | ⟨i, hfd, hi, ⟨hfull, -⟩ | ⟨h, hremove⟩⟩
    · exact ⟨p, [], call_throws he, hcount⟩
    · have hle := p.inUse_le
      exact absurd ⟨fd, rfl, hfd, ⟨i, hi⟩, by omega⟩ hc
    · refine ⟨_, _, call_ok hremove, ?_⟩
      have hminus := inUse_compact (i := i) (by omega) h
      have hlength : (p.compact i h).clientsLength = p.clientsLength - 1 := rfl
      omega

theorem call_of_removesFromFull {p : Poll maxClients} (hcount : p.clientsLength = p.inUse)
    {c : Call} (hc : p.RemovesFromFull c) : p.call c = .error .undefined := by
  obtain ⟨fd, rfl, hfd, ⟨k, hk⟩, hfull⟩ := hc
  rcases p.removeDescriptor_cases fd with ⟨hnone, -⟩ | ⟨i, -, hi, ⟨-, hout⟩ | ⟨h, -⟩⟩
  · rcases hnone with hneg | hnone
    · omega
    · exact absurd hk (hnone k)
  · exact call_undefined hout
  · omega

/-- Throughout a history of calls the array is not left and the counter is right exactly
if no registered descriptor is removed while all slots are in use. -/
theorem in_bounds_iff (calls : List Call) :
    (∀ before after, calls = before ++ after → ∃ (p : Poll maxClients) (returned : List Call),
      TracedRun.run call Poll.empty before = .ok (p, returned) ∧ p.clientsLength = p.inUse) ↔
    ∀ before c after (p : Poll maxClients) returned, calls = before ++ c :: after →
      TracedRun.run call Poll.empty before = .ok (p, returned) → ¬ p.RemovesFromFull c := by
  apply TracedRun.run_states_iff (I := fun _ p => p.clientsLength = p.inUse)
  · exact inUse_empty.symm
  · exact inUse_empty.symm
  · intro past p c hcount hc
    obtain ⟨q, returned, hcall, hq⟩ := call_counts hcount hc
    exact ⟨q, returned, hcall, hq, hq⟩
  · intro past p c q returned hcount hcall hq hc
    rw [call_of_removesFromFull hcount hc] at hcall
    cases hcall

/-- Removing the only descriptor of a set of one slot leaves the array. -/
theorem full_removed_out_of_bounds :
    ¬ ∀ before after, [Call.addDescriptor 3 POLLIN, .removeDescriptor 3] = before ++ after →
      ∃ (p : Poll 1) (returned : List Call),
        TracedRun.run call Poll.empty before = .ok (p, returned) ∧ p.clientsLength = p.inUse := by
  intro hclaim
  obtain ⟨p, returned, hrun, -⟩ := hclaim _ [] (List.append_nil _).symm
  cases hrun

end SikUdp.Poll
