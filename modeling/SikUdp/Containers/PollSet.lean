import SikUdp.Program.Poll
import SikUdp.Library.TracedRun

/-!
# The poll set as a set of descriptors

Lookup scans the whole array of `Poll`, `poll` and iteration use its first
`clientsLength` slots. Adding keeps the two views together. Removing moves the slot
behind the used ones, not the last used one, into the freed place, so that the views
stay together exactly if the descriptor added last is removed from a set with a free slot.
-/
namespace SikUdp.Poll

variable {maxClients : ℕ}

inductive Call where
  | addDescriptor (fd : ℤ) (events : EventMask)
  | removeDescriptor (fd : ℤ)
  deriving DecidableEq, Repr

def perform (p : Poll maxClients) : Call → Except Abort (Poll maxClients)
  | .addDescriptor fd events => p.addDescriptor fd events
  | .removeDescriptor fd => p.removeDescriptor fd

/-- One call. A call that throws has changed nothing before; the others are recorded. -/
def call (p : Poll maxClients) (c : Call) : Except Abort (Poll maxClients × List Call) :=
  match p.perform c with
  | .ok q => .ok (q, [c])
  | .error (.throws _) => .ok (p, [])
  | .error .undefined => .error .undefined

def register (descriptors : List (ℤ × EventMask)) : Call → List (ℤ × EventMask)
  | .addDescriptor fd events => descriptors ++ [(fd, events)]
  | .removeDescriptor fd => descriptors.filter fun r => r.1 ≠ fd

/-- The descriptors added and not yet removed, by the calls that returned. -/
def registered (returned : List Call) : List (ℤ × EventMask) := returned.foldl register []

theorem registered_append (past later : List Call) :
    registered (past ++ later) = later.foldl register (registered past) :=
  List.foldl_append

/-- The polled slots hold exactly the registered descriptors, each once and with its
events, iteration goes over them, and every other slot is free. -/
structure Represents (descriptors : List (ℤ × EventMask)) (p : Poll maxClients) : Prop where
  polled : (p.polled.map fun c => (c.fd, c.events)).Perm descriptors
  distinct : (p.polled.map PollFd.fd).Nodup
  free : ∀ i : Fin maxClients, p.clientsLength ≤ i → (p.client i).fd = -1
  loop : p.loop 0 = .ok p.polled

/-- The slots hold the registered descriptors in the order they were added in. -/
structure InOrder (descriptors : List (ℤ × EventMask)) (p : Poll maxClients) : Prop where
  length : p.clientsLength = descriptors.length
  fits : descriptors.length ≤ maxClients
  slot : ∀ (i : Fin maxClients) (h : i < descriptors.length),
    ((p.client i).fd, (p.client i).events) = descriptors[(i : ℕ)]
  free : ∀ i : Fin maxClients, descriptors.length ≤ i → (p.client i).fd = -1
  valid : ∀ r ∈ descriptors, 0 ≤ r.1
  distinct : (descriptors.map Prod.fst).Nodup

theorem loop_eq {p : Poll maxClients} (hfits : p.clientsLength ≤ maxClients) (position : ℕ)
    (hle : position ≤ p.clientsLength) : p.loop position = .ok (p.polled.drop position) := by
  have hlength : p.polled.length = p.clientsLength := by simp [polled, hfits]
  induction hleft : p.clientsLength - position generalizing position with
  | zero =>
    have hend : position = p.clientsLength := by omega
    rw [loop, if_neg (by simp [hend]), List.drop_eq_nil_of_le (by omega)]
  | succ left ih =>
    have hlt : position < p.polled.length := by omega
    have hin : position < maxClients := by omega
    have hitem : p.polled[position] = p.clients[position] := by simp [polled]
    rw [loop, if_pos (by omega), dif_pos hin, ih (position + 1) (by omega) (by omega),
      List.drop_eq_getElem_cons hlt, hitem]
    rfl

namespace InOrder
variable {descriptors : List (ℤ × EventMask)} {p : Poll maxClients}

theorem empty : (Poll.empty : Poll maxClients).InOrder [] where
  length := rfl
  fits := Nat.zero_le _
  slot := by simp
  free := by simp [Poll.empty, PollFd.reset]
  valid := by simp
  distinct := List.nodup_nil

theorem polled (h : p.InOrder descriptors) :
    (p.polled.map fun c => (c.fd, c.events)) = descriptors := by
  have hlength := h.length
  have hfits := h.fits
  apply List.ext_getElem
  · simp [Poll.polled, hlength, hfits]
  · intro i hi hi'
    have hslot := h.slot ⟨i, by omega⟩ hi'
    simpa [Poll.polled] using hslot

theorem represents (h : p.InOrder descriptors) : p.Represents descriptors where
  polled := h.polled ▸ List.Perm.refl _
  distinct := by
    have hdistinct := h.distinct
    rw [← h.polled, List.map_map] at hdistinct
    exact hdistinct
  free := fun i hi => h.free i (h.length ▸ hi)
  loop := by
    have hfits : p.clientsLength ≤ maxClients := h.length ▸ h.fits
    exact loop_eq hfits 0 (Nat.zero_le _)

theorem mem_iff (h : p.InOrder descriptors) {fd : ℤ} (hfd : 0 ≤ fd) :
    (∃ i : Fin maxClients, (p.client i).fd = fd) ↔ fd ∈ descriptors.map Prod.fst := by
  constructor
  · rintro ⟨i, hi⟩
    have hlt : i < descriptors.length := by
      by_contra hge
      have hfree := h.free i (not_lt.mp hge)
      omega
    have hslot := congrArg Prod.fst (h.slot i hlt)
    exact List.mem_map.mpr ⟨_, List.getElem_mem hlt, hslot.symm.trans hi⟩
  · intro hmem
    obtain ⟨r, hr, rfl⟩ := List.mem_map.mp hmem
    obtain ⟨i, hi, rfl⟩ := List.mem_iff_getElem.mp hr
    have hfits := h.fits
    exact ⟨⟨i, by omega⟩, congrArg Prod.fst (h.slot ⟨i, by omega⟩ hi)⟩

theorem first_free (h : p.InOrder descriptors) {i : Fin maxClients} (hi : (p.client i).fd = -1)
    (hfirst : ∀ j < i, (p.client j).fd ≠ -1) : (i : ℕ) = descriptors.length := by
  have hge : descriptors.length ≤ i := by
    by_contra hlt
    have hlt' : i < descriptors.length := not_le.mp hlt
    have hslot := congrArg Prod.fst (h.slot i hlt')
    have hvalid := h.valid _ (List.getElem_mem hlt')
    dsimp only at hslot
    omega
  by_contra hne
  have hlt : descriptors.length < i := by omega
  have hfits : descriptors.length < maxClients := hlt.trans i.isLt
  exact hfirst ⟨descriptors.length, hfits⟩ hlt (h.free ⟨descriptors.length, hfits⟩ le_rfl)

theorem add (h : p.InOrder descriptors) {fd : ℤ} (events : EventMask) {i : Fin maxClients}
    (hfd : 0 ≤ fd) (hnew : ∀ j : Fin maxClients, (p.client j).fd ≠ fd)
    (hi : (i : ℕ) = descriptors.length) :
    Poll.InOrder (descriptors ++ [(fd, events)])
      { clients := p.clients.set i { p.client i with fd, events }
        clientsLength := p.clientsLength + 1 } where
  length := by simp [h.length]
  fits := by
    have hlt := i.isLt
    simp only [List.length_append, List.length_singleton]
    omega
  slot := by
    intro j hj
    simp only [List.length_append, List.length_singleton] at hj
    simp only [Fin.getElem_fin, Vector.getElem_set]
    split_ifs with hij
    · simp [← hij, hi]
    · have hlt : j < descriptors.length := by omega
      rw [List.getElem_append_left hlt]
      exact h.slot j hlt
  free := by
    intro j hj
    simp only [List.length_append, List.length_singleton] at hj
    simp only [Fin.getElem_fin, Vector.getElem_set]
    rw [if_neg (by omega)]
    exact h.free j (by omega)
  valid := by
    intro r hr
    rcases List.mem_append.mp hr with hr | hr
    · exact h.valid r hr
    · rw [List.mem_singleton.mp hr]
      exact hfd
  distinct := by
    have hfresh : fd ∉ descriptors.map Prod.fst := by
      rw [← h.mem_iff hfd]
      rintro ⟨j, hj⟩
      exact hnew j hj
    rw [List.map_append, List.map_singleton, ← List.concat_eq_append]
    exact h.distinct.concat hfresh

theorem remove {fd : ℤ} {events : EventMask} (h : p.InOrder (descriptors ++ [(fd, events)]))
    {i : Fin maxClients} (hi : (i : ℕ) = descriptors.length)
    (hlt : p.clientsLength < maxClients) :
    (p.compact i hlt).InOrder descriptors := by
  have hlength : p.clientsLength = descriptors.length + 1 := by simpa using h.length
  have hbehind : p.clients[p.clientsLength].fd = -1 :=
    h.free ⟨p.clientsLength, hlt⟩ (by simp [hlength])
  refine ⟨by simp [compact, hlength], by omega, ?_, ?_, ?_, ?_⟩
  · intro j hj
    rw [p.client_compact, if_neg (by omega), if_neg (by omega)]
    have hslot := h.slot j (by simp; omega)
    rwa [List.getElem_append_left hj] at hslot
  · intro j hj
    rw [p.client_compact]
    split_ifs with hreset hmoved
    · rfl
    · exact hbehind
    · exact h.free j (by simp; omega)
  · exact fun r hr => h.valid r (List.mem_append_left _ hr)
  · have hdistinct := h.distinct
    rw [List.map_append] at hdistinct
    exact hdistinct.sublist (List.sublist_append_left _ _)

theorem slot_lt (h : p.InOrder descriptors) {i : Fin maxClients} (hi : 0 ≤ (p.client i).fd) :
    (i : ℕ) < descriptors.length := by
  by_contra hge
  have hfree := h.free i (not_lt.mp hge)
  omega

theorem slot_unique (h : p.InOrder descriptors) {i j : Fin maxClients}
    (hi : 0 ≤ (p.client i).fd) (hij : (p.client i).fd = (p.client j).fd) : (i : ℕ) = j := by
  have hlti := h.slot_lt hi
  have hltj := h.slot_lt (hij ▸ hi)
  have hsloti := congrArg Prod.fst (h.slot i hlti)
  have hslotj := congrArg Prod.fst (h.slot j hltj)
  have hi' : (i : ℕ) < (descriptors.map Prod.fst).length := by simpa using hlti
  have hj' : (j : ℕ) < (descriptors.map Prod.fst).length := by simpa using hltj
  have hsame : (descriptors.map Prod.fst)[(i : ℕ)] = (descriptors.map Prod.fst)[(j : ℕ)] := by
    rw [List.getElem_map, List.getElem_map]
    exact hsloti.symm.trans (hij.trans hslotj)
  exact (h.distinct.getElem_inj_iff).mp hsame

end InOrder

/-- The call adds a descriptor, removes one that is not there, or removes the one added
last from a set that has a free slot. -/
def RemovesLast (maxClients : ℕ) (descriptors : List (ℤ × EventMask)) : Call → Prop
  | .addDescriptor _ _ => True
  | .removeDescriptor fd => fd ∈ descriptors.map Prod.fst →
      descriptors.length < maxClients ∧ ∃ front events, descriptors = front ++ [(fd, events)]

theorem call_ok {p q : Poll maxClients} {c : Call} (h : p.perform c = .ok q) :
    p.call c = .ok (q, [c]) := by
  rw [call, h]

theorem call_throws {p : Poll maxClients} {c : Call} {e : Exception}
    (h : p.perform c = .error (.throws e)) : p.call c = .ok (p, []) := by
  rw [call, h]

theorem call_undefined {p : Poll maxClients} {c : Call} (h : p.perform c = .error .undefined) :
    p.call c = .error .undefined := by
  rw [call, h]

theorem register_last {front : List (ℤ × EventMask)} {fd : ℤ} {events : EventMask}
    (hdistinct : ((front ++ [(fd, events)]).map Prod.fst).Nodup) :
    register (front ++ [(fd, events)]) (.removeDescriptor fd) = front := by
  rw [List.map_append, List.map_singleton] at hdistinct
  have hother : ∀ r ∈ front, r.1 ≠ fd := by
    intro r hr heq
    exact (List.nodup_append.mp hdistinct).2.2 r.1 (List.mem_map_of_mem hr) fd (by simp) heq
  rw [register, List.filter_append, List.filter_eq_self.mpr (by simpa using hother)]
  simp

theorem mem_polled (p : Poll maxClients) {i : Fin maxClients} (hi : i < p.clientsLength) :
    p.client i ∈ p.polled :=
  List.mem_iff_getElem.mpr ⟨i, by simp [polled, hi], by simp [polled]⟩

namespace InOrder
variable {descriptors : List (ℤ × EventMask)} {p : Poll maxClients}

theorem call (h : p.InOrder descriptors) {c : Call} (hc : RemovesLast maxClients descriptors c) :
    ∃ q returned, p.call c = .ok (q, returned) ∧
      q.InOrder (returned.foldl register descriptors) := by
  cases c with
  | addDescriptor fd events =>
    rcases p.addDescriptor_cases fd events with ⟨e, he⟩ | ⟨i, hfd, hnew, hi, hfirst, hadd⟩
    · exact ⟨p, [], call_throws he, h⟩
    · exact ⟨_, _, call_ok hadd, h.add events hfd hnew (h.first_free hi hfirst)⟩
  | removeDescriptor fd =>
    rcases p.removeDescriptor_cases fd with ⟨-, e, he⟩ | ⟨i, hfd, hi, hcase⟩
    · exact ⟨p, [], call_throws he, h⟩
    · obtain ⟨hroom, front, events, rfl⟩ := hc ((h.mem_iff hfd).mp ⟨i, hi⟩)
      have hlt : p.clientsLength < maxClients := h.length ▸ hroom
      rcases hcase with ⟨hfull, -⟩ | ⟨hlt', hremove⟩
      · omega
      · have hlast : front.length < maxClients := by
          simp only [List.length_append, List.length_singleton] at hroom
          omega
        have hslot := congrArg Prod.fst (h.slot ⟨front.length, hlast⟩ (by simp))
        have hindex : (i : ℕ) = front.length := by
          apply h.slot_unique (hi.symm ▸ hfd) (j := ⟨front.length, hlast⟩)
          rw [hi]
          simpa using hslot.symm
        refine ⟨_, _, call_ok hremove, ?_⟩
        rw [List.foldl_cons, List.foldl_nil, register_last h.distinct]
        exact h.remove hindex hlt

/-- Any other removal leaves a hole in the polled slots, or the array. -/
theorem removesLast (h : p.InOrder descriptors) {c : Call} {q : Poll maxClients}
    {returned : List Call} (hcall : p.call c = .ok (q, returned))
    (hq : q.Represents (returned.foldl register descriptors)) :
    RemovesLast maxClients descriptors c := by
  cases c with
  | addDescriptor fd events => trivial
  | removeDescriptor fd =>
    intro hmem
    have hfd : 0 ≤ fd := by
      obtain ⟨r, hr, rfl⟩ := List.mem_map.mp hmem
      exact h.valid r hr
    obtain ⟨k, hk⟩ := (h.mem_iff hfd).mpr hmem
    rcases p.removeDescriptor_cases fd with ⟨hnone, -⟩ | ⟨i, -, hi, ⟨-, hout⟩ | ⟨hlt, hremove⟩⟩
    · rcases hnone with hneg | hnone
      · omega
      · exact absurd hk (hnone k)
    · rw [call_undefined (c := .removeDescriptor fd) hout] at hcall
      cases hcall
    · rw [call_ok (c := .removeDescriptor fd) hremove] at hcall
      cases hcall
      have hlength := h.length
      have hused := h.slot_lt (hi.symm ▸ hfd)
      refine ⟨hlength ▸ hlt, ?_⟩
      rcases List.eq_nil_or_concat' descriptors with rfl | ⟨front, last, rfl⟩
      · simp at hmem
      simp only [List.length_append, List.length_singleton] at hlength hused
      by_cases hindex : (i : ℕ) = front.length
      · have hslot := congrArg Prod.fst (h.slot i (by simpa using hused))
        refine ⟨front, last.2, ?_⟩
        simp only [hindex, List.getElem_concat_length] at hslot
        rw [← hi, hslot]
      · -- the freed place is among the polled slots and has received a free one
        have hpolled := (p.compact i hlt).mem_polled (i := i) (by simp only [compact]; omega)
        have hhole := hq.polled.subset (List.mem_map_of_mem hpolled)
        have hmoved := h.valid _ (List.mem_of_mem_filter hhole)
        have hbehind : p.clients[p.clientsLength].fd = -1 :=
          h.free ⟨p.clientsLength, hlt⟩ (by simp; omega)
        rw [p.client_compact, if_neg (by omega), if_pos rfl] at hmoved
        dsimp only at hmoved
        omega

end InOrder

/-- The polled slots hold exactly the registered descriptors throughout a history of calls
exactly if every removal of a registered descriptor takes the one added last, from a
set with a free slot. -/
theorem represents_iff (calls : List Call) :
    (∀ before after, calls = before ++ after → ∃ (p : Poll maxClients) (returned : List Call),
      TracedRun.run call Poll.empty before = .ok (p, returned) ∧
        p.Represents (registered returned)) ↔
    ∀ before c after (p : Poll maxClients) returned, calls = before ++ c :: after →
      TracedRun.run call Poll.empty before = .ok (p, returned) →
        RemovesLast maxClients (registered returned) c := by
  apply TracedRun.run_states_iff (I := fun past p => p.InOrder (registered past))
  · exact InOrder.empty
  · exact InOrder.empty.represents
  · intro past p c h hc
    obtain ⟨q, returned, hcall, hq⟩ := h.call hc
    rw [← registered_append] at hq
    exact ⟨q, returned, hcall, hq, hq.represents⟩
  · intro past p c q returned h hcall hq
    rw [registered_append] at hq
    exact h.removesLast hcall hq

/-- Of two descriptors the first one is removed: the second is not polled any more. -/
theorem first_removed_hole :
    ¬ ∀ before after,
      [Call.addDescriptor 5 POLLIN, .addDescriptor 7 POLLIN, .removeDescriptor 5] =
        before ++ after →
      ∃ (p : Poll 3) (returned : List Call),
        TracedRun.run call Poll.empty before = .ok (p, returned) ∧
          p.Represents (registered returned) := by
  intro hclaim
  obtain ⟨p, returned, hrun, hrepresents⟩ := hclaim _ [] (List.append_nil _).symm
  cases hrun
  have hfd := hrepresents.polled.mem_iff (a := ((7 : ℤ), POLLIN))
  exact absurd hfd (by decide)

end SikUdp.Poll
