import SikUdp.Program.Connections

/-!
# The two-minute window

What the record of clients is for: an address is present at a time if it
registered at most two minutes before. The merged interval queues represent
that set from the last query time on, although queries destroy intervals and
records; the front interval alone decides every answer.
-/
namespace SikUdp

open IntervalQueue

/-- The times at which an address is present, given all registrations. -/
def present (registrations : List (SockAddr × ℤ)) (a : SockAddr) : Set ℤ :=
  windows timeout {t | (a, t) ∈ registrations}

theorem mem_present {registrations : List (SockAddr × ℤ)} {a : SockAddr} {x : ℤ} :
    x ∈ present registrations a ↔ ∃ t, (a, t) ∈ registrations ∧ t ≤ x ∧ x ≤ t + timeout := Iff.rfl

theorem present_concat (registrations : List (SockAddr × ℤ)) (a b : SockAddr) (t : ℤ) :
    present (registrations ++ [(a, t)]) b =
      if b = a then present registrations b ∪ Set.Icc t (t + timeout)
      else present registrations b := by
  split_ifs with h
  · have htimes : {u | (b, u) ∈ registrations ++ [(a, t)]} =
        insert t {u | (b, u) ∈ registrations} := by
      ext u
      simp [h, or_comm]
    rw [present, htimes, windows_insert]
    rfl
  · have htimes : {u | (b, u) ∈ registrations ++ [(a, t)]} = {u | (b, u) ∈ registrations} := by
      ext u
      simp [h]
    rw [present, htimes]
    rfl

namespace Connections

/-- A well-formed record whose last registration was at `latest`. -/
structure Client.Sound (latest : ℤ) (c : Client) : Prop where
  nonempty : c.connections ≠ []
  separated : Separated c.connections
  bounded : ∀ p ∈ c.connections, p.1 ≤ latest ∧ p.2 ≤ latest + timeout

theorem Client.Sound.new (address : SockAddr) (t : ℤ) : (Client.new address t).Sound t where
  nonempty := by simp [Client.new]
  separated := separated_singleton (by unfold timeout; omega)
  bounded := by simp [Client.new]

/-- Renewing a record adds exactly the two minutes from the new registration on. -/
theorem Client.Sound.addConnection {latest t : ℤ} {c c' : Client} (h : c.Sound latest)
    (ht : latest ≤ t) (hc : c.addConnection t = .ok c') :
    c'.Sound t ∧ covered c'.connections = covered c.connections ∪ Set.Icc t (t + timeout) := by
  obtain ⟨queue, back, hqueue, -, hcase⟩ := c.addConnection_cases hc
  have hbound : ∀ p ∈ queue ++ [back], p.1 ≤ t ∧ p.2 ≤ t + timeout := by
    intro p hp
    have hb := h.bounded p (hqueue ▸ hp)
    constructor <;> omega
  have hback := hbound back (by simp)
  have hsep : Separated (queue ++ [back]) := hqueue ▸ h.separated
  have htimeout : t ≤ t + timeout := by unfold timeout; omega
  rcases hcase with ⟨hle, hnew⟩ | ⟨hlt, hnew⟩
  · refine ⟨⟨by simp [hnew], ?_, ?_⟩, ?_⟩
    · rw [hnew]
      exact hsep.extend (hback.1.trans htimeout)
    · intro p hp
      rw [hnew] at hp
      rcases List.mem_append.mp hp with hp | hp
      · exact hbound p (List.mem_append_left _ hp)
      · rw [List.mem_singleton.mp hp]
        exact ⟨hback.1, le_rfl⟩
    · rw [hnew, hqueue]
      exact covered_extend queue hback.1 hle hback.2
  · refine ⟨⟨by simp [hnew], ?_, ?_⟩, ?_⟩
    · rw [hnew]
      exact hsep.concat htimeout fun p hp => (hsep.le_last hp).trans_lt hlt
    · intro p hp
      rw [hnew] at hp
      rcases List.mem_append.mp hp with hp | hp
      · exact hbound p hp
      · rw [List.mem_singleton.mp hp]
        exact ⟨le_rfl, le_rfl⟩
    · rw [hnew, hqueue, covered_append, covered_singleton]

theorem Client.Sound.cleanup {latest t : ℤ} {c : Client} (h : c.Sound latest)
    (hkeep : (c.cleanup t).connections ≠ []) : (c.cleanup t).Sound latest where
  nonempty := hkeep
  separated := h.separated.sublist (discard_sublist t c.connections)
  bounded := fun p hp => h.bounded p ((discard_sublist t c.connections).subset hp)

/-- The record left behind by visiting one record, unless it is erased. -/
def visit (timestamp : ℤ) (exclude : Option SockAddr) (c : Client) : Option Client :=
  if exclude = some c.address then some c
  else if (c.cleanup timestamp).connections = [] then none
  else some (c.cleanup timestamp)

/-- The address of a record is returned when its front interval contains the time. -/
def answers (timestamp : ℤ) (exclude : Option SockAddr) (c : Client) : Bool :=
  decide (exclude ≠ some c.address) &&
    (c.cleanup timestamp).connections.head?.any (inBounds timestamp)

theorem getClientsLoop_eq {rule : EraseRule} (hrule : rule.GoesOn) (timestamp : ℤ)
    (exclude : Option SockAddr) (index : ℕ) (clients : List Client) :
    getClientsLoop rule timestamp exclude index 0 clients =
      .ok (clients.filterMap (visit timestamp exclude),
        (clients.filter (answers timestamp exclude)).map Client.address) := by
  induction clients generalizing index with
  | nil => rfl
  | cons c rest ih =>
    rw [getClientsLoop]
    split_ifs with hexclude
    · rw [ih]
      simp [visit, answers, hexclude, Except.map]
    · split
      · rename_i hempty
        rw [hrule index _ (by omega)]
        simp only [ih]
        simp [visit, answers, hexclude, hempty]
      · rename_i front later hfront
        rw [ih]
        by_cases hb : inBounds timestamp front = true <;>
          simp [visit, answers, hexclude, hfront, hb, Except.map]

/-- With the assumed iterator behaviour every record is visited once. -/
theorem getClients_eq {rule : EraseRule} (hrule : rule.GoesOn) (cs : Connections) (timestamp : ℤ)
    (exclude : Option SockAddr) :
    cs.getClients rule timestamp exclude =
      .ok (⟨cs.clients.filterMap (visit timestamp exclude)⟩,
        (cs.clients.filter (answers timestamp exclude)).map Client.address) := by
  rw [getClients, getClientsLoop_eq hrule]
  rfl

theorem visit_eq_some {timestamp : ℤ} {exclude : Option SockAddr} {c c' : Client}
    (h : visit timestamp exclude c = some c') :
    c' = c ∨ (c' = c.cleanup timestamp ∧ (c.cleanup timestamp).connections ≠ []) := by
  unfold visit at h
  split_ifs at h with hexclude hempty
  · exact Or.inl (Option.some.inj h).symm
  · exact Or.inr ⟨(Option.some.inj h).symm, hempty⟩

theorem visit_address {timestamp : ℤ} {exclude : Option SockAddr} {c c' : Client}
    (h : visit timestamp exclude c = some c') : c'.address = c.address := by
  rcases visit_eq_some h with rfl | ⟨rfl, -⟩ <;> rfl

theorem visit_covered (timestamp : ℤ) (exclude : Option SockAddr) (c : Client) {x : ℤ}
    (hx : timestamp ≤ x) :
    (∃ c', visit timestamp exclude c = some c' ∧ x ∈ covered c'.connections) ↔
      x ∈ covered c.connections := by
  have hclean : x ∈ covered (c.cleanup timestamp).connections ↔ x ∈ covered c.connections :=
    covered_discard c.connections hx
  constructor
  · rintro ⟨c', hc', hmem⟩
    rcases visit_eq_some hc' with rfl | ⟨rfl, -⟩
    · exact hmem
    · exact hclean.mp hmem
  · intro hmem
    by_cases hexclude : exclude = some c.address
    · exact ⟨c, if_pos hexclude, hmem⟩
    · obtain ⟨p, hp, hxp⟩ := hclean.mpr hmem
      have hkeep : (c.cleanup timestamp).connections ≠ [] := List.ne_nil_of_mem hp
      refine ⟨c.cleanup timestamp, ?_, p, hp, hxp⟩
      rw [visit, if_neg hexclude, if_neg hkeep]

theorem answers_iff {timestamp : ℤ} {exclude : Option SockAddr} {c : Client}
    (h : Separated c.connections) :
    answers timestamp exclude c = true ↔
      exclude ≠ some c.address ∧ timestamp ∈ covered c.connections := by
  rw [← h.front_iff timestamp]
  simp [answers, inBounds, Client.cleanup, Option.any_eq_true]

/-- The records stand for the registrations, from the last query time on. -/
structure Represents (registrations : List (SockAddr × ℤ)) (queries : List ℤ)
    (cs : Connections) : Prop where
  unique : cs.addresses.Nodup
  sound : ∀ c ∈ cs.clients, ∃ u ∈ registrations, c.Sound u.2
  covered : ∀ a x, (∀ q ∈ queries, q ≤ x) →
    ((∃ c ∈ cs.clients, c.address = a ∧ x ∈ covered c.connections) ↔ x ∈ present registrations a)

namespace Represents
variable {registrations : List (SockAddr × ℤ)} {queries : List ℤ} {cs cs' : Connections}

theorem empty : Represents [] [] Connections.empty where
  unique := List.nodup_nil
  sound := by simp [Connections.empty]
  covered := by simp [Connections.empty, mem_present]

theorem nonempty (h : Represents registrations queries cs) :
    ∀ c ∈ cs.clients, c.connections ≠ [] := by
  intro c hc
  obtain ⟨u, -, hs⟩ := h.sound c hc
  exact hs.nonempty

theorem addClient (h : Represents registrations queries cs) {a : SockAddr} {t : ℤ}
    (ht : ∀ u ∈ registrations, u.2 ≤ t) (hadd : cs.addClient a t = .ok cs') :
    Represents (registrations ++ [(a, t)]) queries cs' := by
  have hunique := nodup_addClient h.unique hadd
  have hmem : (a, t) ∈ registrations ++ [(a, t)] := by simp
  have hold : ∀ c ∈ cs.clients, ∃ u ∈ registrations ++ [(a, t)], c.Sound u.2 := by
    intro c hc
    obtain ⟨u, hu, hs⟩ := h.sound c hc
    exact ⟨u, List.mem_append_left _ hu, hs⟩
  rcases addClient_cases hadd with ⟨hnew, hcs⟩ | ⟨front, c, c', rest, hcs, hca, hc', hcs'⟩
  · refine ⟨hunique, ?_, ?_⟩
    · intro d hd
      rw [hcs] at hd
      rcases List.mem_append.mp hd with hd | hd
      · exact hold d hd
      · rw [List.mem_singleton.mp hd]
        exact ⟨_, hmem, Client.Sound.new a t⟩
    · intro b x hx
      have hb := h.covered b x hx
      rw [present_concat]
      simp only [hcs, List.mem_append, List.mem_singleton, or_and_right, exists_or,
        exists_eq_left, hb]
      split_ifs with hba
      · simp [Client.new, hba]
      · simp [Client.new, Ne.symm hba]
  · obtain ⟨u, hu, hs⟩ := h.sound c (by simp [hcs])
    obtain ⟨hs', hcover⟩ := hs.addConnection (ht u hu) hc'
    obtain ⟨-, -, -, haddress, -⟩ := c.addConnection_cases hc'
    refine ⟨hunique, ?_, ?_⟩
    · intro d hd
      rw [hcs'] at hd
      rcases List.mem_append.mp hd with hd | hd
      · exact hold d (by simp [hcs, hd])
      · rcases List.mem_cons.mp hd with rfl | hd
        · exact ⟨_, hmem, hs'⟩
        · exact hold d (by simp [hcs, hd])
    · intro b x hx
      have hb := h.covered b x hx
      rw [present_concat]
      simp only [hcs, List.mem_append, List.mem_cons, or_and_right, exists_or,
        exists_eq_left, hca] at hb
      simp only [hcs', List.mem_append, List.mem_cons, or_and_right, exists_or,
        exists_eq_left, haddress, hca, hcover]
      split_ifs with hba
      · subst hba
        simp only [Set.mem_union, ← hb, true_and, or_assoc]
        rw [or_comm (a := x ∈ Set.Icc t (t + timeout))]
      · rw [← hb]
        simp [Ne.symm hba]

theorem getClients (h : Represents registrations queries cs) {rule : EraseRule}
    (hrule : rule.GoesOn) {timestamp : ℤ} (hts : ∀ q ∈ queries, q ≤ timestamp)
    {exclude : Option SockAddr} {found : List SockAddr}
    (hget : cs.getClients rule timestamp exclude = .ok (cs', found)) :
    Represents registrations (queries ++ [timestamp]) cs' ∧
      ∀ a, a ∈ found ↔ exclude ≠ some a ∧ timestamp ∈ present registrations a := by
  have hunique : cs'.addresses.Nodup :=
    h.unique.sublist (getClients_traversed hget).kept_sublist
  rw [getClients_eq hrule] at hget
  cases hget
  refine ⟨⟨hunique, ?_, ?_⟩, ?_⟩
  · intro c' hc'
    obtain ⟨c, hc, hvisit⟩ := List.mem_filterMap.mp hc'
    obtain ⟨u, hu, hs⟩ := h.sound c hc
    rcases visit_eq_some hvisit with rfl | ⟨rfl, hkeep⟩
    · exact ⟨u, hu, hs⟩
    · exact ⟨u, hu, hs.cleanup hkeep⟩
  · intro a x hx
    have hle : timestamp ≤ x := hx timestamp (by simp)
    rw [← h.covered a x fun q hq => hx q (List.mem_append_left _ hq)]
    constructor
    · rintro ⟨c', hc', rfl, hmem⟩
      obtain ⟨c, hc, hvisit⟩ := List.mem_filterMap.mp hc'
      exact ⟨c, hc, (visit_address hvisit).symm,
        (visit_covered timestamp exclude c hle).mp ⟨c', hvisit, hmem⟩⟩
    · rintro ⟨c, hc, rfl, hmem⟩
      obtain ⟨c', hvisit, hmem'⟩ := (visit_covered timestamp exclude c hle).mpr hmem
      exact ⟨c', List.mem_filterMap.mpr ⟨c, hc, hvisit⟩, visit_address hvisit, hmem'⟩
  · intro a
    rw [← h.covered a timestamp hts]
    simp only [List.mem_map, List.mem_filter]
    constructor
    · rintro ⟨c, ⟨hc, hans⟩, rfl⟩
      obtain ⟨u, -, hs⟩ := h.sound c hc
      obtain ⟨hother, hmem⟩ := (answers_iff hs.separated).mp hans
      exact ⟨hother, c, hc, rfl, hmem⟩
    · rintro ⟨hother, c, hc, rfl, hmem⟩
      obtain ⟨u, -, hs⟩ := h.sound c hc
      exact ⟨c, ⟨hc, (answers_iff hs.separated).mpr ⟨hother, hmem⟩⟩, rfl⟩

end Represents
end Connections
end SikUdp
