import SikUdp.Roster.Presence

/-!
# No record covers too much

Whatever the clock does, a renewal adds at most the two minutes after its reading, and cleaning
up only takes away. So a record never covers a time that is not within two minutes after the
reading of a registration, nor does a query find one.
-/
namespace SikUdp

open IntervalQueue

namespace Connections

theorem Client.covered_addConnection {c c' : Client} {t : ℤ} (h : c.addConnection t = .ok c') :
    covered c'.connections ⊆ covered c.connections ∪ Set.Icc t (t + timeout) := by
  obtain ⟨queue, back, hqueue, -, ⟨hle, hnew⟩ | ⟨-, hnew⟩⟩ := c.addConnection_cases h
  · rw [hqueue, hnew]
    exact covered_extend_subset queue hle
  · rw [hqueue, hnew, covered_append, covered_singleton]

theorem Client.covered_cleanup (c : Client) (t : ℤ) :
    covered (c.cleanup t).connections ⊆ covered c.connections :=
  covered_mono (discard_sublist t c.connections).subset

/-- What a traversal finds was covered at the time it asked for. -/
theorem getClientsLoop_found {rule : EraseRule} {timestamp : ℤ} {exclude : Option SockAddr}
    {index skip : ℕ} {clients kept : List Client} {found : List SockAddr}
    (h : getClientsLoop rule timestamp exclude index skip clients = .ok (kept, found)) :
    ∀ a ∈ found, ∃ c ∈ clients, c.address = a ∧ timestamp ∈ covered c.connections := by
  induction clients generalizing index skip kept found with
  | nil =>
    cases skip with
    | zero =>
      cases h
      simp
    | succ skip => cases h
  | cons client rest ih =>
    have hbehind : ∀ {index skip : ℕ} {kept : List Client} {found : List SockAddr},
        getClientsLoop rule timestamp exclude index skip rest = .ok (kept, found) →
        ∀ a ∈ found, ∃ c ∈ client :: rest, c.address = a ∧ timestamp ∈ covered c.connections := by
      intro index skip kept found hrest a ha
      obtain ⟨c, hc, hcovered⟩ := ih hrest a ha
      exact ⟨c, List.mem_cons_of_mem client hc, hcovered⟩
    cases skip with
    | succ skip =>
      obtain ⟨r, hr, heq⟩ := TracedRun.map_ok_iff.mp h
      cases heq
      exact hbehind hr
    | zero =>
      rw [getClientsLoop] at h
      split_ifs at h with hexclude
      · obtain ⟨r, hr, heq⟩ := TracedRun.map_ok_iff.mp h
        cases heq
        exact hbehind hr
      · split at h
        · split at h
          · cases h
          · exact hbehind h
        · rename_i front later hfront
          obtain ⟨r, hr, heq⟩ := TracedRun.map_ok_iff.mp h
          cases heq
          split_ifs with hbounds
          · intro a ha
            rcases List.mem_cons.mp ha with rfl | ha
            · refine ⟨client, List.mem_cons_self, rfl, client.covered_cleanup timestamp ?_⟩
              rw [hfront]
              exact ⟨front, List.mem_cons_self, by simpa [inBounds] using hbounds⟩
            · exact hbehind hr a ha
          · exact hbehind hr

theorem Traversed.forall_kept {timestamp : ℤ} {exclude : Option SockAddr}
    {clients kept : List Client} {found : List SockAddr}
    (h : Traversed timestamp exclude clients kept found) {P : Client → Prop}
    (hclean : ∀ c, P c → P (c.cleanup timestamp)) (hclients : ∀ c ∈ clients, P c) :
    ∀ c ∈ kept, P c := by
  induction h with
  | nil => exact hclients
  | unchanged _ ih =>
    rw [List.forall_mem_cons] at hclients ⊢
    exact ⟨hclients.1, ih hclients.2⟩
  | erased _ ih => exact ih (List.forall_mem_cons.mp hclients).2
  | cleaned _ _ ih =>
    rw [List.forall_mem_cons] at hclients ⊢
    exact ⟨hclean _ hclients.1, ih hclients.2⟩
  | found _ _ _ ih =>
    rw [List.forall_mem_cons] at hclients ⊢
    exact ⟨hclean _ hclients.1, ih hclients.2⟩

/-- No record covers more than the presence of its address. -/
def Within (registrations : List (SockAddr × ℤ)) (cs : Connections) : Prop :=
  ∀ c ∈ cs.clients, covered c.connections ⊆ present registrations c.address

namespace Within
variable {registrations : List (SockAddr × ℤ)} {cs cs' : Connections}

theorem empty : Within [] Connections.empty := by simp [Within, Connections.empty]

theorem addClient (h : Within registrations cs) {a : SockAddr} {t : ℤ}
    (hadd : cs.addClient a t = .ok cs') : Within (registrations ++ [(a, t)]) cs' := by
  have hold : ∀ c ∈ cs.clients,
      covered c.connections ⊆ present (registrations ++ [(a, t)]) c.address := by
    intro c hc x hx
    obtain ⟨u, hu, hwindow⟩ := mem_present.mp (h c hc hx)
    exact mem_present.mpr ⟨u, List.mem_append_left _ hu, hwindow⟩
  have hnow : Set.Icc t (t + timeout) ⊆ present (registrations ++ [(a, t)]) a :=
    fun x hx => mem_present.mpr ⟨t, by simp, hx⟩
  intro d hd
  rcases addClient_cases hadd with ⟨-, hcs⟩ | ⟨front, c, c', rest, hcs, hca, hc', hcs'⟩
  · rw [hcs] at hd
    rcases List.mem_append.mp hd with hd | hd
    · exact hold d hd
    · rw [List.mem_singleton.mp hd, Client.new, covered_singleton]
      exact hnow
  · have hmem : c ∈ cs.clients := by simp [hcs]
    rw [hcs'] at hd
    rcases List.mem_append.mp hd with hd | hd
    · exact hold d (by simp [hcs, hd])
    · rcases List.mem_cons.mp hd with rfl | hd
      · obtain ⟨-, -, -, haddress, -⟩ := c.addConnection_cases hc'
        rw [haddress]
        exact (Client.covered_addConnection hc').trans (Set.union_subset (hold c hmem) (hca ▸ hnow))
      · exact hold d (by simp [hcs, hd])

theorem getClients (h : Within registrations cs) {rule : EraseRule} {timestamp : ℤ}
    {exclude : Option SockAddr} {found : List SockAddr}
    (hget : cs.getClients rule timestamp exclude = .ok (cs', found)) :
    Within registrations cs' ∧ ∀ a ∈ found, timestamp ∈ present registrations a := by
  constructor
  · apply (getClients_traversed hget).forall_kept _ h
    intro c hc
    exact (c.covered_cleanup timestamp).trans hc
  · obtain ⟨r, hr, heq⟩ := TracedRun.map_ok_iff.mp hget
    cases heq
    intro a ha
    obtain ⟨c, hc, rfl, hcovered⟩ := getClientsLoop_found hr a ha
    exact h c hc hcovered

end Within
end Connections
end SikUdp
