import SikUdp.Roster.Presence

/-!
# Renewing a record

`addConnection` moves the end of the last interval to two minutes after the renewal,
also if that is earlier than where it was. Coverage is kept exactly as long as no
address registers at a time before an earlier registration of its own, which the wall
clock does not promise.
-/
namespace SikUdp

open IntervalQueue

namespace Connections

/-- What a renewal at `t` is to keep: every covered point stays covered, the two minutes
from `t` on are covered, and no interval ends before it begins. -/
structure Client.Renewed (client client' : Client) (t : ℤ) : Prop where
  kept : covered client.connections ⊆ covered client'.connections
  window : Set.Icc t (t + timeout) ⊆ covered client'.connections
  proper : ∀ p ∈ client'.connections, p.1 ≤ p.2

/-- A well-formed record whose last interval ends two minutes after `latest`. -/
structure Client.Current (latest : ℤ) (c : Client) : Prop where
  sound : c.Sound latest
  last : ∃ front start, c.connections = front ++ [(start, latest + timeout)]

theorem Client.Current.new (address : SockAddr) (t : ℤ) : (Client.new address t).Current t where
  sound := Client.Sound.new address t
  last := ⟨[], t, rfl⟩

theorem Client.Current.renewed {latest t : ℤ} {c c' : Client} (h : c.Current latest)
    (ht : latest ≤ t) (hc : c.addConnection t = .ok c') : c'.Current t ∧ c.Renewed c' t := by
  obtain ⟨hsound, hcovered⟩ := h.sound.addConnection ht hc
  obtain ⟨front, back, -, -, hcase⟩ := c.addConnection_cases hc
  refine ⟨⟨hsound, ?_⟩, ?_, ?_, hsound.separated.proper⟩
  · rcases hcase with ⟨-, hnew⟩ | ⟨-, hnew⟩
    · exact ⟨front, back.1, hnew⟩
    · exact ⟨front ++ [back], t, hnew⟩
  · rw [hcovered]
    exact Set.subset_union_left
  · rw [hcovered]
    exact Set.subset_union_right

theorem Client.Current.le_of_renewed {latest t : ℤ} {c c' : Client} (h : c.Current latest)
    (hc : c.addConnection t = .ok c') (hkept : c.Renewed c' t) : latest ≤ t := by
  by_contra hback
  obtain ⟨front, start, hlast⟩ := h.last
  have hsep : Separated (front ++ [(start, latest + timeout)]) := hlast ▸ h.sound.separated
  have hstart : start ≤ latest + timeout := hsep.proper (start, latest + timeout) (by simp)
  have hnew : c'.connections = front ++ [(start, t + timeout)] := by
    obtain ⟨front', back, hqueue, -, hcase⟩ := c.addConnection_cases hc
    obtain ⟨rfl, hback'⟩ := List.append_inj' (hlast.symm.trans hqueue) rfl
    obtain rfl : (start, latest + timeout) = back := List.singleton_inj.mp hback'
    rcases hcase with ⟨-, hnew⟩ | ⟨hlt, -⟩
    · exact hnew
    · unfold timeout at hlt
      dsimp only at hlt
      omega
  have hend : latest + timeout ∈ covered c.connections := by
    rw [hlast]
    exact ⟨(start, latest + timeout), by simp, hstart, le_rfl⟩
  have hlost := hsep.notMem_shorten (e := t + timeout) (by omega)
  rw [← hnew] at hlost
  exact hlost (hkept.kept hend)

def register (cs : Connections) (u : SockAddr × ℤ) :
    Except Abort (Connections × List (SockAddr × ℤ)) :=
  (cs.addClient u.1 u.2).map fun cs' => (cs', [u])

/-- The record of the address, if it has one, is renewed as it should be. -/
def Renews (cs : Connections) (u : SockAddr × ℤ) : Prop :=
  ∀ c ∈ cs.clients, c.address = u.1 → ∃ c', c.addConnection u.2 = .ok c' ∧ c.Renewed c' u.2

/-- Every address registered so far has one record, which is current. -/
structure UpToDate (registrations : List (SockAddr × ℤ)) (cs : Connections) : Prop where
  unique : cs.addresses.Nodup
  current : ∀ c ∈ cs.clients, ∃ t, (c.address, t) ∈ registrations ∧
    (∀ u ∈ registrations, u.1 = c.address → u.2 ≤ t) ∧ c.Current t
  known : ∀ u ∈ registrations, u.1 ∈ cs.addresses

namespace UpToDate
variable {registrations : List (SockAddr × ℤ)} {cs cs' : Connections} {u : SockAddr × ℤ}

theorem empty : UpToDate [] Connections.empty where
  unique := List.nodup_nil
  current := by simp [Connections.empty]
  known := by simp

theorem records (h : UpToDate registrations cs) : ∀ c ∈ cs.clients, c.connections ≠ [] := by
  intro c hc
  obtain ⟨t, -, -, hcurrent⟩ := h.current c hc
  exact hcurrent.sound.nonempty

theorem renews (h : UpToDate registrations cs)
    (hu : ∀ v ∈ registrations, v.1 = u.1 → v.2 ≤ u.2) : cs.Renews u := by
  intro c hc haddress
  obtain ⟨t, ht, -, hcurrent⟩ := h.current c hc
  obtain ⟨c', hc'⟩ := c.addConnection_total hcurrent.sound.nonempty u.2
  have hle : t ≤ u.2 := hu (c.address, t) ht haddress
  exact ⟨c', hc', (hcurrent.renewed hle hc').2⟩

theorem not_set_back (h : UpToDate registrations cs) (hu : cs.Renews u) :
    ∀ v ∈ registrations, v.1 = u.1 → v.2 ≤ u.2 := by
  intro v hv haddress
  obtain ⟨c, hc, hcv⟩ := List.mem_map.mp (h.known v hv)
  obtain ⟨t, -, hlatest, hcurrent⟩ := h.current c hc
  obtain ⟨c', hc', hkept⟩ := hu c hc (hcv.trans haddress)
  exact (hlatest v hv hcv.symm).trans (hcurrent.le_of_renewed hc' hkept)

theorem addClient (h : UpToDate registrations cs)
    (hu : ∀ v ∈ registrations, v.1 = u.1 → v.2 ≤ u.2) (hadd : cs.addClient u.1 u.2 = .ok cs') :
    UpToDate (registrations ++ [u]) cs' := by
  have hunique := nodup_addClient h.unique hadd
  -- a record of another address stays as it is
  have hother : ∀ c ∈ cs.clients, c.address ≠ u.1 → ∃ t, (c.address, t) ∈ registrations ++ [u] ∧
      (∀ v ∈ registrations ++ [u], v.1 = c.address → v.2 ≤ t) ∧ c.Current t := by
    intro c hc hne
    obtain ⟨t, ht, hlatest, hcurrent⟩ := h.current c hc
    refine ⟨t, List.mem_append_left _ ht, ?_, hcurrent⟩
    intro v hv haddress
    rcases List.mem_append.mp hv with hv | hv
    · exact hlatest v hv haddress
    · rw [List.mem_singleton.mp hv] at haddress
      exact absurd haddress.symm hne
  -- the record of the address itself has been renewed or created now
  have hown : ∀ c : Client, c.address = u.1 → c.Current u.2 →
      ∃ t, (c.address, t) ∈ registrations ++ [u] ∧
        (∀ v ∈ registrations ++ [u], v.1 = c.address → v.2 ≤ t) ∧ c.Current t := by
    intro c haddress hcurrent
    refine ⟨u.2, by simp [haddress], ?_, hcurrent⟩
    intro v hv hva
    rcases List.mem_append.mp hv with hv | hv
    · exact hu v hv (hva.trans haddress)
    · rw [List.mem_singleton.mp hv]
  have hknown : ∀ v ∈ registrations ++ [u], v.1 ∈ cs'.addresses := by
    intro v hv
    rcases addClient_addresses hadd with ⟨-, hcs⟩ | ⟨hmem, hcs⟩
    · rw [hcs]
      rcases List.mem_append.mp hv with hv | hv
      · exact List.mem_append_left _ (h.known v hv)
      · rw [List.mem_singleton.mp hv]
        simp
    · rw [hcs]
      rcases List.mem_append.mp hv with hv | hv
      · exact h.known v hv
      · rw [List.mem_singleton.mp hv]
        exact hmem
  refine ⟨hunique, ?_, hknown⟩
  rcases addClient_cases hadd with ⟨hnew, hcs⟩ | ⟨front, c, c', rest, hcs, hca, hc', hcs'⟩
  · intro d hd
    rw [hcs] at hd
    rcases List.mem_append.mp hd with hd | hd
    · exact hother d hd fun heq => hnew (heq ▸ List.mem_map_of_mem hd)
    · rw [List.mem_singleton.mp hd]
      exact hown _ rfl (Client.Current.new u.1 u.2)
  · obtain ⟨t, ht, -, hcurrent⟩ := h.current c (by simp [hcs])
    obtain ⟨-, -, -, haddress, -⟩ := c.addConnection_cases hc'
    have hrenewed := (hcurrent.renewed (hu (c.address, t) ht hca) hc').1
    -- no other record has the address
    have hnodup := h.unique
    simp only [addresses, hcs, List.map_append, List.map_cons, List.nodup_middle, hca] at hnodup
    have hfresh := (List.nodup_cons.mp hnodup).1
    intro d hd
    rw [hcs'] at hd
    rcases List.mem_append.mp hd with hd | hd
    · exact hother d (by simp [hcs, hd]) fun heq =>
        hfresh (heq ▸ List.mem_append_left _ (List.mem_map_of_mem hd))
    · rcases List.mem_cons.mp hd with rfl | hd
      · exact hown _ (haddress.trans hca) hrenewed
      · exact hother d (by simp [hcs, hd]) fun heq =>
          hfresh (heq ▸ List.mem_append_right _ (List.mem_map_of_mem hd))

end UpToDate

theorem register_records {cs cs' : Connections} {u : SockAddr × ℤ} {events : List (SockAddr × ℤ)}
    (h : cs.register u = .ok (cs', events)) : events = [u] := by
  obtain ⟨cs'', -, heq⟩ := TracedRun.map_ok_iff.mp h
  cases heq
  rfl

theorem upToDate_step {past : List (SockAddr × ℤ)} {cs : Connections} {u : SockAddr × ℤ}
    (h : UpToDate past cs) (hu : ∀ v ∈ past, v.1 = u.1 → v.2 ≤ u.2) :
    ∃ cs' events, cs.register u = .ok (cs', events) ∧ UpToDate (past ++ events) cs' := by
  obtain ⟨cs', hadd⟩ := addClient_total h.records u.1 u.2
  exact ⟨cs', [u], TracedRun.map_ok_iff.mpr ⟨cs', hadd, rfl⟩, h.addClient hu hadd⟩

/-- Throughout a history of registrations every renewal keeps what was covered, covers its
own two minutes and leaves proper intervals, exactly if no address registers at a time
before an earlier registration of its own. -/
theorem renewal_keeps_iff (registrations : List (SockAddr × ℤ)) :
    (∀ before u after, registrations = before ++ u :: after → ∃ cs trace cs' events,
      TracedRun.run register empty before = .ok (cs, trace) ∧
        cs.register u = .ok (cs', events) ∧ cs.Renews u) ↔
    registrations.Pairwise fun v u => v.1 = u.1 → v.2 ≤ u.2 := by
  have hsteps := TracedRun.run_steps_iff (I := UpToDate) (Q := fun _ cs u _ _ => Renews cs u)
    UpToDate.empty
    (fun past cs u h hu => by
      obtain ⟨cs', events, hregister, h'⟩ := upToDate_step h hu
      exact ⟨cs', events, hregister, h', h.renews hu⟩)
    (fun past cs u cs' events h _ hrenews => h.not_set_back hrenews) registrations
  rw [hsteps, TracedRun.pairwise_iff_split]
  constructor
  · intro hmeets before u after hsplit
    obtain ⟨cs, trace, hrun, -⟩ := TracedRun.run_prefix UpToDate.empty
      (fun past cs u h hu => upToDate_step h hu) hmeets before (u :: after) hsplit
    have hu := hmeets before u after cs trace hsplit hrun
    rwa [TracedRun.run_echo (fun _ _ _ _ => register_records) hrun] at hu
  · intro hpairwise before u after cs trace hsplit hrun
    rw [TracedRun.run_echo (fun _ _ _ _ => register_records) hrun]
    exact hpairwise before u after hsplit

/-- A renewal after the clock was set back by five minutes. -/
theorem set_back_loses_coverage :
    ¬ ∀ before u after, [((⟨10, 1⟩ : SockAddr), (1000 : ℤ)), (⟨10, 1⟩, 700)] =
        before ++ u :: after →
      ∃ cs trace cs' events, TracedRun.run register empty before = .ok (cs, trace) ∧
        cs.register u = .ok (cs', events) ∧ cs.Renews u := by
  intro hclaim
  obtain ⟨cs, trace, cs', events, hrun, -, hrenews⟩ :=
    hclaim [(⟨10, 1⟩, 1000)] (⟨10, 1⟩, 700) [] rfl
  cases hrun
  obtain ⟨c', hc', hrenewed⟩ := hrenews (Client.new ⟨10, 1⟩ 1000) (by simp [Client.new]) rfl
  cases hc'
  exact absurd (hrenewed.proper (1000, 820) (by decide)) (by decide)

end Connections
end SikUdp
