import SikUdp.Roster.Renewal
import SikUdp.Roster.Histories

/-!
# What the record of clients keeps

A record goes only when a query meets it. An address has one from its registration until a
query, other than for a message of its own, for a time more than two minutes later; and
the intervals that a query leaves are no more than fit between its time and the last
registration.
-/
namespace SikUdp.Connections

open IntervalQueue

/-- The address registered at `t`, and the queries since then that did not exclude it were
for times at most two minutes later. -/
def Retained (calls : List Call) (a : SockAddr) (t : ℤ) : Prop :=
  ∃ before after, calls = before ++ .addClient a t :: after ∧
    ∀ timestamp exclude, .getClients timestamp exclude ∈ after →
      exclude = some a ∨ timestamp ≤ t + timeout

theorem retained_addClient {calls : List Call} {a b : SockAddr} {t u : ℤ} :
    Retained (calls ++ [.addClient b u]) a t ↔ (a = b ∧ t = u) ∨ Retained calls a t := by
  rw [Retained, TracedRun.exists_split_concat]
  simp [Retained]

theorem retained_getClients {calls : List Call} {a : SockAddr} {t timestamp : ℤ}
    {exclude : Option SockAddr} :
    Retained (calls ++ [.getClients timestamp exclude]) a t ↔
      Retained calls a t ∧ (exclude = some a ∨ timestamp ≤ t + timeout) := by
  rw [Retained, TracedRun.exists_split_concat]
  simp only [reduceCtorEq, false_and, false_or, List.mem_append, List.mem_singleton,
    Call.getClients.injEq, or_imp, forall_and, forall_eq_apply_imp_iff, and_imp, forall_eq,
    ← and_assoc, exists_and_right]
  rfl

theorem Retained.registered {calls : List Call} {a : SockAddr} {t : ℤ} (h : Retained calls a t) :
    (a, t) ∈ registered calls := by
  obtain ⟨before, after, rfl, -⟩ := h
  simp [Connections.registered]

/-- A well-formed record renewed last at `latest`, of intervals at least two minutes wide. -/
structure Client.Wide (latest : ℤ) (c : Client) : Prop where
  current : c.Current latest
  wide : ∀ p ∈ c.connections, p.1 + timeout ≤ p.2

theorem Client.Wide.new (address : SockAddr) (t : ℤ) : (Client.new address t).Wide t where
  current := Client.Current.new address t
  wide := by simp [Client.new]

theorem Client.Wide.renewed {latest t : ℤ} {c c' : Client} (h : c.Wide latest) (ht : latest ≤ t)
    (hc : c.addConnection t = .ok c') : c'.Wide t := by
  refine ⟨(h.current.renewed ht hc).1, ?_⟩
  obtain ⟨queue, back, hqueue, -, hcase⟩ := c.addConnection_cases hc
  have hwide := h.wide
  have hbounded := h.current.sound.bounded
  rw [hqueue] at hwide hbounded
  have hback := (hbounded back (by simp)).1
  intro p hp
  rcases hcase with ⟨-, hnew⟩ | ⟨-, hnew⟩
  · rw [hnew] at hp
    rcases List.mem_append.mp hp with hp | hp
    · exact hwide p (List.mem_append_left _ hp)
    · rw [List.mem_singleton.mp hp]
      dsimp only
      omega
  · rw [hnew] at hp
    rcases List.mem_append.mp hp with hp | hp
    · exact hwide p hp
    · rw [List.mem_singleton.mp hp]

theorem Client.Wide.cleanup {latest timestamp : ℤ} {c : Client} (h : c.Wide latest) :
    (timestamp ≤ latest + timeout → (c.cleanup timestamp).Wide latest) ∧
      ((c.cleanup timestamp).connections = [] ↔ latest + timeout < timestamp) := by
  obtain ⟨front, start, hlast⟩ := h.current.last
  have hkeep : timestamp ≤ latest + timeout → ∃ front',
      (c.cleanup timestamp).connections = front' ++ [(start, latest + timeout)] := by
    intro hle
    rw [Client.cleanup, hlast]
    exact discard_concat front hle
  constructor
  · intro hle
    obtain ⟨front', hfront'⟩ := hkeep hle
    refine ⟨⟨h.current.sound.cleanup (by simp [hfront']), front', start, hfront'⟩, ?_⟩
    intro p hp
    exact h.wide p ((discard_sublist timestamp c.connections).subset hp)
  · constructor
    · intro hempty
      by_contra hle
      obtain ⟨front', hfront'⟩ := hkeep (not_lt.mp hle)
      simp [hempty] at hfront'
    · intro hlt
      refine discard_eq_nil_iff.mpr fun p hp => ?_
      exact (h.current.sound.bounded p hp).2.trans_lt hlt

/-- The intervals left by a query begin behind its time, but for the first. -/
theorem Client.Wide.length_lt {latest timestamp : ℤ} {c : Client} (h : c.Wide latest)
    (hle : timestamp ≤ latest + timeout) :
    (((c.cleanup timestamp).connections.length : ℤ) - 2) * (timeout + 1) < latest - timestamp := by
  have hclean := h.cleanup.1 hle
  have hsep := hclean.current.sound.separated
  have hwide := hclean.wide
  have hbounded := hclean.current.sound.bounded
  cases hc : (c.cleanup timestamp).connections with
  | nil => exact absurd hc hclean.current.sound.nonempty
  | cons p rest =>
    rw [hc] at hsep hwide hbounded
    have hhead : (discard timestamp c.connections).head? = some p := congrArg List.head? hc
    have hfirst : timestamp ≤ p.2 := le_end_of_head_discard hhead
    obtain ⟨hbehind, hapart⟩ := List.pairwise_cons.mp hsep.apart
    rcases eq_or_ne rest [] with rfl | hne
    · simp [timeout] at hle ⊢
      omega
    · have hfilled : ((rest.length : ℤ) - 1) * (timeout + 1) ≤ latest - (timestamp + 1) :=
        (hsep.sublist (List.sublist_cons_self p rest)).filled
          (fun r hr => hwide r (List.mem_cons_of_mem _ hr))
          (fun r hr => Int.add_one_le_iff.mpr (hfirst.trans_lt (hbehind r hr)))
          (fun r hr => (hbounded r (List.mem_cons_of_mem _ hr)).1) hne
      rw [List.length_cons]
      push_cast
      linarith

theorem mem_addClient {cs cs' : Connections} {a : SockAddr} {t : ℤ} {d : Client}
    (hunique : cs.addresses.Nodup) (h : cs.addClient a t = .ok cs') (hd : d ∈ cs'.clients) :
    (d ∈ cs.clients ∧ d.address ≠ a) ∨ d = Client.new a t ∨
      ∃ c ∈ cs.clients, c.address = a ∧ d.address = a ∧ c.addConnection t = .ok d := by
  rcases addClient_cases h with ⟨hnew, hcs⟩ | ⟨front, c, c', rest, hcs, hca, hc', hcs'⟩
  · rw [hcs] at hd
    rcases List.mem_append.mp hd with hd | hd
    · exact Or.inl ⟨hd, fun heq => hnew (heq ▸ List.mem_map_of_mem hd)⟩
    · exact Or.inr (Or.inl (List.mem_singleton.mp hd))
  · obtain ⟨-, -, -, haddress, -⟩ := c.addConnection_cases hc'
    -- no other record has the address
    simp only [addresses, hcs, List.map_append, List.map_cons, List.nodup_middle, hca] at hunique
    have hfresh := (List.nodup_cons.mp hunique).1
    rw [hcs'] at hd
    rcases List.mem_append.mp hd with hd | hd
    · exact Or.inl ⟨by simp [hcs, hd], fun heq =>
        hfresh (heq ▸ List.mem_append_left _ (List.mem_map_of_mem hd))⟩
    · rcases List.mem_cons.mp hd with rfl | hd
      · exact Or.inr (Or.inr ⟨c, by simp [hcs], hca, haddress.trans hca, hc'⟩)
      · exact Or.inl ⟨by simp [hcs, hd], fun heq =>
          hfresh (heq ▸ List.mem_append_right _ (List.mem_map_of_mem hd))⟩

/-- Every address retained has one record, renewed when it registered last. -/
structure Tidy (calls : List Call) (cs : Connections) : Prop where
  unique : cs.addresses.Nodup
  current : ∀ c ∈ cs.clients, ∃ t, Retained calls c.address t ∧
    (∀ u, Retained calls c.address u → u ≤ t) ∧ c.Wide t
  known : ∀ a t, Retained calls a t → a ∈ cs.addresses

namespace Tidy
variable {calls : List Call} {cs cs' : Connections}

theorem empty : Tidy [] Connections.empty where
  unique := List.nodup_nil
  current := by simp [Connections.empty]
  known := by simp [Retained]

theorem records (h : Tidy calls cs) : ∀ c ∈ cs.clients, c.connections ≠ [] := by
  intro c hc
  obtain ⟨t, -, -, hwide⟩ := h.current c hc
  exact hwide.current.sound.nonempty

theorem mem_iff (h : Tidy calls cs) (a : SockAddr) :
    a ∈ cs.addresses ↔ ∃ t, Retained calls a t := by
  constructor
  · intro ha
    obtain ⟨c, hc, rfl⟩ := List.mem_map.mp ha
    obtain ⟨t, ht, -, -⟩ := h.current c hc
    exact ⟨t, ht⟩
  · rintro ⟨t, ht⟩
    exact h.known a t ht

theorem addClient (h : Tidy calls cs) {a : SockAddr} {t : ℤ}
    (ht : ∀ u, (a, u) ∈ registered calls → u ≤ t) (hadd : cs.addClient a t = .ok cs') :
    Tidy (calls ++ [.addClient a t]) cs' := by
  have hlatest : ∀ u, Retained (calls ++ [.addClient a t]) a u → u ≤ t := by
    intro u hu
    rcases retained_addClient.mp hu with ⟨-, rfl⟩ | hu
    · exact le_rfl
    · exact ht u hu.registered
  refine ⟨nodup_addClient h.unique hadd, ?_, ?_⟩
  · intro d hd
    rcases mem_addClient h.unique hadd hd with ⟨hd, hne⟩ | rfl | ⟨c, hc, hca, hda, hc'⟩
    · obtain ⟨u, hu, hmax, hwide⟩ := h.current d hd
      refine ⟨u, retained_addClient.mpr (Or.inr hu), ?_, hwide⟩
      intro v hv
      rcases retained_addClient.mp hv with ⟨heq, -⟩ | hv
      · exact absurd heq hne
      · exact hmax v hv
    · exact ⟨t, retained_addClient.mpr (Or.inl ⟨rfl, rfl⟩), hlatest, Client.Wide.new a t⟩
    · obtain ⟨u, hu, -, hwide⟩ := h.current c hc
      rw [hca] at hu
      rw [hda]
      exact ⟨t, retained_addClient.mpr (Or.inl ⟨rfl, rfl⟩), hlatest,
        hwide.renewed (ht u hu.registered) hc'⟩
  · intro b u hu
    rcases addClient_addresses hadd with ⟨-, hcs⟩ | ⟨hmem, hcs⟩
    · rw [hcs]
      rcases retained_addClient.mp hu with ⟨rfl, -⟩ | hu
      · simp
      · exact List.mem_append_left _ (h.known b u hu)
    · rw [hcs]
      rcases retained_addClient.mp hu with ⟨rfl, -⟩ | hu
      · exact hmem
      · exact h.known b u hu

theorem getClients (h : Tidy calls cs) {rule : EraseRule} (hrule : rule.GoesOn) {timestamp : ℤ}
    {exclude : Option SockAddr} {found : List SockAddr}
    (hget : cs.getClients rule timestamp exclude = .ok (cs', found)) :
    Tidy (calls ++ [.getClients timestamp exclude]) cs' ∧
      ∀ c ∈ cs'.clients, exclude ≠ some c.address → ∃ t, (c.address, t) ∈ registered calls ∧
        ((c.connections.length : ℤ) - 2) * (timeout + 1) < t - timestamp := by
  have hunique : cs'.addresses.Nodup :=
    h.unique.sublist (getClients_traversed hget).kept_sublist
  rw [getClients_eq hrule] at hget
  cases hget
  -- what becomes of the record of an address that is not excluded
  have hkept : ∀ c ∈ cs.clients, ∀ c', exclude ≠ some c.address →
      visit timestamp exclude c = some c' → ∃ t, Retained calls c.address t ∧
        (∀ u, Retained calls c.address u → u ≤ t) ∧ timestamp ≤ t + timeout ∧ c'.Wide t ∧
        ((c'.connections.length : ℤ) - 2) * (timeout + 1) < t - timestamp := by
    intro c hc c' hother hvisit
    obtain ⟨t, ht, hmax, hwide⟩ := h.current c hc
    rw [visit, if_neg hother] at hvisit
    split_ifs at hvisit with hempty
    cases hvisit
    have hle : timestamp ≤ t + timeout := not_lt.mp fun hlt => hempty (hwide.cleanup.2.mpr hlt)
    exact ⟨t, ht, hmax, hle, hwide.cleanup.1 hle, hwide.length_lt hle⟩
  refine ⟨⟨hunique, ?_, ?_⟩, ?_⟩
  · intro c' hc'
    obtain ⟨c, hc, hvisit⟩ := List.mem_filterMap.mp hc'
    rw [visit_address hvisit]
    by_cases hother : exclude = some c.address
    · obtain ⟨t, ht, hmax, hwide⟩ := h.current c hc
      rw [visit, if_pos hother] at hvisit
      cases hvisit
      exact ⟨t, retained_getClients.mpr ⟨ht, Or.inl hother⟩,
        fun u hu => hmax u (retained_getClients.mp hu).1, hwide⟩
    · obtain ⟨t, ht, hmax, hle, hwide, -⟩ := hkept c hc c' hother hvisit
      exact ⟨t, retained_getClients.mpr ⟨ht, Or.inr hle⟩,
        fun u hu => hmax u (retained_getClients.mp hu).1, hwide⟩
  · intro a u hu
    obtain ⟨hu, hle⟩ := retained_getClients.mp hu
    obtain ⟨c, hc, rfl⟩ := List.mem_map.mp (h.known a u hu)
    have hvisit : ∃ c', visit timestamp exclude c = some c' := by
      rw [visit]
      split_ifs with hother hempty
      · exact ⟨c, rfl⟩
      · obtain ⟨t, -, hmax, hwide⟩ := h.current c hc
        have hlt := hwide.cleanup.2.mp hempty
        have hut := hmax u hu
        rcases hle with hexcluded | hle
        · exact absurd hexcluded hother
        · omega
      · exact ⟨_, rfl⟩
    obtain ⟨c', hvisit⟩ := hvisit
    rw [← visit_address hvisit]
    exact List.mem_map_of_mem (List.mem_filterMap.mpr ⟨c, hc, hvisit⟩)
  · intro c' hc' hother
    obtain ⟨c, hc, hvisit⟩ := List.mem_filterMap.mp hc'
    rw [visit_address hvisit] at hother ⊢
    obtain ⟨t, ht, -, -, -, hlength⟩ := hkept c hc c' hother hvisit
    exact ⟨t, ht.registered, hlength⟩

end Tidy

theorem run_tidy {rule : EraseRule} (hrule : rule.GoesOn) (calls : List Call)
    (h : (registered calls).Pairwise fun v u => v.1 = u.1 → v.2 ≤ u.2) :
    ∃ cs answers, TracedRun.run (call rule) Connections.empty calls = .ok (cs, answers) ∧
      Tidy calls cs := by
  induction calls using List.reverseRecOn with
  | nil => exact ⟨_, _, rfl, Tidy.empty⟩
  | append_singleton past last ih =>
    rw [registered, List.filterMap_append, List.pairwise_append] at h
    obtain ⟨cs, answers, hrun, htidy⟩ := ih h.1
    cases last with
    | addClient a t =>
      obtain ⟨cs', hadd⟩ := addClient_total htidy.records a t
      have hstep : call rule cs (.addClient a t) = .ok (cs', []) := by
        rw [call, hadd]
        rfl
      refine ⟨cs', answers ++ [], TracedRun.run_append_ok.mpr
        ⟨cs, answers, [], hrun, TracedRun.run_singleton_ok.mpr hstep, rfl⟩, ?_⟩
      exact htidy.addClient (fun u hu => h.2.2 (a, u) hu (a, t) (by simp) rfl) hadd
    | getClients timestamp exclude =>
      obtain ⟨cs', found, hget⟩ := getClients_total hrule.staysInside cs timestamp exclude
      have hstep : call rule cs (.getClients timestamp exclude) = .ok (cs', [found]) := by
        rw [call, hget]
        rfl
      refine ⟨cs', answers ++ [found], TracedRun.run_append_ok.mpr
        ⟨cs, answers, [found], hrun, TracedRun.run_singleton_ok.mpr hstep, rfl⟩, ?_⟩
      exact (htidy.getClients hrule hget).1

end SikUdp.Connections
