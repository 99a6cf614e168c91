import SikUdp.Roster.Retention
import SikUdp.Runs.Recipients

/-!
# Whom the server remembers

The record of clients is what the calls since the start make of an empty one. So the server
remembers an address until it takes a message of another client that came more than two
minutes after the last datagram from there.
-/
namespace SikUdp.Server

variable {bufferSize : ℕ} {rule : EraseRule}

theorem registered_callsOf (trace : List Event) :
    Connections.registered (callsOf trace) = registrations trace := by
  rw [Connections.registered, callsOf, registrations, observations, List.filterMap_filterMap,
    List.filterMap_filterMap]
  congr 1
  funext e
  cases e <;> rfl

theorem retained_callsOf {trace : List Event} {a : SockAddr} {t : ℤ} :
    Connections.Retained (callsOf trace) a t ↔ ∃ before after,
      trace = before ++ .registered a t :: after ∧
        ∀ item recipients, .popped item recipients ∈ after →
          item.sender = a ∨ item.arrivalTime ≤ t + timeout := by
  constructor
  · rintro ⟨before, after, hsplit, hlater⟩
    obtain ⟨front, rest, rfl, -, hrest⟩ := List.filterMap_eq_append_iff.mp hsplit
    obtain ⟨skipped, e, later, rfl, hskipped, he, rfl⟩ := List.filterMap_eq_cons_iff.mp hrest
    have hregistered : e = .registered a t := by
      cases e <;> simp_all [callOf]
    subst hregistered
    refine ⟨front ++ skipped, later, by simp, ?_⟩
    intro item recipients hmem
    exact (hlater _ _ (popped_mem_callsOf hmem)).imp_left Option.some.inj
  · rintro ⟨before, after, rfl, hlater⟩
    refine ⟨callsOf before, callsOf after, callsOf_append _ _, ?_⟩
    intro timestamp exclude hmem
    obtain ⟨e, he, hcall⟩ := List.mem_filterMap.mp hmem
    cases e with
    | popped item recipients =>
      cases hcall
      exact (hlater item recipients he).imp_left (congrArg some)
    | _ => cases hcall

/-- If the traversal goes on behind an erased record and no address registers at a time before
an earlier registration of its own, a server has one record for every address that registered
at a time from which on every message taken from the buffer, unless it was sent from there,
had arrived at most two minutes later; and no other record. -/
theorem remembered_iff (hrule : rule.GoesOn) {s₀ s : Server bufferSize} (hs₀ : s₀.Constructed)
    {inputs : List Input} {trace : List Event}
    (h : TracedRun.run (step rule) s₀ inputs = .ok (s, trace))
    (hclock : (registrations trace).Pairwise fun v u => v.1 = u.1 → v.2 ≤ u.2) :
    s.connections.addresses.Nodup ∧ ∀ a, a ∈ s.connections.addresses ↔ ∃ before t after,
      trace = before ++ .registered a t :: after ∧
        ∀ item recipients, .popped item recipients ∈ after →
          item.sender = a ∨ item.arrivalTime ≤ t + timeout := by
  obtain ⟨answers, hrun⟩ := run_recorded hs₀ h
  obtain ⟨cs, answers', hrun', htidy⟩ := Connections.run_tidy hrule (callsOf trace)
    (by rwa [registered_callsOf])
  obtain ⟨rfl, -⟩ := Prod.mk.inj (Except.ok.inj (hrun.symm.trans hrun'))
  refine ⟨htidy.unique, fun a => ?_⟩
  rw [htidy.mem_iff]
  simp only [retained_callsOf]
  constructor
  · rintro ⟨t, before, after, hretained⟩
    exact ⟨before, t, after, hretained⟩
  · rintro ⟨before, t, after, hretained⟩
    exact ⟨t, before, after, hretained⟩

theorem remembered_iff_sample :
    ∃ s, TracedRun.run (step .next) sampleServer sampleInputs = .ok (s, sampleTrace) ∧
      ⟨10, 1⟩ ∈ s.connections.addresses := by
  obtain ⟨s, hrun, -⟩ := sampleInputs_run
  obtain ⟨-, hremembered⟩ :=
    remembered_iff EraseRule.next_goesOn sampleServer_constructed hrun (by decide)
  refine ⟨s, hrun, (hremembered _).mpr ⟨[_], 0, _, rfl, ?_⟩⟩
  intro item recipients hmem
  have htaken : item = sampleItem ⟨10, 2⟩ ∨ item = sampleItem ⟨10, 3⟩ := by
    simp at hmem
    exact hmem.imp And.left And.left
  rcases htaken with rfl | rfl <;> exact Or.inr (by decide)

end SikUdp.Server
