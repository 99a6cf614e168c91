import SikUdp.Roster.Presence

/-!
# Histories of calls

Any interleaving of registrations and queries on an initially empty record of
clients, with registration times and query times each non-decreasing. A query
may lag behind registrations that were already made.
-/
namespace SikUdp.Connections

inductive Call where
  | addClient (address : SockAddr) (connectionTime : ℤ)
  | getClients (timestamp : ℤ) (exclude : Option SockAddr)
  deriving DecidableEq, Repr

/-- One call; the answers of queries are recorded. -/
def call (rule : EraseRule) (cs : Connections) :
    Call → Except Abort (Connections × List (List SockAddr))
  | .addClient address connectionTime =>
    (cs.addClient address connectionTime).map fun cs' => (cs', [])
  | .getClients timestamp exclude =>
    (cs.getClients rule timestamp exclude).map fun r => (r.1, [r.2])

def registered (calls : List Call) : List (SockAddr × ℤ) :=
  calls.filterMap fun
    | .addClient address connectionTime => some (address, connectionTime)
    | .getClients _ _ => none

def queried (calls : List Call) : List ℤ :=
  calls.filterMap fun
    | .addClient _ _ => none
    | .getClients timestamp _ => some timestamp

/-- Registration times and query times are non-decreasing. -/
structure Chronological (calls : List Call) : Prop where
  additions : ((registered calls).map Prod.snd).Pairwise (· ≤ ·)
  queries : (queried calls).Pairwise (· ≤ ·)

theorem Chronological.of_append {past later : List Call} (h : Chronological (past ++ later)) :
    Chronological past := by
  obtain ⟨ha, hq⟩ := h
  simp only [registered, queried, List.filterMap_append, List.map_append] at ha hq
  exact ⟨(List.pairwise_append.mp ha).1, (List.pairwise_append.mp hq).1⟩

theorem Chronological.addClient_last {past : List Call} {a : SockAddr} {t : ℤ}
    (h : Chronological (past ++ [.addClient a t])) : ∀ u ∈ registered past, u.2 ≤ t := by
  have ha := h.additions
  simp only [registered, List.filterMap_append, List.map_append] at ha
  intro u hu
  exact (List.pairwise_append.mp ha).2.2 u.2 (List.mem_map_of_mem hu) t (by simp)

theorem Chronological.getClients_last {past : List Call} {ts : ℤ} {exclude : Option SockAddr}
    (h : Chronological (past ++ [.getClients ts exclude])) : ∀ q ∈ queried past, q ≤ ts := by
  have hq := h.queries
  simp only [queried, List.filterMap_append] at hq
  intro q hmem
  exact (List.pairwise_append.mp hq).2.2 q hmem ts (by simp)

theorem run_represents {rule : EraseRule} (hrule : rule.GoesOn) (calls : List Call)
    (h : Chronological calls) :
    ∃ cs answers, TracedRun.run (call rule) Connections.empty calls = .ok (cs, answers) ∧
      Represents (registered calls) (queried calls) cs := by
  induction calls using List.reverseRecOn with
  | nil => exact ⟨_, _, rfl, Represents.empty⟩
  | append_singleton past last ih =>
    obtain ⟨cs, answers, hrun, hrep⟩ := ih h.of_append
    cases last with
    | addClient a t =>
      obtain ⟨cs', hadd⟩ := addClient_total hrep.nonempty a t
      have hstep : call rule cs (.addClient a t) = .ok (cs', []) := by
        rw [call, hadd]
        rfl
      refine ⟨cs', answers ++ [], TracedRun.run_append_ok.mpr
        ⟨cs, answers, [], hrun, TracedRun.run_singleton_ok.mpr hstep, rfl⟩, ?_⟩
      simpa [registered, queried] using hrep.addClient h.addClient_last hadd
    | getClients ts exclude =>
      obtain ⟨cs', found, hget⟩ := getClients_total hrule.staysInside cs ts exclude
      have hstep : call rule cs (.getClients ts exclude) = .ok (cs', [found]) := by
        rw [call, hget]
        rfl
      refine ⟨cs', answers ++ [found], TracedRun.run_append_ok.mpr
        ⟨cs, answers, [found], hrun, TracedRun.run_singleton_ok.mpr hstep, rfl⟩, ?_⟩
      simpa [registered, queried] using (hrep.getClients hrule h.getClients_last hget).1

/-- Every query of a chronological history returns, each once and in the order of
the records, the addresses other than the excluded one that registered at most two
minutes before; and no record met by a registration has an empty queue. -/
theorem window_exact {rule : EraseRule} (hrule : rule.GoesOn) (calls : List Call)
    (h : Chronological calls) :
    (∀ past ts exclude later, calls = past ++ .getClients ts exclude :: later →
      ∃ cs answers cs' found,
        TracedRun.run (call rule) Connections.empty past = .ok (cs, answers) ∧
        cs.getClients rule ts exclude = .ok (cs', found) ∧
        found.Nodup ∧ found.Sublist cs.addresses ∧
        ∀ a, a ∈ found ↔ exclude ≠ some a ∧
          ∃ t, Call.addClient a t ∈ past ∧ t ≤ ts ∧ ts ≤ t + timeout) ∧
    (∀ past a t later, calls = past ++ .addClient a t :: later →
      ∃ cs answers cs',
        TracedRun.run (call rule) Connections.empty past = .ok (cs, answers) ∧
        (∀ c ∈ cs.clients, c.connections ≠ []) ∧ cs.addClient a t = .ok cs') := by
  constructor
  · intro past ts exclude later hcalls
    have hsplit : calls = (past ++ [.getClients ts exclude]) ++ later := by simp [hcalls]
    have hchron : Chronological (past ++ [.getClients ts exclude]) := (hsplit ▸ h).of_append
    obtain ⟨cs, answers, hrun, hrep⟩ := run_represents hrule past hchron.of_append
    obtain ⟨cs', found, hget⟩ := getClients_total hrule.staysInside cs ts exclude
    have htrav := getClients_traversed hget
    refine ⟨cs, answers, cs', found, hrun, hget, hrep.unique.sublist htrav.found_sublist,
      htrav.found_sublist, fun a => ?_⟩
    rw [(hrep.getClients hrule hchron.getClients_last hget).2 a, mem_present]
    have hmem : ∀ t, (a, t) ∈ registered past ↔ Call.addClient a t ∈ past := by
      intro t
      rw [registered, List.mem_filterMap]
      constructor
      · rintro ⟨c, hc, heq⟩
        cases c with
        | addClient b u => simp_all
        | getClients ts exclude => simp at heq
      · exact fun hc => ⟨_, hc, rfl⟩
    simp only [hmem]
  · intro past a t later hcalls
    obtain ⟨cs, answers, hrun, hrep⟩ := run_represents hrule past (hcalls ▸ h).of_append
    obtain ⟨cs', hadd⟩ := addClient_total hrep.nonempty a t
    exact ⟨cs, answers, cs', hrun, hrep.nonempty, hadd⟩

/-- The history of the test on removing old connections, with a query that lags. -/
def sampleCalls : List Call :=
  [.addClient ⟨10, 1⟩ 0, .addClient ⟨10, 1⟩ 240, .getClients 120 none, .getClients 121 none,
    .addClient ⟨10, 2⟩ 240, .getClients 300 (some ⟨10, 2⟩)]

theorem window_exact_sample :
    ∃ cs answers cs' found,
      TracedRun.run (call EraseRule.next) Connections.empty (sampleCalls.take 5) =
        .ok (cs, answers) ∧
      cs.getClients EraseRule.next 300 (some ⟨10, 2⟩) = .ok (cs', found) ∧
      found.Nodup ∧ found.Sublist cs.addresses ∧
      ∀ a, a ∈ found ↔ some ⟨10, 2⟩ ≠ some a ∧
        ∃ t, Call.addClient a t ∈ sampleCalls.take 5 ∧ t ≤ 300 ∧ 300 ≤ t + timeout :=
  (window_exact EraseRule.next_goesOn sampleCalls ⟨by decide, by decide⟩).1
    (sampleCalls.take 5) 300 (some ⟨10, 2⟩) [] rfl

end SikUdp.Connections
