import Mathlib.Tactic

/-!
# Serving jobs one after another, with retries

Each job has a list of recipients, and serving one recipient adds an entry to a
log. A recipient that cannot be served now is moved to the end of the list of those
still missing. The log is then the concatenation, job by job, of entries for a
permutation of the recipients, complete for every job but the last. For one recipient it
is a list of entries for the jobs in their order, none of them twice.

In a round each of the missing recipients has its turn once. Depending on the answer it is
done with, or goes behind the others, those without a turn yet first.
-/

universe u v w

/-- The log of the jobs started so far; `missing` are the recipients that the last one
still has to be served to. -/
inductive DeliveryLog {ι : Type u} {τ : Type v} {α : Type w} (recipients : ι → List α)
    (address : τ → α) (Carries : ι → τ → Prop) : List ι → List τ → List α → Prop
  | empty : DeliveryLog recipients address Carries [] [] []
  | job {jobs : List ι} {log group : List τ} {job : ι} {missing : List α}
      (before : DeliveryLog recipients address Carries jobs log [])
      (hgroup : (group.map address ++ missing).Perm (recipients job))
      (hcarries : ∀ entry ∈ group, Carries job entry) :
      DeliveryLog recipients address Carries (jobs ++ [job]) (log ++ group) missing

namespace DeliveryLog

variable {ι : Type u} {τ : Type v} {α : Type w} {recipients : ι → List α} {address : τ → α}
  {Carries : ι → τ → Prop} {jobs : List ι} {log : List τ} {missing : List α}

/-- A new job is started when nobody is missing. -/
theorem start (h : DeliveryLog recipients address Carries jobs log []) (job : ι) :
    DeliveryLog recipients address Carries (jobs ++ [job]) log (recipients job) := by
  rw [← List.append_nil log]
  exact .job h (List.Perm.refl (recipients job)) (by simp)

theorem reorder {missing' : List α} (h : DeliveryLog recipients address Carries jobs log missing)
    (hperm : missing.Perm missing') :
    DeliveryLog recipients address Carries jobs log missing' := by
  cases h with
  | empty =>
    rw [hperm.symm.eq_nil]
    exact .empty
  | job before hgroup hcarries =>
    exact .job before ((hperm.symm.append_left _).trans hgroup) hcarries

theorem last {a : α} (h : DeliveryLog recipients address Carries jobs log (a :: missing)) :
    ∃ front job, jobs = front ++ [job] ∧ a ∈ recipients job := by
  cases h with
  | job before hgroup hcarries =>
    exact ⟨_, _, rfl, hgroup.subset (by simp)⟩

theorem serve {entry : τ}
    (h : DeliveryLog recipients address Carries jobs log (address entry :: missing))
    (hcarries : ∀ front job, jobs = front ++ [job] → Carries job entry) :
    DeliveryLog recipients address Carries jobs (log ++ [entry]) missing := by
  cases h with
  | job before hgroup hgroupCarries =>
    rw [List.append_assoc]
    refine .job before ?_ ?_
    · simpa using hgroup
    · intro e he
      rcases List.mem_append.mp he with he | he
      · exact hgroupCarries e he
      · rw [List.mem_singleton.mp he]
        exact hcarries _ _ rfl

section Recipient
variable [DecidableEq α] {group : List τ}

theorem filter_address (hunique : (group.map address).Nodup) (a : α) :
    (a ∉ group.map address ∧ (group.filter fun e => address e = a) = []) ∨
      ∃ entry ∈ group, address entry = a ∧ (group.filter fun e => address e = a) = [entry] := by
  induction group with
  | nil => exact Or.inl ⟨by simp, rfl⟩
  | cons e group ih =>
    rw [List.map_cons, List.nodup_cons] at hunique
    rcases ih hunique.2 with ⟨hnone, hfilter⟩ | ⟨entry, hentry, ha, hfilter⟩
    · by_cases he : address e = a
      · exact Or.inr ⟨e, List.mem_cons_self, he, by simp [he, hfilter]⟩
      · exact Or.inl ⟨by simp [Ne.symm he, hnone], by simp [he, hfilter]⟩
    · have he : address e ≠ a := by
        rintro rfl
        exact hunique.1 (ha ▸ List.mem_map_of_mem hentry)
      exact Or.inr ⟨entry, List.mem_cons_of_mem e hentry, ha, by simp [he, hfilter]⟩

/-- The entries for one recipient are for jobs it is a recipient of, in order and each at
most once. If it is missing from no job they are for all of these. -/
theorem entries_for (h : DeliveryLog recipients address Carries jobs log missing)
    (hunique : ∀ job ∈ jobs, (recipients job).Nodup) (a : α) :
    ∃ served, List.Forall₂ Carries served (log.filter fun e => address e = a) ∧
      served.Sublist (jobs.filter fun job => a ∈ recipients job) ∧
      (a ∉ missing → served = jobs.filter fun job => a ∈ recipients job) := by
  induction h with
  | empty => exact ⟨[], .nil, .slnil, fun _ => rfl⟩
  | @job jobs log group job missing before hgroup hcarries ih =>
    obtain ⟨served, hserved, -, hall⟩ := ih fun j hj => hunique j (List.mem_append_left _ hj)
    have heq := hall List.not_mem_nil
    have hdistinct : (group.map address ++ missing).Nodup :=
      hgroup.nodup_iff.mpr (hunique job (by simp))
    have hmem : a ∈ recipients job ↔ a ∈ group.map address ∨ a ∈ missing := by
      rw [← hgroup.mem_iff, List.mem_append]
    simp only [List.filter_append]
    rcases filter_address hdistinct.of_append_left a with ⟨hnone, hfilter⟩ |
        ⟨entry, hentry, ha, hfilter⟩
    · rw [hfilter, List.append_nil]
      refine ⟨served, hserved, heq ▸ List.sublist_append_left _ _, fun hmissing => ?_⟩
      have hother : a ∉ recipients job := fun hin => (hmem.mp hin).elim hnone hmissing
      simp [heq, hother]
    · have hin : a ∈ recipients job := hmem.mpr (Or.inl (ha ▸ List.mem_map_of_mem hentry))
      have hlast : List.Forall₂ Carries [job] [entry] := .cons (hcarries entry hentry) .nil
      have hjobs : ([job].filter fun job => a ∈ recipients job) = [job] := by simp [hin]
      rw [hfilter, hjobs, ← heq]
      exact ⟨served ++ [job], List.rel_append hserved hlast, List.Sublist.refl _, fun _ => rfl⟩

end Recipient

end DeliveryLog

namespace RoundRobin

variable {α β : Type*} (done : β → Bool)

/-- Who was served with which answer, and the queue left behind. -/
def serve : List α → List β → List (α × β) × List α
  | queue, [] => ([], queue)
  | [], _ :: _ => ([], [])
  | a :: rest, answer :: answers =>
    let later := serve (if done answer then rest else rest ++ [a]) answers
    ((a, answer) :: later.1, later.2)

theorem serve_eq {queue : List α} {answers : List β} (h : answers.length ≤ queue.length)
    (behind : List α) :
    serve done (queue ++ behind) answers =
      (queue.zip answers, queue.drop answers.length ++ behind ++
        ((queue.zip answers).filter fun p => !done p.2).map Prod.fst) := by
  induction answers generalizing queue behind with
  | nil => simp [serve]
  | cons answer answers ih =>
    cases queue with
    | nil => simp at h
    | cons a rest =>
      have hrest : answers.length ≤ rest.length := by simpa using h
      rw [List.cons_append, serve]
      cases hdone : done answer with
      | true => simp [ih hrest, hdone]
      | false =>
        have hlater := ih hrest (behind ++ [a])
        simp only [List.append_assoc, List.singleton_append] at hlater
        simp [hlater, hdone]

end RoundRobin
