import Mathlib.Tactic

/-!
# Runs of a deterministic machine that records events

`step` consumes one input and either fails or yields the next state with the
events of that step. A run feeds a list of inputs and concatenates the events.
The invariant rule relates the whole recorded trace to the state it led to, and
`Along` speaks about every event of a trace together with the events before it.
-/
namespace TracedRun

universe u

variable {σ ι τ ε : Type*}

section Partial

theorem bind_ok_iff {α β : Type u} {x : Except ε α} {f : α → Except ε β} {b : β} :
    (x >>= f) = .ok b ↔ ∃ a, x = .ok a ∧ f a = .ok b := by
  cases x with
  | error e => simp [bind, Except.bind]
  | ok a => simp [bind, Except.bind]

theorem map_ok_iff {α β : Type*} {x : Except ε α} {f : α → β} {b : β} :
    x.map f = .ok b ↔ ∃ a, x = .ok a ∧ f a = b := by
  cases x with
  | error e => simp [Except.map]
  | ok a => simp [Except.map]

theorem bind_error_iff {α β : Type u} {x : Except ε α} {f : α → Except ε β} {e : ε} :
    (x >>= f) = .error e ↔ x = .error e ∨ ∃ a, x = .ok a ∧ f a = .error e := by
  cases x with
  | error e => simp [bind, Except.bind]
  | ok a => simp [bind, Except.bind]

theorem map_error_iff {α β : Type*} {x : Except ε α} {f : α → β} {e : ε} :
    x.map f = .error e ↔ x = .error e := by
  cases x <;> simp [Except.map]

theorem exists_map_ok_iff {α β : Type*} {x : Except ε α} {f : α → β} :
    (∃ b, x.map f = .ok b) ↔ ∃ a, x = .ok a := by
  cases x <;> simp [Except.map]

theorem map_map {α β γ : Type*} (x : Except ε α) (f : α → β) (g : β → γ) :
    (x.map f).map g = x.map fun a => g (f a) := by
  cases x <;> rfl

end Partial

/-- The first failing step ends the run. -/
def run (step : σ → ι → Except ε (σ × List τ)) : σ → List ι → Except ε (σ × List τ)
  | s, [] => .ok (s, [])
  | s, i :: is => do
    let (s₁, events) ← step s i
    let (s₂, later) ← run step s₁ is
    .ok (s₂, events ++ later)

variable {step : σ → ι → Except ε (σ × List τ)}

@[simp] theorem run_nil (s : σ) : run step s [] = .ok (s, []) := rfl

theorem run_cons_ok {s s₂ : σ} {i : ι} {is : List ι} {trace : List τ} :
    run step s (i :: is) = .ok (s₂, trace) ↔
      ∃ s₁ events later, step s i = .ok (s₁, events) ∧ run step s₁ is = .ok (s₂, later) ∧
        trace = events ++ later := by
  rw [run, bind_ok_iff]
  constructor
  · rintro ⟨⟨s₁, events⟩, hstep, hrest⟩
    obtain ⟨⟨s₃, later⟩, hrun, heq⟩ := bind_ok_iff.mp hrest
    cases heq
    exact ⟨s₁, events, later, hstep, hrun, rfl⟩
  · rintro ⟨s₁, events, later, hstep, hrun, rfl⟩
    exact ⟨(s₁, events), hstep, bind_ok_iff.mpr ⟨(s₂, later), hrun, rfl⟩⟩

theorem run_append_ok {s s₂ : σ} {is js : List ι} {trace : List τ} :
    run step s (is ++ js) = .ok (s₂, trace) ↔
      ∃ s₁ events later, run step s is = .ok (s₁, events) ∧ run step s₁ js = .ok (s₂, later) ∧
        trace = events ++ later := by
  induction is generalizing s trace with
  | nil => simp
  | cons i is ih =>
    simp only [List.cons_append, run_cons_ok, ih]
    constructor
    · rintro ⟨s₁, e₁, l₁, hstep, ⟨s₃, e₂, l₂, hrun, hrest, rfl⟩, rfl⟩
      exact ⟨s₃, e₁ ++ e₂, l₂, ⟨s₁, e₁, e₂, hstep, hrun, rfl⟩, hrest, by simp⟩
    · rintro ⟨s₃, events, l₂, ⟨s₁, e₁, e₂, hstep, hrun, rfl⟩, hrest, rfl⟩
      exact ⟨s₁, e₁, e₂ ++ l₂, hstep, ⟨s₃, e₂, l₂, hrun, hrest, rfl⟩, by simp⟩

theorem run_singleton_ok {s s₁ : σ} {i : ι} {trace : List τ} :
    run step s [i] = .ok (s₁, trace) ↔ step s i = .ok (s₁, trace) := by
  simp [run_cons_ok]

theorem run_singleton (s : σ) (i : ι) : run step s [i] = step s i := by
  simp only [run, bind, Except.bind]
  cases step s i with
  | error e => rfl
  | ok r => simp

theorem run_append (s : σ) (is js : List ι) :
    run step s (is ++ js) =
      (run step s is) >>= fun r => (run step r.1 js).map fun q => (q.1, r.2 ++ q.2) := by
  induction is generalizing s with
  | nil =>
    cases hrun : run step s js <;> simp [bind, Except.bind, Except.map, hrun]
  | cons i is ih =>
    simp only [List.cons_append, run, bind, Except.bind] at ih ⊢
    cases step s i with
    | error e => rfl
    | ok r =>
      simp only [ih]
      cases run step r.1 is with
      | error e => rfl
      | ok q =>
        cases hrun : run step q.1 js <;> simp [Except.map, hrun]

theorem run_echo {echo : σ → ι → Except ε (σ × List ι)}
    (hstep : ∀ s i s' events, echo s i = .ok (s', events) → events = [i])
    {s s' : σ} {is trace : List ι} (h : run echo s is = .ok (s', trace)) : trace = is := by
  induction is generalizing s trace with
  | nil =>
    cases h
    rfl
  | cons i is ih =>
    obtain ⟨s₁, events, later, hfirst, hrest, rfl⟩ := run_cons_ok.mp h
    rw [hstep s i s₁ events hfirst, ih hrest, List.singleton_append]

theorem run_total {Good : σ → Prop}
    (hstep : ∀ s i, Good s → ∃ s' events, step s i = .ok (s', events) ∧ Good s')
    {s : σ} (is : List ι) (hs : Good s) :
    ∃ s' trace, run step s is = .ok (s', trace) ∧ Good s' := by
  induction is generalizing s with
  | nil => exact ⟨s, [], rfl, hs⟩
  | cons i is ih =>
    obtain ⟨s₁, events, h₁, hs₁⟩ := hstep s i hs
    obtain ⟨s₂, later, h₂, hs₂⟩ := ih hs₁
    exact ⟨s₂, events ++ later, run_cons_ok.mpr ⟨s₁, events, later, h₁, h₂, rfl⟩, hs₂⟩

theorem run_error {Good : σ → Prop} {Fine : ε → Prop}
    (hgood : ∀ s i s' events, Good s → step s i = .ok (s', events) → Good s')
    (hstep : ∀ s i e, Good s → step s i = .error e → Fine e) {s : σ} {is : List ι} {e : ε}
    (hs : Good s) (h : run step s is = .error e) : Fine e := by
  induction is generalizing s with
  | nil => cases h
  | cons i is ih =>
    rcases bind_error_iff.mp h with hfirst | ⟨⟨s₁, events⟩, hfirst, hrest⟩
    · exact hstep s i e hs hfirst
    · rcases bind_error_iff.mp hrest with hlater | ⟨r, -, hdone⟩
      · exact ih (hgood s i s₁ events hs hfirst) hlater
      · cases hdone

/-- A measure that no step increases and that working steps decrease, unless the machine is
done for good: after more of these than the measure counts it is done. -/
theorem run_measure {Good Done : σ → Prop} {A : ι → Prop} {works : ι → Bool}
    {measure : σ → ℕ}
    (hstep : ∀ s i, Good s → A i → ∃ s' events, step s i = .ok (s', events) ∧ Good s' ∧
      (Done s → Done s') ∧ (Done s' ∨ measure s' + (if works i then 1 else 0) ≤ measure s))
    {s : σ} {is : List ι} (hallowed : ∀ i ∈ is, A i) (hs : Good s) :
    ∃ s' trace, run step s is = .ok (s', trace) ∧ Good s' ∧ (Done s → Done s') ∧
      (Done s' ∨ measure s' + is.countP works ≤ measure s) := by
  induction is generalizing s with
  | nil => exact ⟨s, [], rfl, hs, id, Or.inr (by simp)⟩
  | cons i is ih =>
    rw [List.forall_mem_cons] at hallowed
    obtain ⟨s₁, events, h₁, hs₁, hkeep₁, hless₁⟩ := hstep s i hs hallowed.1
    obtain ⟨s₂, later, h₂, hs₂, hkeep₂, hless₂⟩ := ih hallowed.2 hs₁
    refine ⟨s₂, events ++ later, run_cons_ok.mpr ⟨s₁, events, later, h₁, h₂, rfl⟩, hs₂,
      fun hdone => hkeep₂ (hkeep₁ hdone), ?_⟩
    rcases hless₁ with hdone | hless₁
    · exact Or.inl (hkeep₂ hdone)
    · refine hless₂.imp_right fun hless₂ => ?_
      rw [List.countP_cons]
      omega

/-- A machine whose related steps record the same events records the same runs. -/
theorem run_simulates {ρ : Type*} {spec : ρ → ι → Except ε (ρ × List τ)} {R : σ → ρ → Prop}
    (hstep : ∀ s r i, R s r → ∃ s' r' events,
      step s i = .ok (s', events) ∧ spec r i = .ok (r', events) ∧ R s' r')
    {s : σ} {r : ρ} (is : List ι) (h : R s r) :
    ∃ s' r' trace, run step s is = .ok (s', trace) ∧ run spec r is = .ok (r', trace) ∧ R s' r' := by
  induction is generalizing s r with
  | nil => exact ⟨s, r, [], rfl, rfl, h⟩
  | cons i is ih =>
    obtain ⟨s₁, r₁, events, hs₁, hr₁, h₁⟩ := hstep s r i h
    obtain ⟨s₂, r₂, later, hs₂, hr₂, h₂⟩ := ih h₁
    exact ⟨s₂, r₂, events ++ later, run_cons_ok.mpr ⟨s₁, events, later, hs₁, hs₂, rfl⟩,
      run_cons_ok.mpr ⟨r₁, events, later, hr₁, hr₂, rfl⟩, h₂⟩

/-- Runs on related inputs from related states are related, and what can be seen of their
events is the same, if that holds of single steps. -/
theorem run_related {β : Type*} {view : τ → β} {R : σ → σ → Prop} {Q : ι → ι → Prop}
    (hstep : ∀ s t i j s' events, R s t → Q i j → step s i = .ok (s', events) →
      ∃ t' events', step t j = .ok (t', events') ∧ R s' t' ∧ events'.map view = events.map view)
    {s t s' : σ} {is js : List ι} {trace : List τ} (hinputs : List.Forall₂ Q is js) (hR : R s t)
    (h : run step s is = .ok (s', trace)) :
    ∃ t' trace', run step t js = .ok (t', trace') ∧ R s' t' ∧
      trace'.map view = trace.map view := by
  induction hinputs generalizing s t trace with
  | nil =>
    cases h
    exact ⟨t, [], rfl, hR, rfl⟩
  | @cons i j is js hQ _ ih =>
    obtain ⟨s₁, events, later, hfirst, hrest, rfl⟩ := run_cons_ok.mp h
    obtain ⟨t₁, events', hfirst', hR₁, hview⟩ := hstep s t i j s₁ events hR hQ hfirst
    obtain ⟨t₂, later', hrest', hR₂, hview'⟩ := ih hR₁ hrest
    refine ⟨t₂, events' ++ later', run_cons_ok.mpr ⟨t₁, events', later', hfirst', hrest', rfl⟩, hR₂,
      ?_⟩
    rw [List.map_append, List.map_append, hview, hview']

section Conditions

variable {I : List τ → σ → Prop} {Meets : List τ → σ → ι → Prop}

/-- An invariant that steps preserve if they meet a condition holds after every prefix of
a run all of whose steps meet it. -/
theorem run_prefix {s : σ} (hs : I [] s)
    (hstep : ∀ past s i, I past s → Meets past s i →
      ∃ s' events, step s i = .ok (s', events) ∧ I (past ++ events) s')
    {is : List ι} (hmeets : ∀ before i after s₁ trace, is = before ++ i :: after →
      run step s before = .ok (s₁, trace) → Meets trace s₁ i)
    (before after : List ι) (his : is = before ++ after) :
    ∃ s₁ trace, run step s before = .ok (s₁, trace) ∧ I trace s₁ := by
  induction before using List.reverseRecOn generalizing after with
  | nil => exact ⟨s, [], rfl, hs⟩
  | append_singleton before i ih =>
    have hsplit : is = before ++ i :: after := by simpa using his
    obtain ⟨s₁, trace, hrun, hinv⟩ := ih (i :: after) hsplit
    obtain ⟨s₂, events, hlast, hinv'⟩ := hstep trace s₁ i hinv
      (hmeets before i after s₁ trace hsplit hrun)
    exact ⟨s₂, trace ++ events, run_append_ok.mpr
      ⟨s₁, trace, events, hrun, run_singleton_ok.mpr hlast, rfl⟩, hinv'⟩

/-- When a condition on the state before a step decides whether the step is right, all
steps of a run are right exactly if all of them meet it. -/
theorem run_steps_iff {Q : List τ → σ → ι → σ → List τ → Prop} {s : σ} (hs : I [] s)
    (hstep : ∀ past s i, I past s → Meets past s i →
      ∃ s' events, step s i = .ok (s', events) ∧ I (past ++ events) s' ∧
        Q past s i s' events)
    (hback : ∀ past s i s' events, I past s → step s i = .ok (s', events) →
      Q past s i s' events → Meets past s i)
    (is : List ι) :
    (∀ before i after, is = before ++ i :: after → ∃ s₁ trace s₂ events,
      run step s before = .ok (s₁, trace) ∧ step s₁ i = .ok (s₂, events) ∧
        Q trace s₁ i s₂ events) ↔
    ∀ before i after s₁ trace, is = before ++ i :: after →
      run step s before = .ok (s₁, trace) → Meets trace s₁ i := by
  constructor
  · intro hright
    -- the invariant holds as far as the condition was met before
    have hprefix : ∀ before after, is = before ++ after → ∃ s₁ trace,
        run step s before = .ok (s₁, trace) ∧ I trace s₁ := by
      intro before
      induction before using List.reverseRecOn with
      | nil => exact fun _ _ => ⟨s, [], rfl, hs⟩
      | append_singleton before i ih =>
        intro after his
        have hsplit : is = before ++ i :: after := by simpa using his
        obtain ⟨s₁, trace, hrun, hinv⟩ := ih (i :: after) hsplit
        obtain ⟨s₁', trace', s₂, events, hrun', hlast, hQ⟩ := hright before i after hsplit
        rw [hrun] at hrun'
        cases hrun'
        obtain ⟨s₂', events', hlast', hinv', -⟩ := hstep trace s₁ i hinv
          (hback trace s₁ i s₂ events hinv hlast hQ)
        exact ⟨s₂', trace ++ events', run_append_ok.mpr
          ⟨s₁, trace, events', hrun, run_singleton_ok.mpr hlast', rfl⟩, hinv'⟩
    intro before i after s₁ trace his hrun
    obtain ⟨s₁', trace', hrun', hinv⟩ := hprefix before (i :: after) his
    rw [hrun] at hrun'
    cases hrun'
    obtain ⟨s₁', trace', s₂, events, hrun', hlast, hQ⟩ := hright before i after his
    rw [hrun] at hrun'
    cases hrun'
    exact hback trace s₁ i s₂ events hinv hlast hQ
  · intro hmeets before i after his
    have hkeep : ∀ past s i, I past s → Meets past s i →
        ∃ s' events, step s i = .ok (s', events) ∧ I (past ++ events) s' := by
      intro past s i hinv hm
      obtain ⟨s', events, hlast, hinv', -⟩ := hstep past s i hinv hm
      exact ⟨s', events, hlast, hinv'⟩
    obtain ⟨s₁, trace, hrun, hinv⟩ := run_prefix hs hkeep hmeets before (i :: after) his
    obtain ⟨s₂, events, hlast, -, hQ⟩ := hstep trace s₁ i hinv
      (hmeets before i after s₁ trace his hrun)
    exact ⟨s₁, trace, s₂, events, hrun, hlast, hQ⟩

/-- When a condition on the state before a step decides whether the state behind it is
right, all states of a run are right exactly if all its steps meet the condition. -/
theorem run_states_iff {Q : List τ → σ → Prop} {s : σ} (hs : I [] s) (hright : Q [] s)
    (hstep : ∀ past s i, I past s → Meets past s i →
      ∃ s' events, step s i = .ok (s', events) ∧ I (past ++ events) s' ∧
        Q (past ++ events) s')
    (hback : ∀ past s i s' events, I past s → step s i = .ok (s', events) →
      Q (past ++ events) s' → Meets past s i)
    (is : List ι) :
    (∀ before after, is = before ++ after → ∃ s₁ trace,
      run step s before = .ok (s₁, trace) ∧ Q trace s₁) ↔
    ∀ before i after s₁ trace, is = before ++ i :: after →
      run step s before = .ok (s₁, trace) → Meets trace s₁ i := by
  rw [← run_steps_iff (Q := fun past _ _ s' events => Q (past ++ events) s') hs hstep
    hback]
  constructor
  · intro hstates before i after his
    obtain ⟨s₂, trace', hrun', hR⟩ := hstates (before ++ [i]) after (by simpa using his)
    obtain ⟨s₁, trace, events, hrun, hlast, rfl⟩ := run_append_ok.mp hrun'
    exact ⟨s₁, trace, s₂, events, hrun, run_singleton_ok.mp hlast, hR⟩
  · intro hsteps before after his
    rcases List.eq_nil_or_concat before with rfl | ⟨front, i, rfl⟩
    · exact ⟨s, [], rfl, hright⟩
    · obtain ⟨s₁, trace, s₂, events, hrun, hlast, hR⟩ := hsteps front i after (by simpa using his)
      rw [List.concat_eq_append]
      exact ⟨s₂, trace ++ events, run_append_ok.mpr
        ⟨s₁, trace, events, hrun, run_singleton_ok.mpr hlast, rfl⟩, hR⟩

theorem pairwise_iff_split {α : Type*} {r : α → α → Prop} {xs : List α} :
    xs.Pairwise r ↔ ∀ before x after, xs = before ++ x :: after → ∀ y ∈ before, r y x := by
  constructor
  · rintro h before x after rfl y hy
    exact (List.pairwise_append.mp h).2.2 y hy x List.mem_cons_self
  · intro h
    induction xs using List.reverseRecOn with
    | nil => exact .nil
    | append_singleton front x ih =>
      refine List.pairwise_append.mpr ⟨ih ?_, List.pairwise_singleton _ _, ?_⟩
      · intro before y after hsplit
        exact h before y (after ++ [x]) (by simp [hsplit])
      · intro y hy z hz
        rw [List.mem_singleton.mp hz]
        exact h front x [] rfl y hy

theorem exists_split_concat {α : Type*} {xs : List α} {x y : α} {P : List α → Prop} :
    (∃ before after, xs ++ [x] = before ++ y :: after ∧ P after) ↔
      (y = x ∧ P []) ∨ ∃ before after, xs = before ++ y :: after ∧ P (after ++ [x]) := by
  constructor
  · rintro ⟨before, after, hsplit, hP⟩
    rcases List.eq_nil_or_concat after with rfl | ⟨after, z, rfl⟩
    · obtain ⟨-, heq⟩ := List.append_inj' hsplit rfl
      exact Or.inl ⟨(List.singleton_inj.mp heq).symm, hP⟩
    · rw [List.concat_eq_append] at hsplit hP
      rw [← List.cons_append, ← List.append_assoc] at hsplit
      obtain ⟨rfl, heq⟩ := List.append_inj' hsplit rfl
      obtain rfl := List.singleton_inj.mp heq
      exact Or.inr ⟨before, after, rfl, hP⟩
  · rintro (⟨rfl, hP⟩ | ⟨before, after, rfl, hP⟩)
    · exact ⟨xs, [], rfl, hP⟩
    · exact ⟨before, after ++ [x], by simp, hP⟩

end Conditions

/-- A chain of transitions that record events. -/
inductive Path (R : σ → List τ → σ → Prop) : σ → List τ → σ → Prop
  | nil (s : σ) : Path R s [] s
  | snoc {s s₁ s₂ : σ} {trace events : List τ} :
      Path R s trace s₁ → R s₁ events s₂ → Path R s (trace ++ events) s₂

namespace Path
variable {R : σ → List τ → σ → Prop} {s s₁ s₂ : σ} {trace later : List τ}

theorem single (h : R s trace s₁) : Path R s trace s₁ := snoc (nil s) h

theorem trans (h : Path R s trace s₁) (h' : Path R s₁ later s₂) : Path R s (trace ++ later) s₂ := by
  induction h' with
  | nil => simpa using h
  | snoc _ hstep ih =>
    rw [← List.append_assoc]
    exact ih.snoc hstep

theorem mono {R' : σ → List τ → σ → Prop} (h : Path R s trace s₁)
    (hle : ∀ s events s', R s events s' → R' s events s') : Path R' s trace s₁ := by
  induction h with
  | nil => exact .nil _
  | snoc _ hlast ih => exact ih.snoc (hle _ _ _ hlast)

theorem invariant (Inv : List τ → σ → Prop)
    (hstep : ∀ past s events s', Inv past s → R s events s' → Inv (past ++ events) s')
    (h : Path R s trace s₁) (hs : Inv [] s) : Inv trace s₁ := by
  induction h with
  | nil => exact hs
  | snoc _ hlast ih => exact hstep _ _ _ _ ih hlast

theorem preserves {Good : σ → Prop} (hstep : ∀ s events s', Good s → R s events s' → Good s')
    (h : Path R s trace s₁) (hs : Good s) : Good s₁ := by
  induction h with
  | nil => exact hs
  | snoc _ hlast ih => exact hstep _ _ _ ih hlast

end Path

/-- A run of a machine whose steps decompose into transitions is a path of them. -/
theorem run_path {R : σ → List τ → σ → Prop} {Good : σ → Prop}
    (hgood : ∀ s events s', Good s → R s events s' → Good s')
    (hstep : ∀ s i s' events, Good s → step s i = .ok (s', events) → Path R s events s')
    {s s' : σ} {is : List ι} {trace : List τ} (hs : Good s)
    (h : run step s is = .ok (s', trace)) : Path R s trace s' := by
  induction is generalizing s trace with
  | nil =>
    cases h
    exact .nil _
  | cons i is ih =>
    obtain ⟨s₁, events, later, h₁, h₂, rfl⟩ := run_cons_ok.mp h
    have hpath := hstep s i s₁ events hs h₁
    exact hpath.trans (ih (hpath.preserves hgood hs) h₂)

/-- `Q` holds of every event of a trace and the events recorded before it. -/
def Along (Q : List τ → τ → Prop) : List τ → List τ → Prop
  | _, [] => True
  | past, e :: later => Q past e ∧ Along Q (past ++ [e]) later

theorem along_append {Q : List τ → τ → Prop} {past xs ys : List τ} :
    Along Q past (xs ++ ys) ↔ Along Q past xs ∧ Along Q (past ++ xs) ys := by
  induction xs generalizing past with
  | nil => simp [Along]
  | cons x xs ih => simp [Along, ih, and_assoc]

theorem along_of_forall {Q : List τ → τ → Prop} {past xs : List τ}
    (h : ∀ past, ∀ x ∈ xs, Q past x) : Along Q past xs := by
  induction xs generalizing past with
  | nil => trivial
  | cons x xs ih =>
    exact ⟨h past x List.mem_cons_self, ih fun past y hy => h past y (List.mem_cons_of_mem x hy)⟩

theorem Along.split {Q : List τ → τ → Prop} {past before after : List τ} {e : τ}
    (h : Along Q past (before ++ e :: after)) : Q (past ++ before) e :=
  (along_append.mp h).2.1

theorem nth_unique {β : Type*} {f : τ → Option β} {xs xs' ys ys' : List τ} {x x' : τ}
    (h : xs ++ x :: ys = xs' ++ x' :: ys') (hx : f x ≠ none) (hx' : f x' ≠ none)
    (hcount : (xs.filterMap f).length = (xs'.filterMap f).length) : xs = xs' ∧ x = x' := by
  obtain ⟨b, hb⟩ := Option.ne_none_iff_exists'.mp hx
  obtain ⟨b', hb'⟩ := Option.ne_none_iff_exists'.mp hx'
  induction xs generalizing xs' with
  | nil =>
    cases xs' with
    | nil => exact ⟨rfl, (List.cons.inj h).1⟩
    | cons y zs =>
      obtain ⟨rfl, -⟩ := List.cons.inj h
      simp [hb] at hcount
  | cons z zs ih =>
    cases xs' with
    | nil =>
      obtain ⟨rfl, -⟩ := List.cons.inj h
      simp [hb'] at hcount
    | cons y zs' =>
      obtain ⟨rfl, htail⟩ := List.cons.inj h
      have hcount' : (zs.filterMap f).length = (zs'.filterMap f).length := by
        cases hz : f z <;> simpa [hz] using hcount
      obtain ⟨rfl, rfl⟩ := ih htail hcount'
      exact ⟨rfl, rfl⟩

end TracedRun
