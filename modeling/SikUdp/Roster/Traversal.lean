import SikUdp.Roster.Histories

/-!
# The traversal of a `std::deque`

The loop of `get_clients` over iterators, with the invalidation rules of the container.
The list recursion used elsewhere computes the same. The iterator that was moved on
before an erasure is still valid only if the erased record was the first of several, so
a query is well defined exactly if the expired records come first and are not all.

Positions count from the front; the one equal to the size is past the end. Erasing the
last element invalidates its iterators and those past the end, erasing the first of
several its own alone, and erasing any other element all of them.
-/
namespace DequeErasure

/-- Erasing the element at `index` of `size` leaves an iterator at `position` valid. -/
def Survives (size index position : ℕ) : Prop :=
  if index + 1 = size then position < index
  else if index = 0 then 0 < position
  else False

instance (size index position : ℕ) : Decidable (Survives size index position) := by
  unfold Survives
  infer_instance

theorem survives_next_iff {size index : ℕ} :
    Survives size index (index + 1) ↔ index = 0 ∧ size ≠ 1 := by
  unfold Survives
  split_ifs with hlast hfirst
  · omega
  · omega
  · simp [hfirst]

end DequeErasure

namespace SikUdp

/-- The erasure rule of `std::deque`. An iterator that stays valid refers to the element
it referred to before. -/
def EraseRule.deque : EraseRule := fun index size =>
  if DequeErasure.Survives size index (index + 1) then some 0 else none

theorem EraseRule.deque_eq (index size : ℕ) :
    EraseRule.deque index size = if index = 0 ∧ size ≠ 1 then some 0 else none := by
  unfold EraseRule.deque
  simp only [DequeErasure.survives_next_iff]

namespace Connections

/-- What the loop leaves behind: the records, the addresses found and the records that
were looked at, in that order. -/
structure Traversal where
  clients : List Client
  found : List SockAddr
  examined : List Client

/-- The loop of `get_clients` with the iterator at position `it`. -/
def iterate (rule : EraseRule) (timestamp : ℤ) (exclude : Option SockAddr)
    (clients : List Client) (it : ℕ) : Except Abort Traversal :=
  if it = clients.length then .ok ⟨clients, [], []⟩
  else
    match _hclient : clients[it]? with
    | none => .error .undefined
    | some client =>
      if exclude = some client.address then
        (iterate rule timestamp exclude clients (it + 1)).map fun t =>
          { t with examined := client :: t.examined }
      else
        match (client.cleanup timestamp).connections with
        | [] =>
          match rule it clients.length with
          | none => .error .undefined
          | some skip =>
            (iterate rule timestamp exclude (clients.eraseIdx it) (it + skip)).map fun t =>
              { t with examined := client :: t.examined }
        | front :: _ =>
          (iterate rule timestamp exclude (clients.set it (client.cleanup timestamp))
            (it + 1)).map fun t =>
              { t with
                found := if inBounds timestamp front then client.address :: t.found else t.found
                examined := client :: t.examined }
termination_by clients.length - it
decreasing_by
  · obtain ⟨hlt, -⟩ := List.getElem?_eq_some_iff.mp _hclient
    omega
  · obtain ⟨hlt, -⟩ := List.getElem?_eq_some_iff.mp _hclient
    rw [List.length_eraseIdx_of_lt hlt]
    omega
  · obtain ⟨hlt, -⟩ := List.getElem?_eq_some_iff.mp _hclient
    rw [List.length_set]
    omega

theorem iterate_client {rule : EraseRule} {timestamp : ℤ} {exclude : Option SockAddr}
    {clients : List Client} {it : ℕ} {client : Client} (h : clients[it]? = some client) :
    iterate rule timestamp exclude clients it =
      if exclude = some client.address then
        (iterate rule timestamp exclude clients (it + 1)).map fun t =>
          { t with examined := client :: t.examined }
      else
        match (client.cleanup timestamp).connections with
        | [] =>
          match rule it clients.length with
          | none => .error .undefined
          | some skip =>
            (iterate rule timestamp exclude (clients.eraseIdx it) (it + skip)).map fun t =>
              { t with examined := client :: t.examined }
        | front :: _ =>
          (iterate rule timestamp exclude (clients.set it (client.cleanup timestamp))
            (it + 1)).map fun t =>
              { t with
                found := if inBounds timestamp front then client.address :: t.found else t.found
                examined := client :: t.examined } := by
  obtain ⟨hlt, -⟩ := List.getElem?_eq_some_iff.mp h
  rw [iterate, if_neg (by omega)]
  split
  · rename_i hnone
    rw [h] at hnone
    cases hnone
  · rename_i client' hclient'
    rw [h] at hclient'
    cases hclient'
    rfl

def Traversal.result (t : Traversal) : List Client × List SockAddr := (t.clients, t.found)

/-- The list recursion and the loop over iterators compute the same. -/
theorem iterate_eq (rule : EraseRule) (timestamp : ℤ) (exclude : Option SockAddr)
    (front rest : List Client) (skip : ℕ) :
    (iterate rule timestamp exclude (front ++ rest) (front.length + skip)).map Traversal.result =
      (getClientsLoop rule timestamp exclude front.length skip rest).map
        fun r => (front ++ r.1, r.2) := by
  induction rest generalizing front skip with
  | nil =>
    cases skip with
    | zero =>
      rw [iterate, if_pos (by simp)]
      rfl
    | succ skip =>
      rw [iterate, if_neg (by simp)]
      split
      · rfl
      · rename_i client hclient
        obtain ⟨hlt, -⟩ := List.getElem?_eq_some_iff.mp hclient
        simp at hlt
  | cons client rest ih =>
    -- the record that stays in front of the iterator is the client or what is left of it
    have hkept : ∀ c skip, (iterate rule timestamp exclude (front ++ c :: rest)
        (front.length + 1 + skip)).map Traversal.result =
          (getClientsLoop rule timestamp exclude (front.length + 1) skip rest).map
            fun r => (front ++ c :: r.1, r.2) := by
      intro c skip
      simpa using ih (front ++ [c]) skip
    cases skip with
    | succ skip =>
      rw [show front.length + (skip + 1) = front.length + 1 + skip by omega, hkept, getClientsLoop,
        TracedRun.map_map]
    | zero =>
      have hclient : (front ++ client :: rest)[front.length]? = some client := by simp
      rw [Nat.add_zero, iterate_client hclient, getClientsLoop]
      split_ifs with hexclude
      · rw [TracedRun.map_map, TracedRun.map_map]
        exact hkept client 0
      · cases hconnections : (client.cleanup timestamp).connections with
        | nil =>
          have hlength : (front ++ client :: rest).length = front.length + rest.length + 1 := by
            simp [Nat.add_assoc]
          have herase : (front ++ client :: rest).eraseIdx front.length = front ++ rest := by
            rw [List.eraseIdx_append_of_length_le le_rfl, Nat.sub_self, List.eraseIdx_cons_zero]
          dsimp only
          rw [hlength, herase]
          cases rule front.length (front.length + rest.length + 1) with
          | none => rfl
          | some skip =>
            dsimp only
            rw [TracedRun.map_map]
            exact ih front skip
        | cons interval later =>
          have hset : (front ++ client :: rest).set front.length (client.cleanup timestamp) =
              front ++ client.cleanup timestamp :: rest := by simp
          have hrest := congrArg (fun x => x.map fun r => (r.1,
            if inBounds timestamp interval then client.address :: r.2 else r.2))
            (hkept (client.cleanup timestamp) 0)
          simp only [TracedRun.map_map] at hrest
          dsimp only
          rw [hset, TracedRun.map_map, TracedRun.map_map]
          exact hrest

theorem getClients_eq_iterate (rule : EraseRule) (cs : Connections) (timestamp : ℤ)
    (exclude : Option SockAddr) :
    cs.getClients rule timestamp exclude =
      (iterate rule timestamp exclude cs.clients 0).map fun t => (⟨t.clients⟩, t.found) := by
  have heq := congrArg (fun x => x.map fun r => ((⟨r.1⟩ : Connections), r.2))
    (iterate_eq rule timestamp exclude [] cs.clients 0)
  simp only [TracedRun.map_map] at heq
  exact heq.symm

theorem iterate_examined {timestamp : ℤ} {exclude : Option SockAddr} {clients : List Client}
    {it : ℕ} (hit : it ≤ clients.length) {t : Traversal}
    (h : iterate .deque timestamp exclude clients it = .ok t) : t.examined = clients.drop it := by
  induction hleft : clients.length - it generalizing clients it t with
  | zero =>
    have hend : it = clients.length := by omega
    rw [iterate, if_pos hend] at h
    cases h
    rw [hend, List.drop_length]
  | succ left ih =>
    have hlt : it < clients.length := by omega
    rw [iterate_client (List.getElem?_eq_getElem hlt)] at h
    rw [List.drop_eq_getElem_cons hlt]
    split_ifs at h with hexclude
    · obtain ⟨t', hrest, rfl⟩ := TracedRun.map_ok_iff.mp h
      rw [ih (by omega) hrest (by omega)]
    · split at h
      · rw [EraseRule.deque_eq] at h
        split_ifs at h with hfirst
        obtain ⟨t', hrest, rfl⟩ := TracedRun.map_ok_iff.mp h
        have hlength := List.length_eraseIdx_of_lt hlt
        obtain ⟨rfl, -⟩ := hfirst
        rw [ih (by omega) hrest (by omega)]
        simp
      · obtain ⟨t', hrest, rfl⟩ := TracedRun.map_ok_iff.mp h
        rw [ih (by rw [List.length_set]; omega) hrest (by rw [List.length_set]; omega)]
        rw [List.drop_set_of_lt (by omega)]

/-- The query erases the record: it is not excluded and all its intervals have ended. -/
def Expired (timestamp : ℤ) (exclude : Option SockAddr) (client : Client) : Prop :=
  exclude ≠ some client.address ∧ ∀ p ∈ client.connections, p.2 < timestamp

theorem cleanup_eq_nil_iff (client : Client) (timestamp : ℤ) :
    (client.cleanup timestamp).connections = [] ↔ ∀ p ∈ client.connections, p.2 < timestamp :=
  IntervalQueue.discard_eq_nil_iff

/-- The records that a query erases are the first ones, and not all. -/
def ExpiredFirst (timestamp : ℤ) (exclude : Option SockAddr) (clients : List Client) : Prop :=
  ∃ front rest, clients = front ++ rest ∧ (∀ c ∈ front, Expired timestamp exclude c) ∧
    (∀ c ∈ rest, ¬ Expired timestamp exclude c) ∧ (front ≠ [] → rest ≠ [])

theorem expiredFirst_cons_of_not_expired {timestamp : ℤ} {exclude : Option SockAddr}
    {client : Client} {rest : List Client} (h : ¬ Expired timestamp exclude client) :
    ExpiredFirst timestamp exclude (client :: rest) ↔
      ∀ c ∈ rest, ¬ Expired timestamp exclude c := by
  constructor
  · rintro ⟨front, live, hsplit, hfront, hlive, -⟩
    cases front with
    | nil =>
      rw [List.nil_append] at hsplit
      exact fun c hc => hlive c (hsplit ▸ List.mem_cons_of_mem _ hc)
    | cons first front =>
      obtain ⟨rfl, -⟩ := List.cons.inj hsplit
      exact absurd (hfront client (by simp)) h
  · intro hrest
    refine ⟨[], client :: rest, rfl, by simp, ?_, by simp⟩
    intro c hc
    rcases List.mem_cons.mp hc with rfl | hc
    · exact h
    · exact hrest c hc

theorem expiredFirst_cons_of_expired {timestamp : ℤ} {exclude : Option SockAddr}
    {client : Client} {rest : List Client} (h : Expired timestamp exclude client) :
    ExpiredFirst timestamp exclude (client :: rest) ↔
      rest ≠ [] ∧ ExpiredFirst timestamp exclude rest := by
  constructor
  · rintro ⟨front, live, hsplit, hfront, hlive, hnotAll⟩
    cases front with
    | nil =>
      rw [List.nil_append] at hsplit
      exact absurd h (hlive client (hsplit ▸ List.mem_cons_self))
    | cons first front =>
      obtain ⟨rfl, rfl⟩ := List.cons.inj hsplit
      have hne : live ≠ [] := hnotAll (List.cons_ne_nil _ _)
      exact ⟨by simp [hne], front, live, rfl, fun c hc => hfront c (List.mem_cons_of_mem _ hc),
        hlive, fun _ => hne⟩
  · rintro ⟨hne, front, live, rfl, hfront, hlive, hnotAll⟩
    refine ⟨client :: front, live, rfl, ?_, hlive, ?_⟩
    · intro c hc
      rcases List.mem_cons.mp hc with rfl | hc
      · exact h
      · exact hfront c hc
    · intro _ hnil
      subst hnil
      have hempty : front = [] := not_not.mp fun hfront => hnotAll hfront rfl
      exact hne (by simp [hempty])

section Loop
variable {timestamp : ℤ} {exclude : Option SockAddr}

theorem loop_of_not_expired {rule : EraseRule} {index : ℕ} {client : Client} {rest : List Client}
    (h : ¬ Expired timestamp exclude client) :
    (∃ r, getClientsLoop rule timestamp exclude index 0 (client :: rest) = .ok r) ↔
      ∃ r, getClientsLoop rule timestamp exclude (index + 1) 0 rest = .ok r := by
  rw [getClientsLoop]
  split_ifs with hexclude
  · exact TracedRun.exists_map_ok_iff
  · split
    · rename_i hnil
      exact absurd ⟨hexclude, (cleanup_eq_nil_iff client timestamp).mp hnil⟩ h
    · exact TracedRun.exists_map_ok_iff

theorem loop_of_expired {index : ℕ} {client : Client} {rest : List Client}
    (h : Expired timestamp exclude client) :
    (∃ r, getClientsLoop .deque timestamp exclude index 0 (client :: rest) = .ok r) ↔
      index = 0 ∧ rest ≠ [] ∧ ∃ r, getClientsLoop .deque timestamp exclude 0 0 rest = .ok r := by
  have hnil := (cleanup_eq_nil_iff client timestamp).mpr h.2
  rw [getClientsLoop, if_neg h.1, hnil]
  dsimp only
  rw [EraseRule.deque_eq]
  by_cases hfirst : index = 0
  · subst hfirst
    cases rest with
    | nil => simp
    | cons next later => simp
  · simp [hfirst]

/-- Behind a record that stays no record may be erased. -/
theorem loop_behind_iff (index : ℕ) (clients : List Client) :
    (∃ r, getClientsLoop .deque timestamp exclude (index + 1) 0 clients = .ok r) ↔
      ∀ c ∈ clients, ¬ Expired timestamp exclude c := by
  induction clients generalizing index with
  | nil => simp [getClientsLoop]
  | cons client rest ih =>
    by_cases h : Expired timestamp exclude client
    · simp [loop_of_expired h, h]
    · rw [loop_of_not_expired h, ih (index + 1)]
      simp [h]

theorem loop_iff (clients : List Client) :
    (∃ r, getClientsLoop .deque timestamp exclude 0 0 clients = .ok r) ↔
      ExpiredFirst timestamp exclude clients := by
  induction clients with
  | nil =>
    constructor
    · exact fun _ => ⟨[], [], rfl, by simp, by simp, by simp⟩
    · exact fun _ => ⟨_, rfl⟩
  | cons client rest ih =>
    by_cases h : Expired timestamp exclude client
    · rw [loop_of_expired h, expiredFirst_cons_of_expired h, ih]
      simp
    · rw [loop_of_not_expired h, expiredFirst_cons_of_not_expired h, loop_behind_iff]

end Loop

/-- The traversal is well defined, looks at every record once, in order, and stops, and
`get_clients` returns what it found. -/
def TraversedFully (cs : Connections) (timestamp : ℤ) (exclude : Option SockAddr) : Prop :=
  ∃ t, iterate .deque timestamp exclude cs.clients 0 = .ok t ∧ t.examined = cs.clients ∧
    cs.getClients .deque timestamp exclude = .ok (⟨t.clients⟩, t.found)

theorem traversedFully_iff (cs : Connections) (timestamp : ℤ) (exclude : Option SockAddr) :
    cs.TraversedFully timestamp exclude ↔ ExpiredFirst timestamp exclude cs.clients := by
  rw [← loop_iff]
  constructor
  · rintro ⟨t, -, -, hget⟩
    obtain ⟨r, hr, -⟩ := TracedRun.map_ok_iff.mp hget
    exact ⟨r, hr⟩
  · rintro ⟨r, hr⟩
    have hget : cs.getClients .deque timestamp exclude = .ok (⟨r.1⟩, r.2) :=
      TracedRun.map_ok_iff.mpr ⟨r, hr, rfl⟩
    have hiterate := hget
    rw [getClients_eq_iterate] at hiterate
    obtain ⟨t, ht, heq⟩ := TracedRun.map_ok_iff.mp hiterate
    exact ⟨t, ht, iterate_examined (Nat.zero_le _) ht, hget.trans (congrArg Except.ok heq.symm)⟩

/-- A query of a history is traversed fully; a registration traverses nothing. -/
def Traverses (cs : Connections) : Call → Prop
  | .addClient _ _ => True
  | .getClients timestamp exclude => cs.TraversedFully timestamp exclude

/-- The records that a query of a history erases are the first ones, and not all. -/
def ErasesFirst (cs : Connections) : Call → Prop
  | .addClient _ _ => True
  | .getClients timestamp exclude => ExpiredFirst timestamp exclude cs.clients

/-- Throughout a history of calls every query looks at every record once and stops, with
no use of an invalidated iterator, exactly if in the state of each query the expired
records come first and are not all. -/
theorem traversal_iff (calls : List Call) :
    (∀ before c after, calls = before ++ c :: after → ∃ cs answers cs' answer,
      TracedRun.run (call .deque) empty before = .ok (cs, answers) ∧
        call .deque cs c = .ok (cs', answer) ∧ cs.Traverses c) ↔
    ∀ before c after cs answers, calls = before ++ c :: after →
      TracedRun.run (call .deque) empty before = .ok (cs, answers) → cs.ErasesFirst c := by
  apply TracedRun.run_steps_iff (Q := fun _ cs c _ _ => Traverses cs c)
    (I := fun _ (cs : Connections) => ∀ c ∈ cs.clients, c.connections ≠ [])
  · simp [empty]
  · intro past cs c hrecords hc
    cases c with
    | addClient address connectionTime =>
      obtain ⟨cs', hadd⟩ := addClient_total hrecords address connectionTime
      exact ⟨cs', [], TracedRun.map_ok_iff.mpr ⟨cs', hadd, rfl⟩, addClient_nonempty hrecords hadd,
        trivial⟩
    | getClients timestamp exclude =>
      have hfully := (cs.traversedFully_iff timestamp exclude).mpr hc
      have hcopy := hfully
      obtain ⟨t, -, -, hget⟩ := hcopy
      exact ⟨⟨t.clients⟩, [t.found], TracedRun.map_ok_iff.mpr ⟨_, hget, rfl⟩,
        (getClients_traversed hget).nonempty hrecords, hfully⟩
  · intro past cs c cs' answer hrecords hcall hright
    cases c with
    | addClient address connectionTime => trivial
    | getClients timestamp exclude => exact (cs.traversedFully_iff timestamp exclude).mp hright

/-- The only record has expired: erasing it invalidates the iterator past the end. -/
theorem last_erased_undefined :
    ¬ ∀ before c after,
      [Call.addClient ⟨10, 1⟩ 0, .getClients 121 none] = before ++ c :: after →
      ∃ cs answers cs' answer, TracedRun.run (call .deque) empty before = .ok (cs, answers) ∧
        call .deque cs c = .ok (cs', answer) ∧ cs.Traverses c := by
  intro hclaim
  obtain ⟨cs, answers, cs', answer, hrun, hcall, -⟩ :=
    hclaim [.addClient ⟨10, 1⟩ 0] (.getClients 121 none) [] rfl
  cases hrun
  cases hcall

end Connections
end SikUdp
