import SikUdp.Program.System
import SikUdp.Library.IntervalQueue
import SikUdp.Library.TracedRun

/-!
# The record of clients

Every address that sent something has a record with a queue of time intervals
in which it is to receive messages. Registering an address extends its last
interval or adds one; querying discards intervals that have ended and erases
records left without any.

Erasing from a `std::deque` decides what the iterator that was moved on before
the erasure refers to. That rule is a parameter of the traversal. Times are
integers: adding the timeout is taken not to overflow `std::time_t`.
-/
namespace SikUdp

def timeout : ℤ := 2 * 60

/-- `rule index size` tells where the iterator stands that had been moved past the
element at `index` of `size` when that element is erased: `some k` is `k` places
behind the element that followed, `none` an invalidated iterator. -/
abbrev EraseRule := (index size : ℕ) → Option ℕ

/-- The loop goes on with the element after an erased one. -/
def EraseRule.GoesOn (rule : EraseRule) : Prop :=
  ∀ index size, index < size → rule index size = some 0

/-- The iterator keeps referring to an element or to the end. -/
def EraseRule.StaysInside (rule : EraseRule) : Prop :=
  ∀ index size, index < size → ∃ k, rule index size = some k ∧ index + k < size

/-- The rule of a container whose erasure returns to the following element. -/
def EraseRule.next : EraseRule := fun _ _ => some 0

theorem EraseRule.next_goesOn : EraseRule.next.GoesOn := fun _ _ _ => rfl

theorem EraseRule.GoesOn.staysInside {rule : EraseRule} (h : rule.GoesOn) : rule.StaysInside :=
  fun index size hlt => ⟨0, h index size hlt, hlt⟩

structure Connections.Client where
  address : SockAddr
  connections : List (ℤ × ℤ)
  deriving DecidableEq, Repr

structure Connections where
  clients : List Connections.Client
  deriving DecidableEq, Repr

namespace Connections

def Client.new (address : SockAddr) (timestamp : ℤ) : Client :=
  ⟨address, [(timestamp, timestamp + timeout)]⟩

/-- Reading the back of an empty queue is undefined. -/
def Client.addConnection (client : Client) (timestamp : ℤ) : Except Abort Client :=
  match client.connections.getLast? with
  | none => .error .undefined
  | some back =>
    if back.2 ≥ timestamp then
      .ok { client with
        connections := client.connections.dropLast ++ [(back.1, timestamp + timeout)] }
    else
      .ok { client with
        connections := client.connections ++ [(timestamp, timestamp + timeout)] }

/-- Pop the intervals that ended before `timestamp`. -/
def Client.cleanup (client : Client) (timestamp : ℤ) : Client :=
  { client with connections := IntervalQueue.discard timestamp client.connections }

def inBounds (timestamp : ℤ) (interval : ℤ × ℤ) : Bool :=
  decide (timestamp ≥ interval.1) && decide (timestamp ≤ interval.2)

def empty : Connections := ⟨[]⟩

/-- The loop of `add_client` and the `push_back` behind it. -/
def addClientLoop (address : SockAddr) (connectionTime : ℤ) :
    List Client → Except Abort (List Client)
  | [] => .ok [Client.new address connectionTime]
  | client :: rest =>
    if client.address = address then
      (client.addConnection connectionTime).map (· :: rest)
    else (addClientLoop address connectionTime rest).map (client :: ·)

def addClient (cs : Connections) (address : SockAddr) (connectionTime : ℤ) :
    Except Abort Connections :=
  (addClientLoop address connectionTime cs.clients).map Connections.mk

/-- The loop of `get_clients` from the element at `index` on, `skip` of which the
iterator has already passed. The records kept and the addresses found are returned. -/
def getClientsLoop (rule : EraseRule) (timestamp : ℤ) (exclude : Option SockAddr) :
    (index skip : ℕ) → List Client → Except Abort (List Client × List SockAddr)
  | _, 0, [] => .ok ([], [])
  | _, _ + 1, [] => .error .undefined
  | index, skip + 1, client :: rest =>
    (getClientsLoop rule timestamp exclude (index + 1) skip rest).map
      fun r => (client :: r.1, r.2)
  | index, 0, client :: rest =>
    if exclude = some client.address then
      (getClientsLoop rule timestamp exclude (index + 1) 0 rest).map
        fun r => (client :: r.1, r.2)
    else
      match (client.cleanup timestamp).connections with
      | [] =>
        match rule index (index + rest.length + 1) with
        | none => .error .undefined
        | some skip => getClientsLoop rule timestamp exclude index skip rest
      | front :: _ =>
        (getClientsLoop rule timestamp exclude (index + 1) 0 rest).map
          fun r => (client.cleanup timestamp :: r.1,
            if inBounds timestamp front then client.address :: r.2 else r.2)

def getClients (cs : Connections) (rule : EraseRule) (timestamp : ℤ) (exclude : Option SockAddr) :
    Except Abort (Connections × List SockAddr) :=
  (getClientsLoop rule timestamp exclude 0 0 cs.clients).map fun r => (⟨r.1⟩, r.2)

def addresses (cs : Connections) : List SockAddr := cs.clients.map Client.address

/-- Renewing a record replaces its last interval or adds one behind it. -/
theorem Client.addConnection_cases {client client' : Client} {timestamp : ℤ}
    (h : client.addConnection timestamp = .ok client') :
    ∃ queue back, client.connections = queue ++ [back] ∧ client'.address = client.address ∧
      ((timestamp ≤ back.2 ∧ client'.connections = queue ++ [(back.1, timestamp + timeout)]) ∨
        (back.2 < timestamp ∧
          client'.connections = queue ++ [back] ++ [(timestamp, timestamp + timeout)])) := by
  unfold addConnection at h
  split at h
  · cases h
  · rename_i back hback
    obtain ⟨queue, hqueue⟩ := List.getLast?_eq_some_iff.mp hback
    refine ⟨queue, back, hqueue, ?_⟩
    split_ifs at h with hle
    · cases h
      exact ⟨rfl, Or.inl ⟨hle, by simp [hqueue]⟩⟩
    · cases h
      exact ⟨rfl, Or.inr ⟨not_le.mp hle, by simp [hqueue]⟩⟩

theorem Client.addConnection_total {client : Client} (h : client.connections ≠ []) (timestamp : ℤ) :
    ∃ client', client.addConnection timestamp = .ok client' := by
  unfold addConnection
  rw [List.getLast?_eq_some_getLast h]
  dsimp only
  split_ifs <;> exact ⟨_, rfl⟩

/-- Registering an address changes its first record, or appends a new one. -/
theorem addClient_cases {cs cs' : Connections} {address : SockAddr} {connectionTime : ℤ}
    (h : cs.addClient address connectionTime = .ok cs') :
    (address ∉ cs.addresses ∧ cs'.clients = cs.clients ++ [Client.new address connectionTime]) ∨
    (∃ front client client' rest, cs.clients = front ++ client :: rest ∧
      client.address = address ∧ client.addConnection connectionTime = .ok client' ∧
      cs'.clients = front ++ client' :: rest) := by
  obtain ⟨clients, hloop, rfl⟩ := TracedRun.map_ok_iff.mp h
  obtain ⟨old⟩ := cs
  unfold addresses
  dsimp only at hloop ⊢
  clear h
  induction old generalizing clients with
  | nil =>
    cases hloop
    exact Or.inl ⟨by simp, rfl⟩
  | cons client rest ih =>
    rw [addClientLoop] at hloop
    split_ifs at hloop with haddress
    · obtain ⟨client', hnew, rfl⟩ := TracedRun.map_ok_iff.mp hloop
      exact Or.inr ⟨[], client, client', rest, rfl, haddress, hnew, rfl⟩
    · obtain ⟨clients', hrest, rfl⟩ := TracedRun.map_ok_iff.mp hloop
      rcases ih clients' hrest with ⟨hnew, heq⟩ | ⟨front, c, c', later, heq, hc, hadd, heq'⟩
      · exact Or.inl ⟨by simpa [Ne.symm haddress] using hnew, by simp [heq]⟩
      · exact Or.inr ⟨client :: front, c, c', later, by simp [heq], hc, hadd, by simp [heq']⟩

theorem addClient_total {cs : Connections} (h : ∀ c ∈ cs.clients, c.connections ≠ [])
    (address : SockAddr) (connectionTime : ℤ) :
    ∃ cs', cs.addClient address connectionTime = .ok cs' := by
  obtain ⟨clients⟩ := cs
  dsimp only at h
  suffices hloop : ∃ clients', addClientLoop address connectionTime clients = .ok clients' by
    obtain ⟨clients', hloop⟩ := hloop
    exact ⟨⟨clients'⟩, TracedRun.map_ok_iff.mpr ⟨clients', hloop, rfl⟩⟩
  induction clients with
  | nil => exact ⟨_, rfl⟩
  | cons client rest ih =>
    rw [addClientLoop]
    split_ifs
    · obtain ⟨client', hc⟩ := client.addConnection_total (h client (by simp)) connectionTime
      exact ⟨client' :: rest, TracedRun.map_ok_iff.mpr ⟨client', hc, rfl⟩⟩
    · obtain ⟨rest', hr⟩ := ih fun c hc => h c (by simp [hc])
      exact ⟨client :: rest', TracedRun.map_ok_iff.mpr ⟨rest', hr, rfl⟩⟩

theorem addClient_addresses {cs cs' : Connections} {address : SockAddr} {connectionTime : ℤ}
    (h : cs.addClient address connectionTime = .ok cs') :
    (address ∉ cs.addresses ∧ cs'.addresses = cs.addresses ++ [address]) ∨
      (address ∈ cs.addresses ∧ cs'.addresses = cs.addresses) := by
  unfold addresses
  rcases addClient_cases h with ⟨hnew, hcs⟩ | ⟨front, old, new, rest, hcs, ha, hnew, hcs'⟩
  · exact Or.inl ⟨hnew, by simp [hcs, Client.new]⟩
  · obtain ⟨-, -, -, haddress, -⟩ := old.addConnection_cases hnew
    exact Or.inr ⟨by simp [hcs, ha], by simp [hcs, hcs', haddress]⟩

theorem mem_addresses_addClient {cs cs' : Connections} {address a : SockAddr} {connectionTime : ℤ}
    (h : cs.addClient address connectionTime = .ok cs') (ha : a ∈ cs'.addresses) :
    a ∈ cs.addresses ∨ a = address := by
  rcases addClient_addresses h with ⟨-, hcs⟩ | ⟨-, hcs⟩
  · rw [hcs] at ha
    simpa using ha
  · exact Or.inl (hcs ▸ ha)

theorem nodup_addClient {cs cs' : Connections} {address : SockAddr} {connectionTime : ℤ}
    (hunique : cs.addresses.Nodup) (h : cs.addClient address connectionTime = .ok cs') :
    cs'.addresses.Nodup := by
  rcases addClient_addresses h with ⟨hnew, hcs⟩ | ⟨-, hcs⟩
  · rw [hcs, ← List.concat_eq_append]
    exact hunique.concat hnew
  · rw [hcs]
    exact hunique

theorem addClient_eq_self_iff {cs : Connections} (hunique : cs.addresses.Nodup)
    (hrecords : ∀ c ∈ cs.clients, c.connections ≠ []) (address : SockAddr) (connectionTime : ℤ) :
    cs.addClient address connectionTime = .ok cs ↔
      ∃ c ∈ cs.clients, c.address = address ∧
        ∃ start, c.connections.getLast? = some (start, connectionTime + timeout) := by
  constructor
  · intro h
    rcases addClient_cases h with ⟨-, hcs⟩ | ⟨front, old, new, rest, hcs, ha, hnew, hcs'⟩
    · simpa using congrArg List.length hcs
    · have heq : old = new := by
        have happend := hcs.symm.trans hcs'
        simpa using happend
      subst heq
      obtain ⟨queue, back, hqueue, -, ⟨-, hrenewed⟩ | ⟨-, hadded⟩⟩ := old.addConnection_cases hnew
      · refine ⟨old, by simp [hcs], ha, back.1, ?_⟩
        rw [hrenewed]
        simp
      · rw [hqueue] at hadded
        simpa using congrArg List.length hadded
  · rintro ⟨c, hc, ha, start, hlast⟩
    obtain ⟨cs', hadd⟩ := addClient_total hrecords address connectionTime
    rcases addClient_cases hadd with ⟨hnew, -⟩ | ⟨front, old, new, rest, hcs, hold, hnew, hcs'⟩
    · exact absurd (List.mem_map.mpr ⟨c, hc, ha⟩) hnew
    · have hsame : c = old :=
        List.inj_on_of_nodup_map hunique hc (by simp [hcs]) (ha.trans hold.symm)
      subst hsame
      have hunchanged : new = c := by
        have hle : connectionTime ≤ connectionTime + timeout := by unfold timeout; omega
        obtain ⟨queue, hqueue⟩ := List.getLast?_eq_some_iff.mp hlast
        simp only [Client.addConnection, hlast, ge_iff_le, if_pos hle, Except.ok.injEq] at hnew
        rw [hqueue, List.dropLast_concat, ← hqueue] at hnew
        exact hnew.symm
      have hclients : cs'.clients = cs.clients := by rw [hcs', hcs, hunchanged]
      obtain ⟨clients⟩ := cs
      obtain ⟨clients'⟩ := cs'
      dsimp only at hclients
      rw [hadd, hclients]

theorem addClient_nonempty {cs cs' : Connections} {address : SockAddr} {connectionTime : ℤ}
    (h : ∀ c ∈ cs.clients, c.connections ≠ [])
    (hadd : cs.addClient address connectionTime = .ok cs') :
    ∀ c ∈ cs'.clients, c.connections ≠ [] := by
  intro c hc
  rcases addClient_cases hadd with ⟨-, hcs⟩ | ⟨front, old, new, rest, hcs, -, hnew, hcs'⟩
  · rw [hcs] at hc
    rcases List.mem_append.mp hc with hc | hc
    · exact h c hc
    · rw [List.mem_singleton.mp hc]
      simp [Client.new]
  · rw [hcs'] at hc
    rcases List.mem_append.mp hc with hc | hc
    · exact h c (by simp [hcs, hc])
    · rcases List.mem_cons.mp hc with rfl | hc
      · obtain ⟨queue, back, -, -, ⟨-, heq⟩ | ⟨-, heq⟩⟩ := old.addConnection_cases hnew
        · simp [heq]
        · simp [heq]
      · exact h c (by simp [hcs, hc])

/-- How a traversal can treat the records, whatever the iterator does after an erasure:
`kept` are the records left behind and `found` the addresses returned. -/
inductive Traversed (timestamp : ℤ) (exclude : Option SockAddr) :
    List Client → List Client → List SockAddr → Prop
  | nil : Traversed timestamp exclude [] [] []
  | unchanged {client rest kept found} : Traversed timestamp exclude rest kept found →
      Traversed timestamp exclude (client :: rest) (client :: kept) found
  | erased {client rest kept found} : Traversed timestamp exclude rest kept found →
      Traversed timestamp exclude (client :: rest) kept found
  | cleaned {client rest kept found} (hkeep : (client.cleanup timestamp).connections ≠ []) :
      Traversed timestamp exclude rest kept found →
      Traversed timestamp exclude (client :: rest) (client.cleanup timestamp :: kept) found
  | found {client rest kept found} (hkeep : (client.cleanup timestamp).connections ≠ [])
      (hother : exclude ≠ some client.address) : Traversed timestamp exclude rest kept found →
      Traversed timestamp exclude (client :: rest) (client.cleanup timestamp :: kept)
        (client.address :: found)

theorem getClientsLoop_traversed {rule : EraseRule} {timestamp : ℤ} {exclude : Option SockAddr}
    {index skip : ℕ} {clients kept : List Client} {found : List SockAddr}
    (h : getClientsLoop rule timestamp exclude index skip clients = .ok (kept, found)) :
    Traversed timestamp exclude clients kept found := by
  induction clients generalizing index skip kept found with
  | nil =>
    cases skip with
    | zero => cases h; exact .nil
    | succ skip => cases h
  | cons client rest ih =>
    cases skip with
    | succ skip =>
      obtain ⟨r, hr, heq⟩ := TracedRun.map_ok_iff.mp h
      cases heq
      exact .unchanged (ih hr)
    | zero =>
      rw [getClientsLoop] at h
      split_ifs at h with hexclude
      · obtain ⟨r, hr, heq⟩ := TracedRun.map_ok_iff.mp h
        cases heq
        exact .unchanged (ih hr)
      · split at h
        · split at h
          · cases h
          · exact .erased (ih h)
        · rename_i front later hfront
          have hkeep : (client.cleanup timestamp).connections ≠ [] := by simp [hfront]
          obtain ⟨r, hr, heq⟩ := TracedRun.map_ok_iff.mp h
          cases heq
          split_ifs
          · exact .found hkeep hexclude (ih hr)
          · exact .cleaned hkeep (ih hr)

theorem getClients_traversed {cs cs' : Connections} {rule : EraseRule} {timestamp : ℤ}
    {exclude : Option SockAddr} {found : List SockAddr}
    (h : cs.getClients rule timestamp exclude = .ok (cs', found)) :
    Traversed timestamp exclude cs.clients cs'.clients found := by
  obtain ⟨r, hr, heq⟩ := TracedRun.map_ok_iff.mp h
  cases heq
  exact getClientsLoop_traversed hr

namespace Traversed
variable {timestamp : ℤ} {exclude : Option SockAddr} {clients kept : List Client}
  {found : List SockAddr}

theorem kept_sublist (h : Traversed timestamp exclude clients kept found) :
    (kept.map Client.address).Sublist (clients.map Client.address) := by
  induction h with
  | nil => exact .slnil
  | unchanged _ ih => exact ih.cons_cons _
  | erased _ ih => exact ih.cons _
  | cleaned _ _ ih => exact ih.cons_cons _
  | found _ _ _ ih => exact ih.cons_cons _

theorem found_sublist (h : Traversed timestamp exclude clients kept found) :
    found.Sublist (clients.map Client.address) := by
  induction h with
  | nil => exact .slnil
  | unchanged _ ih => exact ih.cons _
  | erased _ ih => exact ih.cons _
  | cleaned _ _ ih => exact ih.cons _
  | found _ _ _ ih => exact ih.cons_cons _

theorem exclude_notMem (h : Traversed timestamp exclude clients kept found) :
    ∀ a ∈ found, exclude ≠ some a := by
  induction h with
  | nil => simp
  | unchanged _ ih => exact ih
  | erased _ ih => exact ih
  | cleaned _ _ ih => exact ih
  | found _ hother _ ih =>
    intro a ha
    rcases List.mem_cons.mp ha with rfl | ha
    · exact hother
    · exact ih a ha

theorem nonempty (h : Traversed timestamp exclude clients kept found)
    (hclients : ∀ c ∈ clients, c.connections ≠ []) : ∀ c ∈ kept, c.connections ≠ [] := by
  induction h with
  | nil => simp
  | unchanged _ ih => simp_all
  | erased _ ih => simp_all
  | cleaned hkeep _ ih => simp_all
  | found hkeep _ _ ih => simp_all

end Traversed

theorem getClientsLoop_total {rule : EraseRule} (hrule : rule.StaysInside) (timestamp : ℤ)
    (exclude : Option SockAddr) (index skip : ℕ) {clients : List Client}
    (hskip : skip ≤ clients.length) :
    ∃ r, getClientsLoop rule timestamp exclude index skip clients = .ok r := by
  induction clients generalizing index skip with
  | nil =>
    cases skip with
    | zero => exact ⟨_, rfl⟩
    | succ skip => simp at hskip
  | cons client rest ih =>
    cases skip with
    | succ skip =>
      obtain ⟨r, hr⟩ := ih (index + 1) skip (by simpa using hskip)
      exact ⟨_, TracedRun.map_ok_iff.mpr ⟨r, hr, rfl⟩⟩
    | zero =>
      obtain ⟨r, hr⟩ := ih (index + 1) 0 (Nat.zero_le _)
      rw [getClientsLoop]
      split_ifs
      · exact ⟨_, TracedRun.map_ok_iff.mpr ⟨r, hr, rfl⟩⟩
      · split
        · obtain ⟨k, hk, hlt⟩ := hrule index (index + rest.length + 1) (by omega)
          rw [hk]
          exact ih index k (by omega)
        · exact ⟨_, TracedRun.map_ok_iff.mpr ⟨r, hr, rfl⟩⟩

theorem getClients_total {rule : EraseRule} (hrule : rule.StaysInside) (cs : Connections)
    (timestamp : ℤ) (exclude : Option SockAddr) :
    ∃ cs' found, cs.getClients rule timestamp exclude = .ok (cs', found) := by
  obtain ⟨r, hr⟩ := getClientsLoop_total hrule timestamp exclude 0 0
    (Nat.zero_le cs.clients.length)
  exact ⟨⟨r.1⟩, r.2, TracedRun.map_ok_iff.mpr ⟨r, hr, rfl⟩⟩

theorem getClientsLoop_error {rule : EraseRule} {timestamp : ℤ} {exclude : Option SockAddr}
    {index skip : ℕ} {clients : List Client} {a : Abort}
    (h : getClientsLoop rule timestamp exclude index skip clients = .error a) : a = .undefined := by
  induction clients generalizing index skip with
  | nil =>
    cases skip with
    | zero => cases h
    | succ skip => exact (Except.error.inj h).symm
  | cons client rest ih =>
    cases skip with
    | succ skip => exact ih (TracedRun.map_error_iff.mp h)
    | zero =>
      rw [getClientsLoop] at h
      split_ifs at h
      · exact ih (TracedRun.map_error_iff.mp h)
      · split at h
        · split at h
          · exact (Except.error.inj h).symm
          · exact ih h
        · exact ih (TracedRun.map_error_iff.mp h)

theorem getClients_error {rule : EraseRule} {cs : Connections} {timestamp : ℤ}
    {exclude : Option SockAddr} {a : Abort}
    (h : cs.getClients rule timestamp exclude = .error a) : a = .undefined :=
  getClientsLoop_error (TracedRun.map_error_iff.mp h)

end Connections
end SikUdp
