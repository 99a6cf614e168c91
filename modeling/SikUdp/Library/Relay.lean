import Mathlib.Data.Set.Insert
import Mathlib.Tactic
import SikUdp.Library.BoundedFifo

/-!
# Relays

A relay hears addresses at certain times and accepts items into a bounded queue that drops
its oldest one. When nobody waits for the last item it took, it skips the items without an
audience and takes the next one, which it serves to its audience in any order. What it
hears and accepts and whom it serves can be seen from outside; when it takes an item
cannot.
-/
namespace Relay

variable {Address Item Time Packet : Type*}

inductive Sight (Address Item Time Packet : Type*)
  | heard (a : Address) (t : Time)
  | accepted (item : Item)
  | served (a : Address) (packet : Packet)

/-- The items a relay accepts, whom each is from and for, and what is served of it. -/
structure Service (Address Item Time Packet : Type*) where
  capacity : ℕ
  valid : Item → Prop
  source : Item → Address
  audience : Set (Address × Time) → Item → Set Address
  packet : Item → Packet

structure State (Address Item Time : Type*) where
  heard : Set (Address × Time)
  queue : List Item
  current : Option Item
  waiting : Set Address

namespace State

def empty : State Address Item Time := ⟨∅, [], none, ∅⟩

open Classical in
/-- Skip the items without an audience and take the next one. -/
noncomputable def settle (service : Service Address Item Time Packet)
    (r : State Address Item Time) : State Address Item Time :=
  match r.queue.dropWhile fun item => service.audience r.heard item = ∅ with
  | [] => { r with queue := [] }
  | item :: rest =>
    { r with queue := rest, current := some item, waiting := service.audience r.heard item }

variable {service : Service Address Item Time Packet} {r : State Address Item Time} {item : Item}
  {rest : List Item}

theorem settle_of_empty (h : r.queue = []) : r.settle service = r := by
  obtain ⟨heard, queue, current, waiting⟩ := r
  subst h
  rfl

theorem settle_skip (h : r.queue = item :: rest) (hnobody : service.audience r.heard item = ∅) :
    r.settle service = { r with queue := rest }.settle service := by
  simp [settle, h, hnobody]

theorem settle_found (h : r.queue = item :: rest)
    (hsomebody : service.audience r.heard item ≠ ∅) :
    r.settle service =
      { r with
        queue := rest, current := some item, waiting := service.audience r.heard item } := by
  simp [settle, h, hsomebody]

end State

/-- What a relay does, and what can be seen of it. -/
inductive Step (service : Service Address Item Time Packet) :
    State Address Item Time → List (Sight Address Item Time Packet) →
      State Address Item Time → Prop
  | hear (r a t) : Step service r [.heard a t] { r with heard := insert (a, t) r.heard }
  | accept (r t) {item} (hvalid : service.valid item) :
      Step service r [.accepted item, .heard (service.source item) t]
        { r with
          heard := insert (service.source item, t) r.heard
          queue := BoundedFifo.push service.capacity r.queue item }
  | settle {r} (hidle : r.waiting = ∅) : Step service r [] (r.settle service)
  | serve {r a item} (hcurrent : r.current = some item) (ha : a ∈ r.waiting) :
      Step service r [.served a (service.packet item)] { r with waiting := r.waiting \ {a} }

end Relay
