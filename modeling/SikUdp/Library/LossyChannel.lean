import Mathlib.Tactic

/-!
# A channel that may lose, duplicate and reorder packets

Packets are in flight from the moment they are posted until they are lost or delivered,
and any of them may be delivered next. Which packets were ever posted and delivered is
part of the state. What the receiver can rely on depends on what the channel does:
nothing but posted packets come out of it; without duplication none comes out more often
than it was posted; if, moreover, only the oldest one is ever delivered they come out in
order; and without losses all of them are delivered or in flight.
-/
namespace LossyChannel

variable {π : Type*}

structure Channel (π : Type*) where
  posted : List π
  inFlight : List π
  delivered : List π

inductive Action (π : Type*) where
  | post (packet : π)
  | lose (i : ℕ)
  | duplicate (i : ℕ)
  | deliver (i : ℕ)

def Channel.empty : Channel π := ⟨[], [], []⟩

/-- An index that names no packet in flight does nothing. -/
def Channel.step (c : Channel π) : Action π → Channel π
  | .post packet => { c with posted := c.posted ++ [packet], inFlight := c.inFlight ++ [packet] }
  | .lose i => { c with inFlight := c.inFlight.eraseIdx i }
  | .duplicate i => { c with inFlight := c.inFlight ++ c.inFlight[i]?.toList }
  | .deliver i =>
    { c with
      inFlight := c.inFlight.eraseIdx i
      delivered := c.delivered ++ c.inFlight[i]?.toList }

def Channel.run (c : Channel π) (actions : List (Action π)) : Channel π :=
  actions.foldl Channel.step c

def Action.Single : Action π → Prop
  | duplicate _ => False
  | _ => True

def Action.InOrder : Action π → Prop
  | deliver i => i = 0
  | _ => True

def Action.Lossless : Action π → Prop
  | lose _ => False
  | _ => True

namespace Channel

variable {c : Channel π} {actions : List (Action π)}

@[simp] theorem run_nil (c : Channel π) : c.run [] = c := rfl

theorem run_append (c : Channel π) (before after : List (Action π)) :
    c.run (before ++ after) = (c.run before).run after := List.foldl_append

theorem run_preserves {Good : Channel π → Prop} {K : Action π → Prop}
    (hstep : ∀ c action, Good c → K action → Good (c.step action)) (hc : Good c)
    (hkind : ∀ action ∈ actions, K action) : Good (c.run actions) := by
  induction actions generalizing c with
  | nil => exact hc
  | cons action actions ih =>
    exact ih (hstep c action hc (hkind action List.mem_cons_self))
      fun a ha => hkind a (List.mem_cons_of_mem _ ha)

/-- Nothing is made up. -/
def Authentic (c : Channel π) : Prop := ∀ p ∈ c.delivered ++ c.inFlight, p ∈ c.posted

theorem Authentic.step (h : c.Authentic) (action : Action π) : (c.step action).Authentic := by
  have hflight : ∀ (i : ℕ) (p : π), c.inFlight[i]? = some p → p ∈ c.posted := by
    intro i p hp
    exact h p (List.mem_append_right _ (List.mem_of_getElem? hp))
  intro p hp
  cases action with
  | post packet =>
    rw [Channel.step, ← List.append_assoc] at hp
    rcases List.mem_append.mp hp with hp | hp
    · exact List.mem_append_left _ (h p hp)
    · exact List.mem_append_right _ hp
  | lose i =>
    rcases List.mem_append.mp hp with hp | hp
    · exact h p (List.mem_append_left _ hp)
    · exact h p (List.mem_append_right _ (List.mem_of_mem_eraseIdx hp))
  | duplicate i =>
    rw [Channel.step, ← List.append_assoc] at hp
    rcases List.mem_append.mp hp with hp | hp
    · exact h p hp
    · exact hflight i p (Option.mem_toList.mp hp)
  | deliver i =>
    rcases List.mem_append.mp hp with hp | hp
    · rcases List.mem_append.mp hp with hp | hp
      · exact h p (List.mem_append_left _ hp)
      · exact hflight i p (Option.mem_toList.mp hp)
    · exact h p (List.mem_append_right _ (List.mem_of_mem_eraseIdx hp))

theorem authentic_run (actions : List (Action π)) : (empty.run actions).Authentic :=
  run_preserves (K := fun _ => True) (fun _ action h _ => h.step action)
    (by simp [Authentic, empty]) fun _ _ => trivial

theorem getElem?_append_eraseIdx_perm (xs : List π) (i : ℕ) :
    (xs[i]?.toList ++ xs.eraseIdx i).Perm xs := by
  by_cases hi : i < xs.length
  · rw [List.getElem?_eq_getElem hi]
    exact List.getElem_cons_eraseIdx_perm hi
  · rw [List.getElem?_eq_none (not_lt.mp hi), List.eraseIdx_of_length_le (not_lt.mp hi)]
    exact List.Perm.refl xs

/-- Nothing is delivered or in flight more often than it was posted. -/
def AtMostOnce (c : Channel π) : Prop := (c.delivered ++ c.inFlight).Subperm c.posted

theorem AtMostOnce.step (h : c.AtMostOnce) {action : Action π} (hsingle : action.Single) :
    (c.step action).AtMostOnce := by
  cases action with
  | post packet =>
    rw [AtMostOnce, Channel.step, ← List.append_assoc]
    exact h.append (List.Subperm.refl [packet])
  | lose i =>
    have hsub : (c.delivered ++ c.inFlight.eraseIdx i).Sublist (c.delivered ++ c.inFlight) :=
      (List.eraseIdx_sublist c.inFlight i).append_left c.delivered
    exact hsub.subperm.trans h
  | duplicate i => exact hsingle.elim
  | deliver i =>
    have hperm : (c.delivered ++ c.inFlight[i]?.toList ++ c.inFlight.eraseIdx i).Perm
        (c.delivered ++ c.inFlight) := by
      rw [List.append_assoc]
      exact (getElem?_append_eraseIdx_perm c.inFlight i).append_left c.delivered
    exact hperm.subperm.trans h

theorem atMostOnce_run (hsingle : ∀ action ∈ actions, action.Single) :
    (empty.run actions).AtMostOnce :=
  run_preserves (fun _ _ h hkind => h.step hkind) (List.Subperm.refl []) hsingle

def Ordered (c : Channel π) : Prop := (c.delivered ++ c.inFlight).Sublist c.posted

theorem deliver_first (xs : List π) : xs[0]?.toList ++ xs.eraseIdx 0 = xs := by
  cases xs <;> rfl

theorem Ordered.step (h : c.Ordered) {action : Action π} (hsingle : action.Single)
    (horder : action.InOrder) : (c.step action).Ordered := by
  cases action with
  | post packet =>
    rw [Ordered, Channel.step, ← List.append_assoc]
    exact h.append (List.Sublist.refl [packet])
  | lose i =>
    have hsub : (c.delivered ++ c.inFlight.eraseIdx i).Sublist (c.delivered ++ c.inFlight) :=
      (List.eraseIdx_sublist c.inFlight i).append_left c.delivered
    exact hsub.trans h
  | duplicate i => exact hsingle.elim
  | deliver i =>
    have hzero : i = 0 := horder
    rw [Ordered, Channel.step, hzero, List.append_assoc, deliver_first]
    exact h

theorem ordered_run (hsingle : ∀ action ∈ actions, action.Single)
    (horder : ∀ action ∈ actions, action.InOrder) : (empty.run actions).Ordered :=
  run_preserves (K := fun action => action.Single ∧ action.InOrder)
    (fun _ _ h hkind => h.step hkind.1 hkind.2) (List.Sublist.refl [])
    fun action ha => ⟨hsingle action ha, horder action ha⟩

def Complete (c : Channel π) : Prop := c.posted.length ≤ (c.delivered ++ c.inFlight).length

theorem Complete.step (h : c.Complete) {action : Action π} (hlossless : action.Lossless) :
    (c.step action).Complete := by
  unfold Complete at h ⊢
  rw [List.length_append] at h ⊢
  cases action with
  | post packet =>
    simp only [Channel.step, List.length_append]
    omega
  | lose i => exact hlossless.elim
  | duplicate i =>
    simp only [Channel.step, List.length_append]
    omega
  | deliver i =>
    have hlength := (getElem?_append_eraseIdx_perm c.inFlight i).length_eq
    rw [List.length_append] at hlength
    simp only [Channel.step, List.length_append]
    omega

end Channel
end LossyChannel
