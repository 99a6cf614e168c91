import SikUdp.Program.Client
import SikUdp.Wire.Formats

/-!
# Datagrams from strangers

A client prints what it decodes, whoever sent it. Its output is that of the server's
datagrams alone exactly if none of the other datagrams is one a client accepts.
-/
namespace SikUdp.Client

abbrev Arrival := SockAddr × Datagram

def lines (outputs : List Output) : List (List UInt8) :=
  outputs.filterMap fun
    | .line text => some text
    | _ => none

/-- What a client prints when these datagrams arrive. -/
def printed (c : Client) (arrivals : List Arrival) : Except Abort (List (List UInt8)) :=
  (c.run (arrivals.map fun a => .received a.1 a.2)).map fun r => lines r.2

/-- The datagrams that come from the configured server. -/
def fromServer (c : Client) (arrivals : List Arrival) : List Arrival :=
  arrivals.filter fun a => a.1 = c.address

/-- A datagram that a client accepts: long enough, with a proper timestamp, and ended by
a NUL byte. -/
def Acceptable (bytes : List UInt8) : Prop :=
  10 ≤ bytes.length ∧ wireTimestamp bytes ≤ maxTimestamp.toNat ∧ bytes.getLast? = some 0

/-- No stranger sends a datagram that a client accepts. -/
def StrangersRejected (c : Client) (arrivals : List Arrival) : Prop :=
  ∀ a ∈ arrivals, a.1 ≠ c.address → ¬ Acceptable a.2.bytes

def lineOf (d : Datagram) : Option (List UInt8) :=
  match decode true d.bytes with
  | .ok message => some (message.print ++ [10])
  | .error _ => none

theorem lineOf_eq_none_iff (d : Datagram) : lineOf d = none ↔ ¬ Acceptable d.bytes := by
  have haccepts : (∃ m, decode true d.bytes = .ok m) ↔ Acceptable d.bytes := by
    rw [decode_accepts_iff]
    unfold Acceptable Message.messageOffset
    constructor
    · rintro ⟨-, htext, htime⟩
      exact ⟨(htext rfl).1, htime, (htext rfl).2⟩
    · rintro ⟨hlen, htime, hlast⟩
      exact ⟨by omega, fun _ => ⟨hlen, hlast⟩, htime⟩
  rw [← haccepts, lineOf]
  cases decode true d.bytes with
  | error a => simp
  | ok m => simp

theorem receive_lines (c : Client) (source : SockAddr) (d : Datagram) :
    ∃ receiver outputs, c.receive (.received source d) = .ok ({ c with receiver }, outputs) ∧
      lines outputs = (lineOf d).toList := by
  have hdecode := c.receiver.receiveMessage_received source d true
  unfold receive
  generalize c.receiver.receiveMessage (.received source d) true = received at hdecode ⊢
  obtain ⟨receiver, outcome⟩ := received
  dsimp only at hdecode ⊢
  subst hdecode
  unfold lineOf
  cases hresult : decode true d.bytes with
  | ok message => exact ⟨receiver, _, rfl, rfl⟩
  | error a =>
    obtain ⟨what, rfl⟩ := decode_error hresult
    exact ⟨receiver, _, rfl, rfl⟩

theorem runLoop_lines (c : Client) (hrunning : c.stopping = false) (arrivals : List Arrival) :
    ∃ c' outputs, c.runLoop (arrivals.map fun a => .received a.1 a.2) = .ok (c', outputs) ∧
      lines outputs = arrivals.filterMap fun a => lineOf a.2 := by
  induction arrivals generalizing c with
  | nil => exact ⟨c, [], rfl, rfl⟩
  | cons a arrivals ih =>
    obtain ⟨receiver, outputs, hreceive, hlines⟩ := c.receive_lines a.1 a.2
    obtain ⟨c', more, hloop, hmore⟩ := ih { c with receiver } hrunning
    refine ⟨c', outputs ++ more, ?_, ?_⟩
    · rw [List.map_cons, runLoop, hrunning, if_neg Bool.false_ne_true, hreceive]
      simp [bind, Except.bind, hloop]
    · rw [lines, List.filterMap_append, ← lines, ← lines, hlines, hmore]
      cases hline : lineOf a.2 <;> simp [hline]

theorem printed_eq (c : Client) (arrivals : List Arrival) :
    c.printed arrivals = .ok (arrivals.filterMap fun a => lineOf a.2) := by
  obtain ⟨c', outputs, hrun, hlines⟩ := runLoop_lines { c with stopping := false } rfl arrivals
  rw [printed, run, hrun, ← hlines]
  rfl

theorem filterMap_filter_eq_iff {α β : Type} (f : α → Option β) (p : α → Bool) (xs : List α) :
    (xs.filter p).filterMap f = xs.filterMap f ↔ ∀ x ∈ xs, p x = false → f x = none := by
  induction xs with
  | nil => simp
  | cons x xs ih =>
    by_cases hx : p x = true
    · rw [List.filter_cons_of_pos hx]
      cases hf : f x <;> simp [hf, hx, ih]
    · have hx' : p x = false := Bool.eq_false_iff.mpr hx
      rw [List.filter_cons_of_neg hx]
      cases hf : f x with
      | none => simp [hf, ih]
      | some b =>
        have hle : ((xs.filter p).filterMap f).length ≤ (xs.filterMap f).length :=
          (List.filter_sublist.filterMap f).length_le
        constructor
        · intro heq
          rw [heq, List.filterMap_cons_some hf, List.length_cons] at hle
          omega
        · intro hnone
          have hfx := hnone x List.mem_cons_self hx'
          rw [hf] at hfx
          cases hfx

theorem printed_fromServer_iff (c : Client) (arrivals : List Arrival) :
    c.printed (c.fromServer arrivals) = c.printed arrivals ↔ c.StrangersRejected arrivals := by
  rw [printed_eq, printed_eq, Except.ok.injEq, fromServer, filterMap_filter_eq_iff]
  simp only [decide_eq_false_iff_not, lineOf_eq_none_iff]
  rfl

/-- Only the server's datagrams are printed exactly if no stranger sends an acceptable one.
Two sequences with the same datagrams from the server, in one of which this is so, are
printed alike exactly if it is so in the other. -/
theorem strangers_silent_iff (c : Client) (arrivals : List Arrival) :
    (c.printed (c.fromServer arrivals) = c.printed arrivals ↔ c.StrangersRejected arrivals) ∧
    ∀ arrivals', c.fromServer arrivals' = c.fromServer arrivals → c.StrangersRejected arrivals →
      (c.printed arrivals' = c.printed arrivals ↔ c.StrangersRejected arrivals') := by
  refine ⟨printed_fromServer_iff c arrivals, ?_⟩
  intro arrivals' hsame hrejected
  have hserver := (printed_fromServer_iff c arrivals).mpr hrejected
  rw [← printed_fromServer_iff, hsame, hserver]
  exact eq_comm

def sampleClient : Client := ⟨3, ⟨0x0100000a, htons 20160⟩, false, Receiver.zeroed⟩

def strangerDatagram : Datagram := ⟨[0, 0, 0, 0, 0, 0, 0, 0, 97, 98, 0], by decide⟩

theorem strangers_silent_iff_sample :
    sampleClient.printed [(⟨7, 7⟩, sampleDatagram)] = sampleClient.printed [] ↔
      sampleClient.StrangersRejected [(⟨7, 7⟩, sampleDatagram)] :=
  (strangers_silent_iff sampleClient []).2 [(⟨7, 7⟩, sampleDatagram)] rfl
    (by simp [StrangersRejected])

/-- A single datagram of a stranger is printed. -/
theorem stranger_printed :
    ¬ ∀ (c : Client) (arrivals arrivals' : List Arrival),
      c.fromServer arrivals = c.fromServer arrivals' →
      c.printed arrivals = c.printed arrivals' := by
  intro hclaim
  have hsame := hclaim sampleClient [(⟨7, 7⟩, strangerDatagram)] [] rfl
  rw [printed_eq, printed_eq, Except.ok.injEq] at hsame
  have hnone : lineOf strangerDatagram = none := by
    cases hline : lineOf strangerDatagram with
    | none => rfl
    | some line => simp [hline] at hsame
  exact (lineOf_eq_none_iff strangerDatagram).mp hnone ⟨by decide, by decide, by decide⟩

end SikUdp.Client
