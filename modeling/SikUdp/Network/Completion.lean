import SikUdp.Network.Delivery

/-!
# Nothing missing

Where neither the network nor `sendto` fails, a client has printed at a quiet end all that
was sent to it, and the recipients are those the record of clients names. Whatever happened
before, sending and delivering alone lead to such an end.
-/
namespace SikUdp.Network

variable {bufferSize : ℕ} {setting : Setting} {N N' : Network bufferSize} {actions : List Action}
  {events trace : List Event} {a : SockAddr}

/-- A quiet end: nothing is on the way to `a`, the server holds no message and does not wait
to send to `a`. -/
structure Quiet (a : SockAddr) (N : Network bufferSize) : Prop where
  arrived : (N.channels a).inFlight = []
  served : a ∉ N.server.currentClients
  empty : N.server.buffer.toList = []

/-- Neither the network nor `sendto` fails the client at `a`, and nobody else sends it what it
prints: a call of `sendto` reports that it would block, or sends all. -/
structure Undisturbed (setting : Setting) (fileContent : List UInt8) (a : SockAddr)
    (actions : List Action) : Prop where
  unforged : Unforged a actions
  single : ∀ x ∈ actions, ¬ x.Duplicates a
  inOrder : ∀ x ∈ actions, ¬ x.Overtakes setting a
  lossless : ∀ x ∈ actions, ¬ x.Loses a
  sent : ∀ sendto, .serverSend sendto ∈ actions →
    sendto.wouldBlock = true ∨ sendto.length = ((10 + fileContent.length : ℕ) : ℤ)

theorem Undisturbed.append {fileContent : List UInt8} {after : List Action}
    (h : Undisturbed setting fileContent a actions)
    (h' : Undisturbed setting fileContent a after) :
    Undisturbed setting fileContent a (actions ++ after) where
  unforged packet hx := (List.mem_append.mp hx).elim (h.unforged packet) (h'.unforged packet)
  single := List.forall_mem_append.mpr ⟨h.single, h'.single⟩
  inOrder := List.forall_mem_append.mpr ⟨h.inOrder, h'.inOrder⟩
  lossless := List.forall_mem_append.mpr ⟨h.lossless, h'.lossless⟩
  sent sendto hx := (List.mem_append.mp hx).elim (h.sent sendto) (h'.sent sendto)

end SikUdp.Network
