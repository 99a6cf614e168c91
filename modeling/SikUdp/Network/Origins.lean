import SikUdp.Network.Parties
import SikUdp.Startup.ClientProgram

/-!
# Where accepted messages come from

The messages the server accepts are those in the packets delivered to it, and these were
sent by client programs or forged. The server is not its own client: it puts nothing into
the channel to itself unless somebody forges its address.
-/
namespace SikUdp

namespace Server

variable {bufferSize : ℕ} {rule : EraseRule}

structure Avoids (a : SockAddr) (s : Server bufferSize) : Prop where
  stored : a ∉ s.connections.addresses
  waiting : a ∉ s.currentClients

theorem Fresh.avoids {s : Server bufferSize} (h : s.Fresh) (a : SockAddr) : s.Avoids a where
  stored := by simp [h.connections, Connections.empty, Connections.addresses]
  waiting := by simp [h.currentClients]

theorem send_avoids {a : SockAddr} {s s' : Server bufferSize} {answer : SendtoResult}
    {events : List Event} (hs : s.Avoids a) (h : s.send rule answer = .ok (s', events)) :
    s'.Avoids a ∧ ∀ attempt, .attempted attempt ∈ events → attempt.address ≠ a := by
  have hknows : s.Knows (s.connections.addresses ++ s.currentClients) :=
    ⟨fun b hb => List.mem_append_left _ hb, fun b hb => List.mem_append_right _ hb⟩
  have hother : a ∉ s.connections.addresses ++ s.currentClients := by
    rw [List.mem_append]
    exact not_or.mpr ⟨hs.stored, hs.waiting⟩
  obtain ⟨hknows', hserves⟩ := send_knows hknows h
  refine ⟨⟨fun ha => hother (hknows'.stored a ha), fun ha => hother (hknows'.waiting a ha)⟩, ?_⟩
  rintro attempt hattempt rfl
  exact hother (hserves _ hattempt)

theorem receive_avoids {a : SockAddr} {s s' : Server bufferSize} {input : ReceiveInput}
    {events : List Event} (hsock : s.SockRegistered) (hs : s.Avoids a)
    (hinput : clientAddress input.recvfrom ≠ a) (h : s.receive input = .ok (s', events)) :
    s'.Avoids a ∧ ∀ attempt, .attempted attempt ∉ events := by
  have hadd : ∀ {source t connections}, s.connections.addClient source t = .ok connections →
      source ≠ a → a ∉ connections.addresses := by
    intro source t connections hadd hsource ha
    rcases Connections.mem_addresses_addClient hadd ha with ha | rfl
    · exact hs.stored ha
    · exact hsource rfl
  cases receive_reception hsock h with
  | failed hrecv hclient =>
    rw [hrecv] at hinput
    exact ⟨⟨hadd hclient hinput, hs.waiting⟩, by simp⟩
  | rejected what hrecv hreject hclient =>
    rw [hrecv] at hinput
    exact ⟨⟨hadd hclient hinput, hs.waiting⟩, by simp⟩
  | accepted hrecv hdecode hempty hpoll hclient =>
    rw [hrecv] at hinput
    exact ⟨⟨hadd hclient hinput, hs.waiting⟩, by simp⟩

end Server

namespace Network

variable {bufferSize : ℕ} {setting : Setting} {N N' : Network bufferSize} {x : Action}
  {actions : List Action} {events trace : List Event}

def requestOf (packet : Packet) : Option (SockAddr × Message) :=
  match decode false packet.2.bytes with
  | .ok message => if message.message = [] then some (packet.1, message) else none
  | .error _ => none

theorem requestOf_of_decode {packet : Packet} {message : Message}
    (hdecode : decode false packet.2.bytes = .ok message) (hempty : message.message = []) :
    requestOf packet = some (packet.1, message) := by
  rw [requestOf, hdecode]
  exact if_pos hempty

theorem requestOf_eq_none {packet : Packet}
    (h : ∀ message, decode false packet.2.bytes = .ok message → message.message ≠ []) :
    requestOf packet = none := by
  unfold requestOf
  cases hdecode : decode false packet.2.bytes with
  | error e => rfl
  | ok message => exact if_neg (h message hdecode)

def origin (item : BufferData) : SockAddr × Option Message := (item.sender, item.message)

theorem receive_accepted {s s' : Server bufferSize} (hsock : s.SockRegistered)
    (channel : LossyChannel.Channel Packet) (i : ℕ) {arrivalTime connectionTime : ℤ}
    (h : s.receive ⟨recvfrom channel i, arrivalTime, connectionTime⟩ = .ok (s', events)) :
    (Server.acceptedItems events).map origin =
      (channel.inFlight[i]?.toList.filterMap requestOf).map fun q => (q.1, some q.2) := by
  unfold recvfrom at h
  cases hpacket : channel.inFlight[i]? with
  | none =>
    rw [hpacket] at h
    cases Server.receive_reception hsock h with
    | failed hinput hadd => rfl
    | rejected what hinput hreject hadd => cases hinput
    | accepted hinput hdecode hempty hpoll hadd => cases hinput
  | some packet =>
    rw [hpacket] at h
    cases Server.receive_reception hsock h with
    | failed hinput hadd => cases hinput
    | rejected what hinput hreject hadd =>
      cases hinput
      simp [requestOf_eq_none hreject, Server.acceptedItems, Server.acceptedItem]
    | accepted hinput hdecode hempty hpoll hadd =>
      cases hinput
      simp [requestOf_of_decode hdecode hempty, Server.acceptedItems, Server.acceptedItem, origin]

theorem step_accepts_nothing (h : N.step setting x = .ok (N', events))
    (hx : ∀ i arrivalTime connectionTime, x ≠ .serverReceive i arrivalTime connectionTime) :
    Server.acceptedItems events = [] := by
  have hserver := step_server h
  cases x with
  | serverReceive i arrivalTime connectionTime => exact absurd rfl (hx i _ _)
  | serverSend sendto =>
    rw [Server.acceptedItems_eq, Server.send_observations hserver]
    rfl
  | serverWait answer =>
    obtain ⟨-, rfl⟩ := Prod.mk.inj (Except.ok.inj (hserver.symm.trans (Server.step_wait _ _ _)))
    rfl
  | serverStop =>
    obtain ⟨-, rfl⟩ := Prod.mk.inj (Except.ok.inj hserver)
    rfl
  | _ =>
    obtain ⟨-, rfl⟩ := hserver
    rfl

theorem step_delivered_server (h : N.step setting x = .ok (N', events))
    (haway : N.clients setting.serverAddress = none)
    (hx : ∀ i arrivalTime connectionTime, x ≠ .serverReceive i arrivalTime connectionTime) :
    (N'.channels setting.serverAddress).delivered =
      (N.channels setting.serverAddress).delivered := by
  by_cases hclient : ∃ i, x = .clientReceive setting.serverAddress i
  · obtain ⟨i, rfl⟩ := hclient
    rw [step, haway] at h
    cases h
    rfl
  · obtain ⟨move, hrun, hmove⟩ := step_channels h setting.serverAddress
    rw [hrun, LossyChannel.Channel.run_append, delivered_run_posts]
    cases move with
    | none => rfl
    | some act =>
      cases hmove act rfl with
      | clientReceive i => exact absurd ⟨i, rfl⟩ hclient
      | serverReceive i arrivalTime connectionTime haddress => exact absurd rfl (hx i _ _)
      | lose i => rfl
      | duplicate i => rfl

theorem step_accepted (h : N.step setting x = .ok (N', events))
    (hsock : N.server.SockRegistered) (haway : N.clients setting.serverAddress = none) :
    ∃ new, (N'.channels setting.serverAddress).delivered =
        (N.channels setting.serverAddress).delivered ++ new ∧
      (Server.acceptedItems events).map origin =
        (new.filterMap requestOf).map fun q => (q.1, some q.2) := by
  by_cases hx : ∃ i arrivalTime connectionTime, x = .serverReceive i arrivalTime connectionTime
  · obtain ⟨i, arrivalTime, connectionTime, rfl⟩ := hx
    have hserver := step_server h
    refine ⟨(N.channels setting.serverAddress).inFlight[i]?.toList, ?_,
      receive_accepted hsock (N.channels setting.serverAddress) i hserver⟩
    rw [serverStep_channels h, useChannel_channels, if_pos rfl, delivered_run_posts]
    rfl
  · have hother : ∀ i arrivalTime connectionTime,
        x ≠ .serverReceive i arrivalTime connectionTime :=
      fun i arrivalTime connectionTime heq => hx ⟨i, arrivalTime, connectionTime, heq⟩
    refine ⟨[], ?_, ?_⟩
    · rw [List.append_nil, step_delivered_server h haway hother]
    · rw [step_accepts_nothing h hother]
      rfl

theorem step_sockRegistered (h : N.step setting x = .ok (N', events))
    (hsock : N.server.SockRegistered) : N'.server.SockRegistered := by
  have hserver := step_server h
  cases hinput : serverInput setting N x with
  | none =>
    rw [hinput] at hserver
    rwa [hserver.1]
  | some input =>
    rw [hinput] at hserver
    exact Server.step_sockRegistered hsock hserver

theorem run_accepted (h : N.run setting actions = .ok (N', trace))
    (hsock : N.server.SockRegistered) (haway : N.clients setting.serverAddress = none) :
    ∃ new, (N'.channels setting.serverAddress).delivered =
        (N.channels setting.serverAddress).delivered ++ new ∧
      (Server.acceptedItems trace).map origin =
        (new.filterMap requestOf).map fun q => (q.1, some q.2) := by
  induction actions generalizing N trace with
  | nil =>
    cases h
    exact ⟨[], by simp, rfl⟩
  | cons x actions ih =>
    obtain ⟨N₁, events, later, hstep, hrest, rfl⟩ := TracedRun.run_cons_ok.mp h
    obtain ⟨first, hfirst, haccepted⟩ := step_accepted hstep hsock haway
    obtain ⟨new, hnew, hlater⟩ := ih hrest (step_sockRegistered hstep hsock)
      (step_away hstep haway)
    refine ⟨first ++ new, by rw [hnew, hfirst, List.append_assoc], ?_⟩
    rw [Server.acceptedItems, List.filterMap_append, ← Server.acceptedItems,
      ← Server.acceptedItems, List.map_append, haccepted, hlater, List.filterMap_append,
      List.map_append]

theorem datagram_bytes {attempt : Attempt} {d : Datagram} (h : attempt.datagram = some d) :
    d.bytes = attempt.data ∧ attempt.result.wouldBlock = false := by
  unfold Attempt.datagram at h
  split_ifs at h with hlength hfit
  cases h
  refine ⟨rfl, ?_⟩
  have hpos : ¬ attempt.result.length < 0 := by omega
  simp [SendtoResult.wouldBlock, hpos]

theorem start_attempts {argv : List (List UInt8)} {env : List UInt8 → Client.Environment}
    {sendto : SendtoResult} {started : ClientProgram.Started}
    (h : ClientProgram.start setting.cast16 setting.cast64 argv env sendto = .ok started) :
    ∃ message : Message, message.message = [] ∧ started.attempts =
      [⟨started.client.address, Sender.dataOf message false, sendto⟩] := by
  obtain ⟨arguments, -, h⟩ := TracedRun.bind_ok_iff.mp h
  obtain ⟨client, -, h⟩ := TracedRun.bind_ok_iff.mp h
  obtain ⟨message, hmessage, h⟩ := TracedRun.bind_ok_iff.mp h
  rw [client.send_eq] at h
  obtain ⟨errors, -, heq⟩ := TracedRun.bind_ok_iff.mp h
  cases heq
  have hfields : Message.ofFields arguments.timestamp arguments.character [] = .ok message := by
    cases hresult : Message.ofFields arguments.timestamp arguments.character [] with
    | ok m =>
      rw [hresult] at hmessage
      exact congrArg Except.ok (Except.ok.inj hmessage)
    | error e =>
      rw [hresult] at hmessage
      cases e <;> cases hmessage
  exact ⟨message, (Message.ofFields_eq_ok_iff.mp hfields).2.2, rfl⟩

/-- What is sent by others than the server: forged packets, and from every client program the
datagram of its message. -/
theorem mem_sends {a : SockAddr} {p : Packet} (hp : p ∈ x.sends setting a) :
    x = .forge p a ∨ ∃ argv env sendto started message, x = .start p.1 argv env sendto ∧
      p.1 ≠ setting.serverAddress ∧
      ClientProgram.start setting.cast16 setting.cast64 argv env sendto = .ok started ∧
      started.client.address = a ∧ message.message = [] ∧
      started.attempts = [⟨a, Sender.dataOf message false, sendto⟩] ∧
      p.2.bytes = Sender.dataOf message false := by
  cases x with
  | start b argv env sendto =>
    rw [Action.sends] at hp
    split_ifs at hp with hb
    · cases hp
    · cases hstart : ClientProgram.start setting.cast16 setting.cast64 argv env sendto with
      | error ending =>
        rw [hstart] at hp
        cases hp
      | ok started =>
        rw [hstart] at hp
        obtain ⟨message, hempty, hattempts⟩ := start_attempts hstart
        obtain ⟨attempt, hattempt, hmail⟩ := List.mem_filterMap.mp hp
        rw [hattempts, List.mem_singleton] at hattempt
        split_ifs at hmail with ha
        obtain ⟨d, hd, rfl⟩ := Option.map_eq_some_iff.mp hmail
        have haddress : started.client.address = a := by rw [← ha, hattempt]
        rw [haddress] at hattempts
        refine Or.inr ⟨argv, env, sendto, started, message, rfl, hb, hstart, haddress, hempty,
          hattempts, ?_⟩
        rw [(datagram_bytes hd).1, hattempt]
  | forge packet destination =>
    rw [Action.sends] at hp
    split_ifs at hp with ha
    · rw [List.mem_singleton.mp hp, ha]
      exact Or.inl rfl
    · cases hp
  | _ => cases hp

/-- Nobody claims to be the server in a packet sent to it. -/
def Unclaimed (setting : Setting) (actions : List Action) : Prop :=
  ∀ packet, .forge packet setting.serverAddress ∈ actions → packet.1 ≠ setting.serverAddress

/-- The server has no record of its own address, and no packet from it is on the way to it. -/
structure Apart (setting : Setting) (N : Network bufferSize) : Prop where
  sockRegistered : N.server.SockRegistered
  avoids : N.server.Avoids setting.serverAddress
  authentic : (N.channels setting.serverAddress).Authentic
  posted : ∀ p ∈ (N.channels setting.serverAddress).posted, p.1 ≠ setting.serverAddress

theorem mail_eq_nil {source a : SockAddr} {attempts : List Attempt}
    (h : ∀ attempt ∈ attempts, attempt.address ≠ a) : mail source a attempts = [] := by
  rw [mail, List.filterMap_eq_nil_iff]
  intro attempt hattempt
  exact if_neg (h attempt hattempt)

theorem sends_source {a : SockAddr}
    (hclaim : ∀ packet, x = .forge packet a → packet.1 ≠ setting.serverAddress) :
    ∀ p ∈ x.sends setting a, p.1 ≠ setting.serverAddress := by
  intro p hp
  rcases mem_sends hp with hforge | ⟨argv, env, sendto, started, message, -, hsource, -⟩
  · exact hclaim p hforge
  · exact hsource

/-- A step leaves the server apart, and makes no call of `sendto` to its own address. -/
theorem Apart.step (hN : Apart setting N) (hzero : setting.serverAddress ≠ .zero)
    (hclaim : ∀ packet, x = .forge packet setting.serverAddress →
      packet.1 ≠ setting.serverAddress)
    (h : N.step setting x = .ok (N', events)) :
    Apart setting N' ∧
      mail setting.serverAddress setting.serverAddress (events.filterMap Event.attempt) = [] := by
  have havoids : N'.server.Avoids setting.serverAddress ∧
      ∀ attempt, .attempted attempt ∈ events → attempt.address ≠ setting.serverAddress := by
    have hserver := step_server h
    cases x with
    | serverReceive i arrivalTime connectionTime =>
      have hsource : Server.clientAddress (recvfrom (N.channels setting.serverAddress) i) ≠
          setting.serverAddress := by
        unfold recvfrom
        cases hpacket : (N.channels setting.serverAddress).inFlight[i]? with
        | none => exact hzero.symm
        | some packet =>
          refine hN.posted packet (hN.authentic packet ?_)
          exact List.mem_append_right _ (List.mem_of_getElem? hpacket)
      obtain ⟨hs, hnone⟩ := Server.receive_avoids hN.sockRegistered hN.avoids hsource hserver
      exact ⟨hs, fun attempt hattempt => absurd hattempt (hnone attempt)⟩
    | serverSend sendto => exact Server.send_avoids hN.avoids hserver
    | serverWait answer =>
      obtain ⟨hs, rfl⟩ :=
        Prod.mk.inj (Except.ok.inj (hserver.symm.trans (Server.step_wait _ _ _)))
      rw [hs]
      exact ⟨⟨hN.avoids.stored, hN.avoids.waiting⟩, by simp⟩
    | serverStop =>
      obtain ⟨hs, rfl⟩ := Prod.mk.inj (Except.ok.inj hserver)
      rw [← hs]
      exact ⟨⟨hN.avoids.stored, hN.avoids.waiting⟩, by simp⟩
    | _ =>
      obtain ⟨hs, rfl⟩ := hserver
      rw [hs]
      exact ⟨hN.avoids, by simp⟩
  have hmail : mail setting.serverAddress setting.serverAddress
      (events.filterMap Event.attempt) = [] := by
    apply mail_eq_nil
    intro attempt hattempt
    obtain ⟨e, he, hevent⟩ := List.mem_filterMap.mp hattempt
    cases e with
    | attempted attempt' =>
      cases hevent
      exact havoids.2 attempt he
    | _ => cases hevent
  obtain ⟨move, hrun, -⟩ := step_channels h setting.serverAddress
  refine ⟨⟨step_sockRegistered h hN.sockRegistered, havoids.1, ?_, ?_⟩, hmail⟩
  · rw [hrun]
    exact LossyChannel.Channel.run_preserves (K := fun _ => True)
      (fun _ action hc _ => hc.step action) hN.authentic fun _ _ => trivial
  · intro p hp
    rw [step_posted h, posts, hmail, List.append_nil] at hp
    rcases List.mem_append.mp hp with hp | hp
    · exact hN.posted p hp
    · exact sends_source hclaim p hp

theorem Apart.run (hN : Apart setting N) (hzero : setting.serverAddress ≠ .zero)
    (hclaim : Unclaimed setting actions) (h : N.run setting actions = .ok (N', trace)) :
    mail setting.serverAddress setting.serverAddress (trace.filterMap Event.attempt) = [] := by
  induction actions generalizing N trace with
  | nil =>
    cases h
    rfl
  | cons x actions ih =>
    obtain ⟨N₁, events, later, hstep, hrest, rfl⟩ := TracedRun.run_cons_ok.mp h
    obtain ⟨hapart, hmail⟩ := hN.step hzero
      (fun packet hx => hclaim packet (hx ▸ List.mem_cons_self)) hstep
    rw [List.filterMap_append, mail_append, hmail,
      ih hapart (fun packet hx => hclaim packet (List.mem_cons_of_mem x hx)) hrest,
      List.append_nil]

theorem apart_initial (setting : Setting) {server : Server bufferSize}
    (hserver : server.Constructed) : Apart setting (initial server) where
  sockRegistered := hserver.fresh.sockRegistered
  avoids := hserver.fresh.avoids _
  authentic := LossyChannel.Channel.authentic_run []
  posted := by simp [initial, LossyChannel.Channel.empty]

end Network
end SikUdp
