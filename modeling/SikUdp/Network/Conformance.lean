import SikUdp.Network.Delivery

/-!
# What the programs send

Every packet in the network was forged or has the format that its sender owes it. So where
nobody forges packets and the clients address the server, no datagram is ever reported as
invalid.
-/
namespace SikUdp.Network

variable {bufferSize : ℕ} {setting : Setting} {N N' : Network bufferSize} {x : Action}
  {actions : List Action} {events trace : List Event} {a : SockAddr} {p : Packet}

theorem run_posted (h : N.run setting actions = .ok (N', trace)) :
    ∀ p ∈ (N'.channels a).posted, p ∈ (N.channels a).posted ∨
      (∃ x ∈ actions, p ∈ x.sends setting a) ∨
      p ∈ mail setting.serverAddress a (trace.filterMap Event.attempt) := by
  induction actions generalizing N trace with
  | nil =>
    cases h
    exact fun p hp => Or.inl hp
  | cons x actions ih =>
    obtain ⟨N₁, events, later, hstep, hrest, rfl⟩ := TracedRun.run_cons_ok.mp h
    intro p hp
    rw [List.filterMap_append, mail_append, List.mem_append]
    rcases ih hrest p hp with hp | ⟨y, hy, hp⟩ | hp
    · rw [step_posted hstep, posts] at hp
      rcases List.mem_append.mp hp with hp | hp
      · exact Or.inl hp
      · rcases List.mem_append.mp hp with hp | hp
        · exact Or.inr (Or.inl ⟨x, List.mem_cons_self, hp⟩)
        · exact Or.inr (Or.inr (Or.inl hp))
    · exact Or.inr (Or.inl ⟨y, List.mem_cons_of_mem x hy, hp⟩)
    · exact Or.inr (Or.inr (Or.inr hp))

/-- A packet of the server shows a message to one of its recipients. -/
structure Serves (fileContent : List UInt8) (a : SockAddr) (p : Packet) (job : Server.Job) :
    Prop where
  recipient : a ∈ job.2
  format : IsServerDatagram p.2.bytes
  line : lineOf p = some (lineFor fileContent job.1)

theorem mail_serves {rule : EraseRule} {s : Server bufferSize} {fileContent : List UInt8}
    {past : List Event} (hs : s.Consistent rule fileContent past) (htext : 0 ∉ fileContent)
    (source : SockAddr) (hp : p ∈ mail source a (past.filterMap Event.attempt)) :
    p.1 = source ∧ ∃ job ∈ Server.jobs past, Serves fileContent a p job := by
  obtain ⟨attempt, hattempt, hmail⟩ := List.mem_filterMap.mp hp
  split_ifs at hmail with ha
  obtain ⟨d, hd, rfl⟩ := Option.map_eq_some_iff.mp hmail
  obtain ⟨e, he, hevent⟩ := List.mem_filterMap.mp hattempt
  cases e with
  | attempted attempt' =>
    cases hevent
    obtain ⟨before, after, hsplit⟩ := List.append_of_mem he
    have halong := hs.justified
    rw [hsplit] at halong
    obtain ⟨front, job, hjobs, hrecipient, d', overwritten, haccepted, hdata⟩ := halong.split
    rw [List.nil_append] at hjobs haccepted
    obtain ⟨earlier, later, hearlier⟩ := List.append_of_mem haccepted
    rw [hearlier, List.append_assoc] at halong
    obtain ⟨⟨message, hmessage, hdecode⟩, -⟩ := halong.split
    have hcarries : attempt.data = Sender.dataOf (message.setMessage fileContent) true :=
      hdata.trans (dataOf_decode hdecode).symm
    have hjob : job ∈ Server.jobs past := by
      have hin : .popped job.1 job.2 ∈ before := Server.mem_jobs.mp (by rw [hjobs]; simp)
      rw [Server.mem_jobs, hsplit]
      exact List.mem_append_left _ hin
    refine ⟨rfl, job, hjob, ha ▸ hrecipient, ?_,
      lineOf_attempt htext ⟨message, hmessage, hcarries⟩ source hd⟩
    rw [(datagram_bytes hd).1, hcarries]
    exact isServerDatagram_dataOf htext
  | _ => cases hevent

/-- A packet carries the arguments of the client program that sent it. -/
structure Introduces (setting : Setting) (actions : List Action) (a : SockAddr) (p : Packet)
    (arguments : ClientProgram.Arguments) (message : Message) : Prop where
  started : ∃ argv env sendto started, .start p.1 argv env sendto ∈ actions ∧
    ClientProgram.start setting.cast16 setting.cast64 argv env sendto = .ok started ∧
    ClientProgram.Denotes argv arguments ∧ started.client.address = a
  describes : arguments.Describes message
  format : IsClientDatagram p.2.bytes
  asks : requestOf p = some (p.1, message)

theorem sends_introduces (h16 : setting.cast16.Documented) (h64 : setting.cast64.Documented)
    (hx : x ∈ actions) (hp : p ∈ x.sends setting a) :
    .forge p a ∈ actions ∨ (p.1 ≠ setting.serverAddress ∧
      ∃ arguments message, Introduces setting actions a p arguments message) := by
  rcases mem_sends_describes h16 h64 hp with rfl | ⟨argv, env, sendto, started, arguments, message,
    rfl, hsource, hstart, haddress, hdenotes, hdescribes, hdata⟩
  · exact Or.inl hx
  · refine Or.inr ⟨hsource, arguments, message,
      ⟨argv, env, sendto, started, hx, hstart, hdenotes, haddress⟩, hdescribes, ?_,
      requestOf_of_describes hdescribes hdata⟩
    rw [hdata]
    exact isClientDatagram_dataOf hdescribes.2.2

/-- Whatever happens in the network, a packet anywhere in it was forged, or it comes from the
server, has the server's format and shows a message the server took from its buffer to one of
the recipients computed for it, or it comes from a client program, has the client's format
and shows the server the arguments the program was started with. -/
theorem packets_valid {s₀ : Server bufferSize} (hs₀ : s₀.Constructed)
    (h16 : setting.cast16.Documented) (h64 : setting.cast64.Documented)
    (h : (initial s₀).run setting actions = .ok (N, trace))
    (hp : p ∈ (N.channels a).delivered ++ (N.channels a).inFlight) :
    .forge p a ∈ actions ∨
    (p.1 = setting.serverAddress ∧
      ∃ job ∈ Server.jobs trace, Serves s₀.fileContent a p job) ∨
    (p.1 ≠ setting.serverAddress ∧
      ∃ arguments message, Introduces setting actions a p arguments message) := by
  rcases run_posted h p (run_authentic h a p hp) with hp | ⟨x, hx, hp⟩ | hp
  · cases hp
  · rcases sends_introduces h16 h64 hx hp with hforge | hclient
    · exact Or.inl hforge
    · exact Or.inr (Or.inr hclient)
  · exact Or.inr (Or.inl (mail_serves (run_consistent hs₀ h) hs₀.fresh.text _ hp))

theorem packets_valid_sample :
    ∃ (N : Network 2) (trace : List Event),
      (initial Server.sampleServer).run sampleSetting sampleActions = .ok (N, trace) ∧
      ∀ a p, p ∈ (N.channels a).delivered ++ (N.channels a).inFlight →
        .forge p a ∈ sampleActions ∨
        (p.1 = sampleSetting.serverAddress ∧
          ∃ job ∈ Server.jobs trace, Serves [104, 105] a p job) ∨
        (p.1 ≠ sampleSetting.serverAddress ∧
          ∃ arguments message, Introduces sampleSetting sampleActions a p arguments message) := by
  obtain ⟨N, trace, hrun⟩ := sampleActions_run
  exact ⟨N, trace, hrun, fun a p hp => packets_valid Server.sampleServer_constructed
    (LexicalCast.standard_documented 16) (LexicalCast.standard_documented 64) hrun
    hp⟩

theorem client_complains {client client' : Client} {channel : LossyChannel.Channel Packet} {i : ℕ}
    {outputs : List Client.Output}
    (h : client.receive (recvfrom channel i) = .ok (client', outputs)) {address : SockAddr}
    {what : String} (hinvalid : .invalid address what ∈ outputs) :
    ∃ p ∈ channel.inFlight[i]?, lineOf p = none := by
  unfold recvfrom at h
  cases hpacket : channel.inFlight[i]? with
  | none =>
    rw [hpacket] at h
    cases h
    simp at hinvalid
  | some p =>
    rw [hpacket] at h
    refine ⟨p, rfl, ?_⟩
    have hdecode := client.receiver.receiveMessage_received p.1 p.2 true
    unfold Client.receive at h
    dsimp only at h
    generalize client.receiver.receiveMessage (.received p.1 p.2) true = received at hdecode h
    obtain ⟨receiver, outcome⟩ := received
    dsimp only at hdecode h
    subst hdecode
    unfold lineOf Client.lineOf
    cases hresult : decode true p.2.bytes with
    | ok message =>
      rw [hresult] at h
      cases h
      simp at hinvalid
    | error e => rfl

theorem server_complains {s s' : Server bufferSize} (hsock : s.SockRegistered)
    {channel : LossyChannel.Channel Packet} {i : ℕ} {arrivalTime connectionTime : ℤ}
    (h : s.receive ⟨recvfrom channel i, arrivalTime, connectionTime⟩ = .ok (s', events))
    {address : SockAddr} {what : String} (hrejected : .rejected address what ∈ events) :
    ∃ p ∈ channel.inFlight[i]?, requestOf p = none := by
  unfold recvfrom at h
  cases hpacket : channel.inFlight[i]? with
  | none =>
    rw [hpacket] at h
    cases Server.receive_reception hsock h with
    | failed hinput hadd => simp at hrejected
    | rejected what hinput hreject hadd => cases hinput
    | accepted hinput hdecode hempty hpoll hadd => cases hinput
  | some p =>
    rw [hpacket] at h
    refine ⟨p, rfl, ?_⟩
    cases Server.receive_reception hsock h with
    | failed hinput hadd => cases hinput
    | rejected what hinput hreject hadd =>
      cases hinput
      exact requestOf_eq_none hreject
    | accepted hinput hdecode hempty hpoll hadd => simp at hrejected

structure Complaints (setting : Setting) (past : List Event) (N : Network bufferSize) : Prop where
  sockRegistered : N.server.SockRegistered
  away : N.clients setting.serverAddress = none
  server : ∀ address what, .rejected address what ∈ past →
    ∃ p ∈ (N.channels setting.serverAddress).delivered, requestOf p = none
  clients : ∀ a ≠ setting.serverAddress, ∀ address what, .invalid address what ∈ N.outputs a →
    ∃ p ∈ (N.channels a).delivered, lineOf p = none

theorem step_delivered_subset (h : N.step setting x = .ok (N', events)) (a : SockAddr) :
    (N.channels a).delivered ⊆ (N'.channels a).delivered := by
  obtain ⟨move, hrun, -⟩ := step_channels h a
  rw [hrun, LossyChannel.Channel.run_append, delivered_run_posts]
  cases move with
  | none => exact List.Subset.refl _
  | some act =>
    cases act with
    | deliver i => exact List.subset_append_left _ _
    | _ => exact List.Subset.refl _

theorem Complaints.step {past : List Event} (hN : Complaints setting past N)
    (h : N.step setting x = .ok (N', events)) : Complaints setting (past ++ events) N' := by
  refine ⟨step_sockRegistered h hN.sockRegistered, step_away h hN.away, ?_, ?_⟩
  · intro address what hrejected
    rcases List.mem_append.mp hrejected with hrejected | hrejected
    · obtain ⟨p, hp, hnone⟩ := hN.server address what hrejected
      exact ⟨p, step_delivered_subset h _ hp, hnone⟩
    · have hserver := step_server h
      cases x with
      | serverReceive i arrivalTime connectionTime =>
        obtain ⟨p, hp, hnone⟩ := server_complains hN.sockRegistered hserver hrejected
        refine ⟨p, ?_, hnone⟩
        rw [serverStep_channels h, useChannel_channels, if_pos rfl, delivered_run_posts]
        exact List.mem_append_right _ (Option.mem_toList.mpr hp)
      | serverSend sendto =>
        exact absurd hrejected (Server.send_rejects_nothing hserver address what)
      | serverWait answer =>
        obtain ⟨-, rfl⟩ :=
          Prod.mk.inj (Except.ok.inj (hserver.symm.trans (Server.step_wait _ _ _)))
        cases hrejected
      | serverStop =>
        obtain ⟨-, rfl⟩ := Prod.mk.inj (Except.ok.inj hserver)
        cases hrejected
      | _ =>
        obtain ⟨-, rfl⟩ := hserver
        cases hrejected
  · intro a ha address what hinvalid
    by_cases hx : ∃ i, x = .clientReceive a i
    · obtain ⟨i, rfl⟩ := hx
      rw [Network.step] at h
      cases hclient : N.clients a with
      | none =>
        rw [hclient] at h
        cases h
        exact hN.clients a ha address what hinvalid
      | some client =>
        rw [hclient] at h
        obtain ⟨⟨client', outputs⟩, hreceive, heq⟩ := TracedRun.bind_ok_iff.mp h
        cases heq
        dsimp only at hinvalid ⊢
        rw [Function.update_self] at hinvalid
        rw [useChannel_delivered]
        rcases List.mem_append.mp hinvalid with hinvalid | hinvalid
        · obtain ⟨p, hp, hnone⟩ := hN.clients a ha address what hinvalid
          exact ⟨p, List.mem_append_left _ hp, hnone⟩
        · obtain ⟨p, hp, hnone⟩ := client_complains hreceive hinvalid
          exact ⟨p, List.mem_append_right _ (Option.mem_toList.mpr hp), hnone⟩
    · rw [step_outputs h (not_exists.mp hx)] at hinvalid
      obtain ⟨p, hp, hnone⟩ := hN.clients a ha address what hinvalid
      exact ⟨p, step_delivered_subset h a hp, hnone⟩

theorem run_complaints {past : List Event} (hN : Complaints setting past N)
    (h : N.run setting actions = .ok (N', trace)) : Complaints setting (past ++ trace) N' := by
  induction actions generalizing N past trace with
  | nil =>
    cases h
    rwa [List.append_nil]
  | cons x actions ih =>
    obtain ⟨N₁, events, later, hstep, hrest, rfl⟩ := TracedRun.run_cons_ok.mp h
    rw [← List.append_assoc]
    exact ih (hN.step hstep) hrest

theorem complaints_initial (setting : Setting) {s₀ : Server bufferSize} (hs₀ : s₀.Constructed) :
    Complaints setting [] (initial s₀) where
  sockRegistered := hs₀.fresh.sockRegistered
  away := rfl
  server := by simp
  clients := by simp [initial]

/-- Nobody forges packets, and every client was given the address of the server. -/
structure Closed (setting : Setting) (actions : List Action) : Prop where
  unforged : ∀ p a, .forge p a ∉ actions
  directed : ∀ a argv env sendto started, .start a argv env sendto ∈ actions →
    ClientProgram.start setting.cast16 setting.cast64 argv env sendto = .ok started →
    started.client.address = setting.serverAddress

theorem Closed.sends {a : SockAddr} (h : Closed setting actions) (hx : x ∈ actions)
    (hp : p ∈ x.sends setting a) : a = setting.serverAddress ∧ requestOf p ≠ none := by
  rcases mem_sends hp with rfl | ⟨argv, env, sendto, started, message, rfl, -, hstart, haddress,
    hempty, -, hdata⟩
  · exact absurd hx (h.unforged p a)
  · refine ⟨haddress.symm.trans (h.directed _ argv env sendto started hx hstart), ?_⟩
    have hask : requestOf p = some (p.1, message) := by
      apply requestOf_of_decode _ hempty
      rw [hdata]
      exact decode_dataOf_empty hempty
    simp [hask]

/-- As long as nobody forges packets and all clients address the server, no party ever gets an
invalid datagram: neither does the server reject one nor does a client complain about one. -/
theorem nothing_rejected {s₀ : Server bufferSize} (hs₀ : s₀.Constructed)
    (h : (initial s₀).run setting actions = .ok (N, trace))
    (hzero : setting.serverAddress ≠ .zero) (hclosed : Closed setting actions) :
    (∀ address what, .rejected address what ∉ trace) ∧
    ∀ a ≠ setting.serverAddress, ∀ address what, .invalid address what ∉ N.outputs a := by
  have hcomplaints := run_complaints (complaints_initial setting hs₀) h
  rw [List.nil_append] at hcomplaints
  have hauthentic := run_authentic h
  have hclaim : Unclaimed setting actions :=
    fun p hp => absurd hp (hclosed.unforged p setting.serverAddress)
  constructor
  · intro address what hrejected
    obtain ⟨p, hp, hnone⟩ := hcomplaints.server address what hrejected
    have hposted := hauthentic _ p (List.mem_append_left _ hp)
    rcases run_posted h p hposted with hp | ⟨x, hx, hp⟩ | hp
    · cases hp
    · exact (hclosed.sends hx hp).2 hnone
    · rw [(apart_initial setting hs₀).run hzero hclaim h] at hp
      cases hp
  · intro a ha address what hinvalid
    obtain ⟨p, hp, hnone⟩ := hcomplaints.clients a ha address what hinvalid
    have hposted := hauthentic a p (List.mem_append_left _ hp)
    rcases run_posted h p hposted with hp | ⟨x, hx, hp⟩ | hp
    · cases hp
    · exact ha (hclosed.sends hx hp).1
    · obtain ⟨-, job, -, hserves⟩ := mail_serves (run_consistent hs₀ h) hs₀.fresh.text _ hp
      rw [hserves.line] at hnone
      cases hnone

theorem sampleActions_closed : Closed sampleSetting sampleActions where
  unforged := by simp [sampleActions, sampleStart]
  directed := by
    intro a argv env sendto started hx hstart
    have heq : argv = [[99], [52, 50], [97], [104]] ∧
        env = fun _ => ⟨some 0x0100007f, 3, Receiver.zeroed⟩ := by
      simp only [sampleActions, sampleStart, List.mem_cons, List.not_mem_nil, Action.start.injEq,
        reduceCtorEq, or_false] at hx
      rcases hx with ⟨-, hargv, henv, -⟩ | ⟨-, hargv, henv, -⟩ <;> exact ⟨hargv, henv⟩
    obtain ⟨rfl, rfl⟩ := heq
    rcases ClientProgram.start_cases (LexicalCast.standard_documented 16)
        (LexicalCast.standard_documented 64) (List.cons_ne_nil _ _) _ sendto with
      ⟨arguments, message, started', hok, hentered⟩ | ⟨usage, text, herror, -⟩
    · cases hstart.symm.trans hok
      have haddr := hentered.lookup
      have hport := hentered.port
      rw [hentered.denotes.port_eq rfl] at hport
      generalize started.client.address = address at haddr hport
      obtain ⟨addr, port⟩ := address
      cases haddr
      cases hport
      rfl
    · cases hstart.symm.trans herror

theorem nothing_rejected_sample :
    ∃ (N : Network 2) (trace : List Event),
      (initial Server.sampleServer).run sampleSetting sampleActions = .ok (N, trace) ∧
      (∀ address what, .rejected address what ∉ trace) ∧
      ∀ a ≠ sampleSetting.serverAddress, ∀ address what, .invalid address what ∉ N.outputs a := by
  obtain ⟨N, trace, hrun⟩ := sampleActions_run
  exact ⟨N, trace, hrun, nothing_rejected Server.sampleServer_constructed hrun (by decide)
    sampleActions_closed⟩

end SikUdp.Network
