import SikUdp.Network.Model
import SikUdp.Runs.Recipients
import SikUdp.Runs.Strangers

/-!
# What each party sees of a run

A run of the network, seen by the server, is a run of the server; seen by a channel it is a
run of the channel; and the lines printed at an address are those of the datagrams
delivered there.
-/
namespace SikUdp.Network

variable {bufferSize : ℕ} {setting : Setting} {N N' : Network bufferSize} {x : Action}
  {actions : List Action} {events trace : List Event}

theorem useChannel_channels (a b : SockAddr) (action : LossyChannel.Action Packet) :
    (N.useChannel a action).channels b =
      (N.channels b).run (if b = a then [action] else []) := by
  unfold useChannel
  by_cases hb : b = a
  · subst hb
    simp [LossyChannel.Channel.run]
  · simp [hb]

theorem useChannel_delivered (a : SockAddr) (i : ℕ) :
    ((N.useChannel a (.deliver i)).channels a).delivered =
      (N.channels a).delivered ++ (N.channels a).inFlight[i]?.toList := by
  rw [useChannel_channels, if_pos rfl]
  rfl

/-- The packets that calls of `sendto` made at `source` put into the channel to `a`. -/
def mail (source a : SockAddr) (attempts : List Attempt) : List Packet :=
  attempts.filterMap fun attempt =>
    if attempt.address = a then attempt.datagram.map fun d => (source, d) else none

theorem mail_append (source a : SockAddr) (before after : List Attempt) :
    mail source a (before ++ after) = mail source a before ++ mail source a after :=
  List.filterMap_append

theorem post_channels (source : SockAddr) (attempt : Attempt) (a : SockAddr) :
    (post source N attempt).channels a =
      (N.channels a).run ((mail source a [attempt]).map .post) := by
  unfold post mail
  cases hd : attempt.datagram with
  | none => by_cases ha : attempt.address = a <;> simp [ha, hd]
  | some d =>
    dsimp only
    rw [useChannel_channels]
    by_cases ha : attempt.address = a
    · simp [ha, hd]
    · simp [ha, Ne.symm ha]

theorem postAll_frame (source : SockAddr) (attempts : List Attempt) :
    (postAll source N attempts).server = N.server ∧
      (postAll source N attempts).clients = N.clients ∧
      (postAll source N attempts).outputs = N.outputs := by
  unfold postAll
  induction attempts generalizing N with
  | nil => exact ⟨rfl, rfl, rfl⟩
  | cons attempt attempts ih =>
    have hpost : (post source N attempt).server = N.server ∧
        (post source N attempt).clients = N.clients ∧
        (post source N attempt).outputs = N.outputs := by
      unfold post
      cases attempt.datagram <;> exact ⟨rfl, rfl, rfl⟩
    obtain ⟨hserver, hclients, houtputs⟩ := ih (N := post source N attempt)
    rw [List.foldl_cons]
    exact ⟨hserver.trans hpost.1, hclients.trans hpost.2.1, houtputs.trans hpost.2.2⟩

theorem postAll_channels (source : SockAddr) (attempts : List Attempt) (a : SockAddr) :
    (postAll source N attempts).channels a =
      (N.channels a).run ((mail source a attempts).map .post) := by
  unfold postAll
  induction attempts generalizing N with
  | nil => rfl
  | cons attempt attempts ih =>
    rw [List.foldl_cons, ih, post_channels, ← LossyChannel.Channel.run_append, ← List.map_append,
      ← mail_append, List.singleton_append]

def lineOf (packet : Packet) : Option (List UInt8) := Client.lineOf packet.2

/-- A client survives every answer of `recvfrom` and prints the packet delivered. -/
theorem client_receive (client : Client) (channel : LossyChannel.Channel Packet) (i : ℕ) :
    ∃ client' outputs, client.receive (recvfrom channel i) = .ok (client', outputs) ∧
      Client.lines outputs = (channel.inFlight[i]?).toList.filterMap lineOf := by
  unfold recvfrom
  cases hpacket : channel.inFlight[i]? with
  | none => exact ⟨client, [.receiveFailed], rfl, rfl⟩
  | some packet =>
    obtain ⟨receiver, outputs, hreceive, hlines⟩ := client.receive_lines packet.1 packet.2
    refine ⟨{ client with receiver }, outputs, hreceive, ?_⟩
    rw [hlines]
    cases hline : Client.lineOf packet.2 <;> simp [lineOf, hline]

theorem serverStep_eq_ok {input : Server.Input}
    (h : N.serverStep setting input = .ok (N', events)) :
    ∃ server, N.server.step setting.rule input = .ok (server, events) ∧
      N' = postAll setting.serverAddress { N with server } (events.filterMap Event.attempt) := by
  obtain ⟨⟨server, events'⟩, hstep, heq⟩ := TracedRun.bind_ok_iff.mp h
  cases heq
  exact ⟨server, hstep, rfl⟩

theorem serverStep_frame {input : Server.Input}
    (h : N.serverStep setting input = .ok (N', events)) :
    N.server.step setting.rule input = .ok (N'.server, events) ∧ N'.clients = N.clients ∧
      N'.outputs = N.outputs := by
  obtain ⟨server, hstep, rfl⟩ := serverStep_eq_ok h
  obtain ⟨hserver, hclients, houtputs⟩ := postAll_frame (N := { N with server })
    setting.serverAddress (events.filterMap Event.attempt)
  rw [hserver]
  exact ⟨hstep, hclients, houtputs⟩

theorem serverStep_channels {input : Server.Input}
    (h : N.serverStep setting input = .ok (N', events)) (a : SockAddr) :
    N'.channels a = (N.channels a).run
      ((mail setting.serverAddress a (events.filterMap Event.attempt)).map .post) := by
  obtain ⟨server, -, rfl⟩ := serverStep_eq_ok h
  exact postAll_channels _ _ _

/-- The input of the server in a step of the network, if the step is one of the server. -/
def serverInput (setting : Setting) (N : Network bufferSize) : Action → Option Server.Input
  | .serverReceive i arrivalTime connectionTime =>
    some (.receive ⟨recvfrom (N.channels setting.serverAddress) i, arrivalTime, connectionTime⟩)
  | .serverSend sendto => some (.send sendto)
  | .serverWait answer => some (.wait answer)
  | .serverStop => some .stop
  | _ => none

theorem step_server (h : N.step setting x = .ok (N', events)) :
    match serverInput setting N x with
    | some input => N.server.step setting.rule input = .ok (N'.server, events)
    | none => N'.server = N.server ∧ events = [] := by
  cases x with
  | start a argv env sendto =>
    simp only [step] at h
    split_ifs at h
    · cases h
      exact ⟨rfl, rfl⟩
    · split at h
      · cases h
        exact ⟨rfl, rfl⟩
      · cases h
        exact ⟨(postAll_frame _ _).1, rfl⟩
  | clientReceive a i =>
    simp only [step] at h
    split at h
    · cases h
      exact ⟨rfl, rfl⟩
    · obtain ⟨⟨client, outputs⟩, -, heq⟩ := TracedRun.bind_ok_iff.mp h
      cases heq
      exact ⟨rfl, rfl⟩
  | serverReceive i arrivalTime connectionTime => exact (serverStep_frame h).1
  | serverSend sendto => exact (serverStep_frame h).1
  | serverWait answer => exact (serverStep_frame h).1
  | serverStop => exact (serverStep_frame h).1
  | forge packet destination => cases h; exact ⟨rfl, rfl⟩
  | lose destination i => cases h; exact ⟨rfl, rfl⟩
  | duplicate destination i => cases h; exact ⟨rfl, rfl⟩

theorem run_server (h : N.run setting actions = .ok (N', trace)) :
    Server.Steps setting.rule N.server trace N'.server := by
  induction actions generalizing N trace with
  | nil =>
    cases h
    exact .refl _
  | cons x actions ih =>
    obtain ⟨N₁, events, later, hstep, hrest, rfl⟩ := TracedRun.run_cons_ok.mp h
    have hserver := step_server hstep
    have hlater := ih hrest
    cases hinput : serverInput setting N x with
    | none =>
      rw [hinput] at hserver
      obtain ⟨hsame, rfl⟩ := hserver
      rw [hsame] at hlater
      exact hlater
    | some input =>
      rw [hinput] at hserver
      exact (Server.Steps.single input hserver).trans hlater

/-- With a well-defined traversal no action ends the server or leaves the network stuck. -/
theorem step_total (hrule : setting.rule.StaysInside) (hN : N.server.Safe) (x : Action) :
    ∃ N' events, N.step setting x = .ok (N', events) ∧ N'.server.Safe := by
  have hserver : ∀ (M : Network bufferSize), M.server.Safe → ∀ input,
      ∃ N' events, M.serverStep setting input = .ok (N', events) ∧ N'.server.Safe := by
    intro M hM input
    obtain ⟨server, events, hstep, hsafe⟩ := Server.step_total hrule hM input
    refine ⟨_, events, TracedRun.bind_ok_iff.mpr ⟨_, hstep, rfl⟩, ?_⟩
    rw [(postAll_frame _ _).1]
    exact hsafe
  cases x with
  | start a argv env sendto =>
    rw [step]
    split_ifs
    · exact ⟨_, _, rfl, hN⟩
    · split
      · exact ⟨_, _, rfl, hN⟩
      · refine ⟨_, _, rfl, ?_⟩
        rw [(postAll_frame _ _).1]
        exact hN
  | clientReceive a i =>
    rw [step]
    split
    · exact ⟨_, _, rfl, hN⟩
    · rename_i client hclient
      obtain ⟨client', outputs, hreceive, -⟩ := client_receive client (N.channels a) i
      exact ⟨_, _, TracedRun.bind_ok_iff.mpr ⟨_, hreceive, rfl⟩, hN⟩
  | serverReceive i arrivalTime connectionTime =>
    exact hserver (N.useChannel setting.serverAddress (.deliver i)) hN _
  | serverSend sendto => exact hserver _ hN _
  | serverWait answer => exact hserver _ hN _
  | serverStop => exact hserver _ hN _
  | forge packet destination => exact ⟨_, _, rfl, hN⟩
  | lose destination i => exact ⟨_, _, rfl, hN⟩
  | duplicate destination i => exact ⟨_, _, rfl, hN⟩

theorem run_total (hrule : setting.rule.StaysInside) (hN : N.server.Safe)
    (actions : List Action) : ∃ N' trace, N.run setting actions = .ok (N', trace) := by
  obtain ⟨N', trace, hrun, -⟩ :=
    TracedRun.run_total (fun M x hM => step_total hrule hM x) actions hN
  exact ⟨N', trace, hrun⟩

namespace Action

def Duplicates (a : SockAddr) : Action → Prop
  | duplicate b _ => b = a
  | _ => False

def Loses (a : SockAddr) : Action → Prop
  | lose b _ => b = a
  | _ => False

/-- A packet to `a` arrives before an older one. -/
def Overtakes (setting : Setting) (a : SockAddr) : Action → Prop
  | clientReceive b i => b = a ∧ i ≠ 0
  | serverReceive i _ _ => setting.serverAddress = a ∧ i ≠ 0
  | _ => False

/-- The packets to `a` that an action of anybody but the server puts into the network. -/
def sends (setting : Setting) (a : SockAddr) : Action → List Packet
  | start b argv env sendto =>
    if b = setting.serverAddress then []
    else
      match ClientProgram.start setting.cast16 setting.cast64 argv env sendto with
      | .error _ => []
      | .ok started => mail b a started.attempts
  | forge packet destination => if destination = a then [packet] else []
  | _ => []

end Action

/-- What an action of the network does to the channel to `a`, besides posting. -/
inductive Moves (setting : Setting) (a : SockAddr) : Action → LossyChannel.Action Packet → Prop
  | clientReceive (i) : Moves setting a (.clientReceive a i) (.deliver i)
  | serverReceive (i arrivalTime connectionTime) (ha : a = setting.serverAddress) :
      Moves setting a (.serverReceive i arrivalTime connectionTime) (.deliver i)
  | lose (i) : Moves setting a (.lose a i) (.lose i)
  | duplicate (i) : Moves setting a (.duplicate a i) (.duplicate i)

def posts (setting : Setting) (a : SockAddr) (x : Action) (events : List Event) : List Packet :=
  x.sends setting a ++ mail setting.serverAddress a (events.filterMap Event.attempt)

theorem step_channels (h : N.step setting x = .ok (N', events)) (a : SockAddr) :
    ∃ move : Option (LossyChannel.Action Packet),
      N'.channels a = (N.channels a).run
        (move.toList ++ (posts setting a x events).map .post) ∧
      ∀ act ∈ move, Moves setting a x act := by
  unfold posts
  cases x with
  | start b argv env sendto =>
    refine ⟨none, ?_, by simp⟩
    rw [step] at h
    rw [Action.sends]
    by_cases hb : b = setting.serverAddress
    · rw [if_pos hb] at h ⊢
      cases h
      rfl
    · rw [if_neg hb] at h ⊢
      cases hstart : ClientProgram.start setting.cast16 setting.cast64 argv env sendto with
      | error ending =>
        rw [hstart] at h
        cases h
        rfl
      | ok started =>
        rw [hstart] at h
        cases h
        simpa [mail] using postAll_channels b started.attempts a
  | clientReceive b i =>
    rw [step] at h
    cases hclient : N.clients b with
    | none =>
      rw [hclient] at h
      cases h
      exact ⟨none, rfl, by simp⟩
    | some client =>
      rw [hclient] at h
      obtain ⟨⟨client', outputs⟩, -, heq⟩ := TracedRun.bind_ok_iff.mp h
      cases heq
      have hchannels := N.useChannel_channels b a (.deliver i)
      by_cases ha : a = b
      · subst ha
        rw [if_pos rfl] at hchannels
        refine ⟨some (.deliver i), hchannels, ?_⟩
        rintro _ ⟨⟩
        exact .clientReceive i
      · rw [if_neg ha] at hchannels
        exact ⟨none, hchannels, by simp⟩
  | serverReceive i arrivalTime connectionTime =>
    have hchannels := serverStep_channels h a
    rw [useChannel_channels, ← LossyChannel.Channel.run_append] at hchannels
    by_cases ha : a = setting.serverAddress
    · rw [if_pos ha] at hchannels
      refine ⟨some (.deliver i), hchannels, ?_⟩
      rintro _ ⟨⟩
      exact .serverReceive i _ _ ha
    · rw [if_neg ha] at hchannels
      exact ⟨none, hchannels, by simp⟩
  | serverSend sendto => exact ⟨none, serverStep_channels h a, by simp⟩
  | serverWait answer => exact ⟨none, serverStep_channels h a, by simp⟩
  | serverStop => exact ⟨none, serverStep_channels h a, by simp⟩
  | forge packet destination =>
    cases h
    refine ⟨none, ?_, by simp⟩
    rw [useChannel_channels, Action.sends]
    by_cases ha : a = destination
    · subst ha
      simp [mail]
    · simp [mail, ha, Ne.symm ha]
  | lose destination i =>
    cases h
    have hchannels := N.useChannel_channels destination a (.lose i)
    by_cases ha : a = destination
    · subst ha
      rw [if_pos rfl] at hchannels
      refine ⟨some (.lose i), hchannels, ?_⟩
      rintro _ ⟨⟩
      exact .lose i
    · rw [if_neg ha] at hchannels
      exact ⟨none, hchannels, by simp⟩
  | duplicate destination i =>
    cases h
    have hchannels := N.useChannel_channels destination a (.duplicate i)
    by_cases ha : a = destination
    · subst ha
      rw [if_pos rfl] at hchannels
      refine ⟨some (.duplicate i), hchannels, ?_⟩
      rintro _ ⟨⟩
      exact .duplicate i
    · rw [if_neg ha] at hchannels
      exact ⟨none, hchannels, by simp⟩

section Moves
variable {a : SockAddr} {act : LossyChannel.Action Packet}

theorem Moves.single (h : Moves setting a x act) (hx : ¬ x.Duplicates a) : act.Single := by
  cases h with
  | duplicate i => exact absurd rfl hx
  | _ => trivial

theorem Moves.lossless (h : Moves setting a x act) (hx : ¬ x.Loses a) : act.Lossless := by
  cases h with
  | lose i => exact absurd rfl hx
  | _ => trivial

theorem Moves.inOrder (h : Moves setting a x act) (hx : ¬ x.Overtakes setting a) :
    act.InOrder := by
  cases h with
  | clientReceive i => exact not_not.mp fun hi => hx ⟨rfl, hi⟩
  | serverReceive i arrivalTime connectionTime ha =>
    exact not_not.mp fun hi => hx ⟨ha.symm, hi⟩
  | _ => trivial

theorem Moves.posted (h : Moves setting a x act) (c : LossyChannel.Channel Packet) :
    (c.step act).posted = c.posted := by
  cases h <;> rfl

end Moves

theorem posted_run_posts (c : LossyChannel.Channel Packet) (packets : List Packet) :
    (c.run (packets.map .post)).posted = c.posted ++ packets := by
  induction packets generalizing c with
  | nil => simp
  | cons packet packets ih =>
    rw [List.map_cons, ← List.singleton_append, LossyChannel.Channel.run_append, ih]
    simp [LossyChannel.Channel.run, LossyChannel.Channel.step]

theorem step_posted (h : N.step setting x = .ok (N', events)) (a : SockAddr) :
    (N'.channels a).posted = (N.channels a).posted ++ posts setting a x events := by
  obtain ⟨move, hrun, hmove⟩ := step_channels h a
  rw [hrun, LossyChannel.Channel.run_append, posted_run_posts]
  cases move with
  | none => rfl
  | some act =>
    congr 1
    exact (hmove act rfl).posted (N.channels a)

theorem run_channels (h : N.run setting actions = .ok (N', trace)) (a : SockAddr) :
    ∃ acts, N'.channels a = (N.channels a).run acts ∧
      ((∀ x ∈ actions, ¬ x.Duplicates a) → ∀ act ∈ acts, act.Single) ∧
      ((∀ x ∈ actions, ¬ x.Overtakes setting a) → ∀ act ∈ acts, act.InOrder) ∧
      ((∀ x ∈ actions, ¬ x.Loses a) → ∀ act ∈ acts, act.Lossless) := by
  induction actions generalizing N trace with
  | nil =>
    cases h
    exact ⟨[], rfl, by simp⟩
  | cons x actions ih =>
    obtain ⟨N₁, events, later, hstep, hrest, rfl⟩ := TracedRun.run_cons_ok.mp h
    obtain ⟨move, hfirst, hmove⟩ := step_channels hstep a
    obtain ⟨acts, hacts, hsingle, horder, hlossless⟩ := ih hrest
    have hall : ∀ {P : LossyChannel.Action Packet → Prop}, (∀ act ∈ move, P act) →
        (∀ packet, P (.post packet)) → (∀ act ∈ acts, P act) →
        ∀ act ∈ move.toList ++ (posts setting a x events).map .post ++ acts, P act := by
      intro P hone hpost hlater act hact
      rcases List.mem_append.mp hact with hact | hact
      · rcases List.mem_append.mp hact with hact | hact
        · exact hone act (Option.mem_toList.mp hact)
        · obtain ⟨packet, -, rfl⟩ := List.mem_map.mp hact
          exact hpost packet
      · exact hlater act hact
    refine ⟨_, by rw [hacts, hfirst, ← LossyChannel.Channel.run_append], ?_, ?_, ?_⟩
    · intro hx
      rw [List.forall_mem_cons] at hx
      exact hall (fun act hact => (hmove act hact).single hx.1) (fun _ => trivial) (hsingle hx.2)
    · intro hx
      rw [List.forall_mem_cons] at hx
      exact hall (fun act hact => (hmove act hact).inOrder hx.1) (fun _ => trivial) (horder hx.2)
    · intro hx
      rw [List.forall_mem_cons] at hx
      exact hall (fun act hact => (hmove act hact).lossless hx.1) (fun _ => trivial)
        (hlossless hx.2)

section Initial
variable {s₀ : Server bufferSize} {a : SockAddr}

theorem run_authentic (h : (initial s₀).run setting actions = .ok (N, trace)) (a : SockAddr) :
    (N.channels a).Authentic := by
  obtain ⟨acts, hacts, -⟩ := run_channels h a
  rw [hacts]
  exact LossyChannel.Channel.authentic_run acts

theorem run_atMostOnce (h : (initial s₀).run setting actions = .ok (N, trace))
    (hsingle : ∀ x ∈ actions, ¬ x.Duplicates a) : (N.channels a).AtMostOnce := by
  obtain ⟨acts, hacts, hone, -⟩ := run_channels h a
  rw [hacts]
  exact LossyChannel.Channel.atMostOnce_run (hone hsingle)

theorem run_ordered (h : (initial s₀).run setting actions = .ok (N, trace))
    (hsingle : ∀ x ∈ actions, ¬ x.Duplicates a)
    (horder : ∀ x ∈ actions, ¬ x.Overtakes setting a) : (N.channels a).Ordered := by
  obtain ⟨acts, hacts, hone, hin, -⟩ := run_channels h a
  rw [hacts]
  exact LossyChannel.Channel.ordered_run (hone hsingle) (hin horder)

end Initial

/-- Of what a selection does not ignore, only the server has posted. -/
theorem run_posted_server (h : N.run setting actions = .ok (N', trace)) (a : SockAddr) {β : Type}
    (f : Packet → Option β) (hf : ∀ x ∈ actions, (x.sends setting a).filterMap f = []) :
    (N'.channels a).posted.filterMap f = (N.channels a).posted.filterMap f ++
      (mail setting.serverAddress a (trace.filterMap Event.attempt)).filterMap f := by
  induction actions generalizing N trace with
  | nil =>
    cases h
    simp [mail]
  | cons x actions ih =>
    obtain ⟨N₁, events, later, hstep, hrest, rfl⟩ := TracedRun.run_cons_ok.mp h
    rw [List.forall_mem_cons] at hf
    rw [ih hrest hf.2, step_posted hstep, posts, List.filterMap_append, List.filterMap_append,
      List.filterMap_append, hf.1, mail_append, List.filterMap_append, List.nil_append,
      List.append_assoc]

theorem run_posted_others (h : N.run setting actions = .ok (N', trace)) (a : SockAddr)
    (hmail : mail setting.serverAddress a (trace.filterMap Event.attempt) = []) :
    (N'.channels a).posted =
      (N.channels a).posted ++ actions.flatMap (Action.sends setting a) := by
  induction actions generalizing N trace with
  | nil =>
    cases h
    simp
  | cons x actions ih =>
    obtain ⟨N₁, events, later, hstep, hrest, rfl⟩ := TracedRun.run_cons_ok.mp h
    rw [List.filterMap_append, mail_append, List.append_eq_nil_iff] at hmail
    rw [ih hrest hmail.2, step_posted hstep, posts, hmail.1, List.append_nil, List.flatMap_cons,
      List.append_assoc]

/-- No client runs at the address of the server, and everywhere else the lines printed are
those of the packets delivered. -/
structure Printed (setting : Setting) (N : Network bufferSize) : Prop where
  away : N.clients setting.serverAddress = none
  lines : ∀ a ≠ setting.serverAddress,
    Client.lines (N.outputs a) = (N.channels a).delivered.filterMap lineOf

theorem delivered_run_posts (c : LossyChannel.Channel Packet) (packets : List Packet) :
    (c.run (packets.map .post)).delivered = c.delivered := by
  induction packets generalizing c with
  | nil => rfl
  | cons packet packets ih =>
    rw [List.map_cons, ← List.singleton_append, LossyChannel.Channel.run_append, ih]
    rfl

theorem step_away (h : N.step setting x = .ok (N', events))
    (hN : N.clients setting.serverAddress = none) : N'.clients setting.serverAddress = none := by
  cases x with
  | start b argv env sendto =>
    rw [step] at h
    by_cases hb : b = setting.serverAddress
    · rw [if_pos hb] at h
      cases h
      exact hN
    · rw [if_neg hb] at h
      split at h
      · cases h
        exact hN
      · cases h
        rw [(postAll_frame _ _).2.1]
        exact (Function.update_of_ne (Ne.symm hb) _ _).trans hN
  | clientReceive b i =>
    rw [step] at h
    split at h
    · cases h
      exact hN
    · rename_i client hclient
      obtain ⟨⟨client', outputs⟩, -, heq⟩ := TracedRun.bind_ok_iff.mp h
      cases heq
      have hb : setting.serverAddress ≠ b := by
        rintro rfl
        rw [hN] at hclient
        cases hclient
      exact (Function.update_of_ne hb _ _).trans hN
  | serverReceive i arrivalTime connectionTime => rwa [(serverStep_frame h).2.1]
  | serverSend sendto => rwa [(serverStep_frame h).2.1]
  | serverWait answer => rwa [(serverStep_frame h).2.1]
  | serverStop => rwa [(serverStep_frame h).2.1]
  | forge packet destination => cases h; exact hN
  | lose destination i => cases h; exact hN
  | duplicate destination i => cases h; exact hN

theorem step_outputs (h : N.step setting x = .ok (N', events)) {a : SockAddr}
    (hx : ∀ i, x ≠ .clientReceive a i) : N'.outputs a = N.outputs a := by
  cases x with
  | start b argv env sendto =>
    rw [step] at h
    split_ifs at h
    · cases h
      rfl
    · split at h
      · cases h
        rfl
      · cases h
        rw [(postAll_frame _ _).2.2]
  | clientReceive b i =>
    rw [step] at h
    split at h
    · cases h
      rfl
    · obtain ⟨⟨client', outputs⟩, -, heq⟩ := TracedRun.bind_ok_iff.mp h
      cases heq
      exact Function.update_of_ne (fun hab => hx i (by rw [hab])) _ _
  | serverReceive i arrivalTime connectionTime => rw [(serverStep_frame h).2.2]; rfl
  | serverSend sendto => rw [(serverStep_frame h).2.2]
  | serverWait answer => rw [(serverStep_frame h).2.2]
  | serverStop => rw [(serverStep_frame h).2.2]
  | forge packet destination => cases h; rfl
  | lose destination i => cases h; rfl
  | duplicate destination i => cases h; rfl

theorem step_delivered (h : N.step setting x = .ok (N', events)) {a : SockAddr}
    (ha : a ≠ setting.serverAddress) (hx : ∀ i, x ≠ .clientReceive a i) :
    (N'.channels a).delivered = (N.channels a).delivered := by
  obtain ⟨move, hrun, hmove⟩ := step_channels h a
  rw [hrun, LossyChannel.Channel.run_append, delivered_run_posts]
  cases move with
  | none => rfl
  | some act =>
    cases hmove act rfl with
    | clientReceive i => exact absurd rfl (hx i)
    | serverReceive i arrivalTime connectionTime haddress => exact absurd haddress ha
    | lose i => rfl
    | duplicate i => rfl

theorem Printed.step (hN : Printed setting N) (h : N.step setting x = .ok (N', events)) :
    Printed setting N' := by
  refine ⟨step_away h hN.away, fun a ha => ?_⟩
  by_cases hx : ∃ i, x = .clientReceive a i
  · obtain ⟨i, rfl⟩ := hx
    rw [Network.step] at h
    cases hclient : N.clients a with
    | none =>
      rw [hclient] at h
      cases h
      exact hN.lines a ha
    | some client =>
      obtain ⟨client', outputs, hreceive, hlines⟩ := client_receive client (N.channels a) i
      rw [hclient] at h
      dsimp only at h
      rw [hreceive] at h
      cases h
      dsimp only
      rw [Function.update_self, useChannel_delivered, Client.lines, List.filterMap_append,
        ← Client.lines, ← Client.lines, hN.lines a ha, hlines, List.filterMap_append]
  · rw [step_outputs h (not_exists.mp hx), step_delivered h ha (not_exists.mp hx)]
    exact hN.lines a ha

theorem run_printed (h : N.run setting actions = .ok (N', trace)) (hN : Printed setting N) :
    Printed setting N' := by
  induction actions generalizing N trace with
  | nil =>
    cases h
    exact hN
  | cons x actions ih =>
    obtain ⟨N₁, events, later, hstep, hrest, rfl⟩ := TracedRun.run_cons_ok.mp h
    exact ih hrest (hN.step hstep)

theorem printed_initial (setting : Setting) (server : Server bufferSize) :
    Printed setting (initial server) := ⟨rfl, fun _ _ => rfl⟩

end SikUdp.Network
