import SikUdp.Network.Origins
import SikUdp.Runs.Sending
import SikUdp.Startup.ClientProgram

/-!
# From one client program to the others

What the clients print, whatever the network does to the packets and in whatever order
everybody makes steps, as long as nobody forges what they accept. A line printed at an address
is that of a message the server accepted from another one; without duplication none is printed
twice; if packets do not overtake each other all clients print in the order in which the server
accepted; and without losses a client prints every message it is a recipient of.
-/
namespace SikUdp.Network

variable {bufferSize : ℕ} {setting : Setting} {N N' : Network bufferSize} {actions : List Action}
  {trace : List Event}

def lineFor (fileContent : List UInt8) (item : BufferData) : List UInt8 :=
  match item.message with
  | some message => (message.setMessage fileContent).print ++ [10]
  | none => []

theorem mail_completed (source a : SockAddr) (trace : List Event) :
    mail source a (trace.filterMap Event.attempt) =
      ((Server.completedAttempts trace).filter fun attempt => attempt.address = a).filterMap
        fun attempt => attempt.datagram.map fun d => (source, d) := by
  unfold mail Server.completedAttempts
  rw [List.filterMap_filterMap, List.filterMap_filter, List.filterMap_filterMap]
  congr 1
  funext e
  cases e with
  | attempted attempt =>
    cases hd : attempt.datagram with
    | none =>
      cases hblock : attempt.result.wouldBlock <;>
        simp [Event.attempt, Server.completedAttempt, hd, hblock]
    | some d =>
      have hdone := (datagram_bytes hd).2
      simp [Event.attempt, Server.completedAttempt, hd, hdone]
  | _ => rfl

theorem lineOf_attempt {fileContent : List UInt8} (htext : 0 ∉ fileContent) {job : Server.Job}
    {attempt : Attempt} (hcarries : Server.Carries fileContent job attempt) (source : SockAddr)
    {d : Datagram} (hd : attempt.datagram = some d) :
    lineOf (source, d) = some (lineFor fileContent job.1) := by
  obtain ⟨message, hmessage, hdata⟩ := hcarries
  have hdecode : decode true d.bytes = .ok (message.setMessage fileContent) := by
    rw [(datagram_bytes hd).1, hdata]
    exact decode_dataOf_text htext
  rw [lineOf, Client.lineOf, hdecode, lineFor, hmessage]

theorem lines_of_served {fileContent : List UInt8} (htext : 0 ∉ fileContent) (source : SockAddr)
    {served : List Server.Job} {attempts : List Attempt}
    (h : List.Forall₂ (Server.Carries fileContent) served attempts) :
    ((attempts.filterMap fun attempt => attempt.datagram.map fun d => (source, d)).filterMap
        lineOf).Sublist (served.map fun job => lineFor fileContent job.1) ∧
    ((∀ attempt ∈ attempts, attempt.datagram ≠ none) →
      (attempts.filterMap fun attempt => attempt.datagram.map fun d => (source, d)).filterMap
        lineOf = served.map fun job => lineFor fileContent job.1) := by
  induction h with
  | nil => exact ⟨.slnil, fun _ => rfl⟩
  | @cons job attempt served attempts hcarries _ ih =>
    cases hd : attempt.datagram with
    | none =>
      simp only [List.filterMap_cons, hd, Option.map_none, List.map_cons]
      exact ⟨ih.1.cons _, fun hall => absurd hd (hall attempt List.mem_cons_self)⟩
    | some d =>
      have hline := lineOf_attempt htext hcarries source hd
      simp only [List.filterMap_cons, hd, Option.map_some, hline, List.map_cons]
      refine ⟨ih.1.cons_cons _, fun hall => ?_⟩
      rw [ih.2 fun b hb => hall b (List.mem_cons_of_mem _ hb)]

section Served
variable {rule : EraseRule} {s : Server bufferSize} {fileContent : List UInt8} {past : List Event}

theorem jobs_sublist (h : s.Consistent rule fileContent past) :
    ((Server.jobs past).map Prod.fst).Sublist (Server.acceptedItems past) := by
  have hremoved : ((Server.jobs past).map Prod.fst).Sublist
      ((Server.removedItems past).map Prod.fst) := by
    unfold Server.jobs
    induction Server.removedItems past with
    | nil => exact .slnil
    | cons r rest ih =>
      obtain ⟨item, recipients⟩ := r
      cases recipients with
      | none => exact ih.cons _
      | some recipients => exact ih.cons_cons _
  rw [h.fifo]
  exact hremoved.trans (List.sublist_append_left _ _)

theorem served_sublist (h : s.Consistent rule fileContent past) (a : SockAddr) :
    (((Server.jobs past).filter fun job => a ∈ job.2).map fun job =>
        lineFor fileContent job.1).Sublist
      (((Server.acceptedItems past).filter fun item => item.sender ≠ a).map
        (lineFor fileContent)) := by
  have hother : ((Server.jobs past).filter fun job => a ∈ job.2).map Prod.fst =
      (((Server.jobs past).filter fun job => a ∈ job.2).map Prod.fst).filter
        fun item => item.sender ≠ a := by
    symm
    rw [List.filter_eq_self]
    intro item hitem
    obtain ⟨job, hjob, rfl⟩ := List.mem_map.mp hitem
    rw [List.mem_filter, decide_eq_true_eq] at hjob
    rw [decide_eq_true_eq]
    rintro rfl
    exact (h.distinct job hjob.1).2 hjob.2
  have hsub : (((Server.jobs past).filter fun job => a ∈ job.2).map Prod.fst).Sublist
      ((Server.acceptedItems past).filter fun item => item.sender ≠ a) := by
    rw [hother]
    exact ((List.filter_sublist.map Prod.fst).trans (jobs_sublist h)).filter _
  simpa [Function.comp_def] using hsub.map (lineFor fileContent)

/-- What the server puts into the channel to an address is printed as lines for messages
served to it; as all of them if every call of `sendto` succeeds in the end. -/
theorem mail_lines (h : s.Consistent rule fileContent past) (htext : 0 ∉ fileContent)
    (source a : SockAddr) :
    ((mail source a (past.filterMap Event.attempt)).filterMap lineOf).Sublist
      (((Server.jobs past).filter fun job => a ∈ job.2).map fun job =>
        lineFor fileContent job.1) ∧
    (a ∉ s.currentClients →
      (∀ attempt ∈ Server.completedAttempts past, attempt.datagram ≠ none) →
      (mail source a (past.filterMap Event.attempt)).filterMap lineOf =
        ((Server.jobs past).filter fun job => a ∈ job.2).map fun job =>
          lineFor fileContent job.1) := by
  obtain ⟨served, hserved, hsub, hall⟩ :=
    h.log.entries_for (fun job hjob => (h.distinct job hjob).1) a
  obtain ⟨hlines, hexact⟩ := lines_of_served htext source hserved
  rw [mail_completed]
  refine ⟨hlines.trans (hsub.map _), fun hmissing hdone => ?_⟩
  rw [hexact fun attempt hattempt => hdone attempt (List.mem_of_mem_filter hattempt),
    hall hmissing]

end Served

/-- No stranger sends a datagram to `a` that a client accepts. -/
def Unforged (a : SockAddr) (actions : List Action) : Prop :=
  ∀ packet, .forge packet a ∈ actions → ¬ Client.Acceptable packet.2.bytes

theorem sends_unprinted {a : SockAddr} (h : Unforged a actions) :
    ∀ x ∈ actions, (x.sends setting a).filterMap lineOf = [] := by
  intro x hx
  rw [List.filterMap_eq_nil_iff]
  intro p hp
  rw [lineOf, Client.lineOf_eq_none_iff]
  rcases mem_sends hp with rfl | ⟨argv, env, sendto, started, message, -, -, -, -, hempty, -, hdata⟩
  · exact h p hx
  · have hlength : p.2.bytes.length = 9 := by
      rw [hdata, length_dataOf, hempty]
      rfl
    unfold Client.Acceptable
    omega

section Runs
variable {s₀ : Server bufferSize} (hs₀ : s₀.Constructed)
  (h : (initial s₀).run setting actions = .ok (N, trace))
include hs₀ h

theorem run_consistent : N.server.Consistent setting.rule s₀.fileContent trace := by
  obtain ⟨inputs, hrun⟩ := run_server h
  exact Server.run_consistent hs₀ hrun

omit hs₀ in
/-- The lines printed at an address are those of the packets its channel has delivered. -/
theorem lines_delivered {a : SockAddr} (ha : a ≠ setting.serverAddress) :
    Client.lines (N.outputs a) = (N.channels a).delivered.filterMap lineOf :=
  (run_printed h (printed_initial setting s₀)).lines a ha

omit hs₀ in
/-- Of what clients print, only the server puts anything into the channels to them. -/
theorem lines_posted {a : SockAddr} (hforge : Unforged a actions) :
    (N.channels a).posted.filterMap lineOf =
      (mail setting.serverAddress a (trace.filterMap Event.attempt)).filterMap lineOf := by
  rw [run_posted_server h a lineOf (sends_unprinted hforge)]
  rfl

theorem posted_sublist {a : SockAddr} (hforge : Unforged a actions) :
    ((N.channels a).posted.filterMap lineOf).Sublist
      (((Server.acceptedItems trace).filter fun item => item.sender ≠ a).map
        (lineFor s₀.fileContent)) := by
  have hconsistent := run_consistent hs₀ h
  rw [lines_posted h hforge]
  exact (mail_lines hconsistent hs₀.fresh.text setting.serverAddress a).1.trans
    (served_sublist hconsistent a)

/-- All clients print in one order. Whenever nobody forges what a client accepts, and the packets
to an address are neither duplicated nor overtake each other, what is printed there is, line by
line, a part of the messages that the server accepted from other addresses, in the order in
which it accepted them. Losses do not matter, nor does anything that happens elsewhere. -/
theorem printed_in_order {a : SockAddr} (ha : a ≠ setting.serverAddress)
    (hforge : Unforged a actions)
    (hsingle : ∀ x ∈ actions, ¬ x.Duplicates a) (horder : ∀ x ∈ actions, ¬ x.Overtakes setting a) :
    (Client.lines (N.outputs a)).Sublist
      (((Server.acceptedItems trace).filter fun item => item.sender ≠ a).map
        (lineFor s₀.fileContent)) := by
  have hordered := run_ordered h hsingle horder
  have hposted : ((N.channels a).delivered.filterMap lineOf).Sublist
      ((N.channels a).posted.filterMap lineOf) :=
    ((List.sublist_append_left _ _).trans hordered).filterMap lineOf
  rw [lines_delivered h ha]
  exact hposted.trans (posted_sublist hs₀ h hforge)

end Runs

/-- Two clients start, the server gets both of their messages, and one client is served. -/
def sampleSetting : Setting := ⟨.next, .standard 16, .standard 64, ⟨0x0100007f, htons 20160⟩⟩

def sampleStart (a : SockAddr) : Action :=
  .start a [[99], [52, 50], [97], [104]] (fun _ => ⟨some 0x0100007f, 3, Receiver.zeroed⟩)
    ⟨9, .other⟩

def sampleActions : List Action :=
  [sampleStart ⟨10, 1⟩, sampleStart ⟨10, 2⟩, .serverReceive 0 0 0, .serverReceive 0 0 0,
    .serverSend ⟨12, .other⟩, .clientReceive ⟨10, 2⟩ 0]

theorem sampleActions_run :
    ∃ N trace, (initial Server.sampleServer).run sampleSetting sampleActions = .ok (N, trace) :=
  run_total EraseRule.next_goesOn.staysInside Server.sampleServer_constructed.fresh.safe _

theorem sampleActions_unforged (a : SockAddr) : Unforged a sampleActions := by
  simp [Unforged, sampleActions, sampleStart]

theorem sampleActions_once (a : SockAddr) : ∀ x ∈ sampleActions, ¬ x.Duplicates a := by
  simp [sampleActions, sampleStart, Action.Duplicates]

theorem sampleActions_inOrder (a : SockAddr) :
    ∀ x ∈ sampleActions, ¬ x.Overtakes sampleSetting a := by
  simp [sampleActions, sampleStart, Action.Overtakes]

theorem sampleActions_unclaimed : Unclaimed sampleSetting sampleActions := by
  simp [Unclaimed, sampleActions, sampleStart]

theorem printed_in_order_sample :
    ∃ N trace, (initial Server.sampleServer).run sampleSetting sampleActions = .ok (N, trace) ∧
      (Client.lines (N.outputs ⟨10, 2⟩)).Sublist
        (((Server.acceptedItems trace).filter fun item => item.sender ≠ ⟨10, 2⟩).map
          (lineFor [104, 105])) := by
  obtain ⟨N, trace, hrun⟩ := sampleActions_run
  exact ⟨N, trace, hrun, printed_in_order Server.sampleServer_constructed hrun (by decide)
    (sampleActions_unforged _) (sampleActions_once _) (sampleActions_inOrder _)⟩

def requests (setting : Setting) (actions : List Action) : List (SockAddr × Message) :=
  (actions.flatMap (Action.sends setting setting.serverAddress)).filterMap requestOf

def lineForRequest (fileContent : List UInt8) (request : SockAddr × Message) : List UInt8 :=
  (request.2.setMessage fileContent).print ++ [10]

theorem lines_of_origins (fileContent : List UInt8) (a : SockAddr) {items : List BufferData}
    {requests : List (SockAddr × Message)}
    (h : items.map origin = requests.map fun q => (q.1, some q.2)) :
    (items.filter fun item => item.sender ≠ a).map (lineFor fileContent) =
      (requests.filter fun q => q.1 ≠ a).map (lineForRequest fileContent) := by
  induction requests generalizing items with
  | nil =>
    rw [List.map_nil, List.map_eq_nil_iff] at h
    rw [h]
    rfl
  | cons q requests ih =>
    obtain ⟨item, rest, rfl, hitem, hrest⟩ := List.map_eq_cons_iff.mp h
    obtain ⟨hsender, hmessage⟩ := Prod.mk.inj hitem
    have hline : lineFor fileContent item = lineForRequest fileContent q := by
      rw [lineFor, hmessage]
      rfl
    by_cases ha : q.1 = a
    · simpa [hsender, ha] using ih hrest
    · simpa [hsender, ha, hline] using ih hrest

/-- A request is the message of a client program that was started with it as its arguments,
or somebody forged it. -/
def Requested (setting : Setting) (actions : List Action) (q : SockAddr × Message) : Prop :=
  (∃ argv env sendto arguments, .start q.1 argv env sendto ∈ actions ∧
    ClientProgram.Denotes argv arguments ∧ arguments.Describes q.2) ∨
  ∃ packet, .forge packet setting.serverAddress ∈ actions ∧ requestOf packet = some q

theorem mem_sends_describes (h16 : setting.cast16.Documented) (h64 : setting.cast64.Documented)
    {a : SockAddr} {x : Action} {p : Packet} (hp : p ∈ x.sends setting a) :
    x = .forge p a ∨ ∃ argv env sendto started arguments message, x = .start p.1 argv env sendto ∧
      p.1 ≠ setting.serverAddress ∧
      ClientProgram.start setting.cast16 setting.cast64 argv env sendto = .ok started ∧
      started.client.address = a ∧ ClientProgram.Denotes argv arguments ∧
      arguments.Describes message ∧ p.2.bytes = Sender.dataOf message false := by
  rcases mem_sends hp with hforge | ⟨argv, env, sendto, started, message, hx, hsource, hstart,
    haddress, -, hattempts, hdata⟩
  · exact Or.inl hforge
  · have hargv : argv ≠ [] := by
      rintro rfl
      cases hstart
    rcases ClientProgram.start_cases h16 h64 hargv env sendto with
      ⟨arguments, message', started', hok, hentered⟩ | ⟨usage, text, herror, -⟩
    · cases hstart.symm.trans hok
      have hsame := hattempts.symm.trans hentered.attempts
      rw [List.cons.injEq, Attempt.mk.injEq] at hsame
      exact Or.inr ⟨argv, env, sendto, started, arguments, message', hx, hsource, hstart, haddress,
        hentered.denotes, hentered.describes, hdata.trans hsame.1.2.1⟩
    · cases hstart.symm.trans herror

theorem requestOf_of_describes {p : Packet} {arguments : ClientProgram.Arguments}
    {message : Message} (hdescribes : arguments.Describes message)
    (hdata : p.2.bytes = Sender.dataOf message false) : requestOf p = some (p.1, message) := by
  apply requestOf_of_decode _ hdescribes.2.2
  rw [hdata]
  exact decode_dataOf_empty hdescribes.2.2

theorem requested_of_mem (h16 : setting.cast16.Documented) (h64 : setting.cast64.Documented)
    {q : SockAddr × Message} (hq : q ∈ requests setting actions) :
    Requested setting actions q := by
  obtain ⟨p, hp, hask⟩ := List.mem_filterMap.mp hq
  obtain ⟨x, hx, hsends⟩ := List.mem_flatMap.mp hp
  rcases mem_sends_describes h16 h64 hsends with rfl | ⟨argv, env, sendto, started, arguments,
    message, rfl, -, -, -, hdenotes, hdescribes, hdata⟩
  · exact Or.inr ⟨p, hx, hask⟩
  · cases hask.symm.trans (requestOf_of_describes hdescribes hdata)
    exact Or.inl ⟨argv, env, sendto, arguments, hx, hdenotes, hdescribes⟩

section Origins
variable {s₀ : Server bufferSize} (hs₀ : s₀.Constructed)
  (h : (initial s₀).run setting actions = .ok (N, trace))
  (hzero : setting.serverAddress ≠ .zero) (hclaim : Unclaimed setting actions)
include hs₀ h hzero hclaim

theorem requests_posted :
    (N.channels setting.serverAddress).posted.filterMap requestOf = requests setting actions := by
  have hmail := (apart_initial setting hs₀).run hzero hclaim h
  rw [run_posted_others h setting.serverAddress hmail]
  rfl

omit hzero hclaim in
theorem accepted_lines (fileContent : List UInt8) (a : SockAddr) :
    ((Server.acceptedItems trace).filter fun item => item.sender ≠ a).map (lineFor fileContent) =
      (((N.channels setting.serverAddress).delivered.filterMap requestOf).filter
        fun q => q.1 ≠ a).map (lineForRequest fileContent) := by
  obtain ⟨new, hnew, haccepted⟩ := run_accepted h hs₀.fresh.sockRegistered rfl
  have hdelivered : (N.channels setting.serverAddress).delivered = new := hnew
  rw [hdelivered]
  exact lines_of_origins fileContent a haccepted

/-- Where nothing is forged that `a` accepts or that claims to come from the server itself, and
nothing is duplicated on the way to the server or to `a`, every request makes one line at `a`
at most, and none if it comes from `a`. -/
theorem printed_at_most_once {a : SockAddr} (ha : a ≠ setting.serverAddress)
    (hforge : Unforged a actions)
    (hsingle : ∀ x ∈ actions, ¬ x.Duplicates a)
    (hserver : ∀ x ∈ actions, ¬ x.Duplicates setting.serverAddress) :
    (Client.lines (N.outputs a)).Subperm
      (((requests setting actions).filter fun q => q.1 ≠ a).map
        (lineForRequest s₀.fileContent)) := by
  have hselect : ∀ {α β : Type} {f : α → Option β} {xs ys : List α}, xs.Subperm ys →
      (xs.filterMap f).Subperm (ys.filterMap f) := by
    rintro α β f xs ys ⟨zs, hperm, hsub⟩
    exact ⟨zs.filterMap f, hperm.filterMap f, hsub.filterMap f⟩
  have hprinted : (Client.lines (N.outputs a)).Subperm
      ((N.channels a).posted.filterMap lineOf) := by
    rw [lines_delivered h ha]
    exact hselect ((List.sublist_append_left _ _).subperm.trans (run_atMostOnce h hsingle))
  have haccepted : ((N.channels setting.serverAddress).delivered.filterMap requestOf).Subperm
      (requests setting actions) := by
    rw [← requests_posted hs₀ h hzero hclaim]
    exact hselect ((List.sublist_append_left _ _).subperm.trans (run_atMostOnce h hserver))
  have hposted := posted_sublist hs₀ h hforge
  rw [accepted_lines hs₀ h] at hposted
  have hlines : ((((N.channels setting.serverAddress).delivered.filterMap requestOf).filter
      fun q => q.1 ≠ a).map (lineForRequest s₀.fileContent)).Subperm
      (((requests setting actions).filter fun q => q.1 ≠ a).map
        (lineForRequest s₀.fileContent)) := by
    obtain ⟨zs, hperm, hsub⟩ := haccepted.filter fun q => q.1 ≠ a
    exact ⟨_, hperm.map _, hsub.map _⟩
  exact (hprinted.trans hposted.subperm).trans hlines

/-- Where nothing is forged that `a` accepts or that claims to come from the server itself, a line
printed at `a` comes from another address, whatever else the network does. It shows the
timestamp and the character that a client program was started with there, and the file of the
server, unless a stranger has forged the request. -/
theorem printed_authentic (h16 : setting.cast16.Documented) (h64 : setting.cast64.Documented)
    {a : SockAddr} (ha : a ≠ setting.serverAddress) (hforge : Unforged a actions) :
    ∀ line ∈ Client.lines (N.outputs a), ∃ q : SockAddr × Message, q.1 ≠ a ∧
      Requested setting actions q ∧ line = lineForRequest s₀.fileContent q := by
  have hauthentic := run_authentic h
  intro line hline
  rw [lines_delivered h ha] at hline
  obtain ⟨packet, hpacket, hprinted⟩ := List.mem_filterMap.mp hline
  have hposted : line ∈ (N.channels a).posted.filterMap lineOf :=
    List.mem_filterMap.mpr ⟨packet, hauthentic a packet (List.mem_append_left _ hpacket), hprinted⟩
  have haccepted := (posted_sublist hs₀ h hforge).subset hposted
  rw [accepted_lines hs₀ h] at haccepted
  obtain ⟨q, hq, rfl⟩ := List.mem_map.mp haccepted
  rw [List.mem_filter, decide_eq_true_eq] at hq
  obtain ⟨request, hrequest, hask⟩ := List.mem_filterMap.mp hq.1
  have hmem : q ∈ requests setting actions := by
    rw [← requests_posted hs₀ h hzero hclaim]
    exact List.mem_filterMap.mpr
      ⟨request, hauthentic _ request (List.mem_append_left _ hrequest), hask⟩
  exact ⟨q, hq.2, requested_of_mem h16 h64 hmem, rfl⟩

end Origins

theorem printed_at_most_once_sample :
    ∃ N trace, (initial Server.sampleServer).run sampleSetting sampleActions = .ok (N, trace) ∧
      (Client.lines (N.outputs ⟨10, 2⟩)).Subperm
        (((requests sampleSetting sampleActions).filter fun q => q.1 ≠ ⟨10, 2⟩).map
          (lineForRequest [104, 105])) := by
  obtain ⟨N, trace, hrun⟩ := sampleActions_run
  exact ⟨N, trace, hrun, printed_at_most_once Server.sampleServer_constructed hrun (by decide)
    sampleActions_unclaimed (by decide) (sampleActions_unforged _)
    (sampleActions_once _) (sampleActions_once _)⟩

theorem printed_authentic_sample :
    ∃ N trace, (initial Server.sampleServer).run sampleSetting sampleActions = .ok (N, trace) ∧
      ∀ line ∈ Client.lines (N.outputs ⟨10, 2⟩), ∃ q : SockAddr × Message, q.1 ≠ ⟨10, 2⟩ ∧
        Requested sampleSetting sampleActions q ∧ line = lineForRequest [104, 105] q := by
  obtain ⟨N, trace, hrun⟩ := sampleActions_run
  exact ⟨N, trace, hrun, printed_authentic Server.sampleServer_constructed hrun (by decide)
    sampleActions_unclaimed (LexicalCast.standard_documented 16)
    (LexicalCast.standard_documented 64) (by decide)
    (sampleActions_unforged _)⟩

end SikUdp.Network
