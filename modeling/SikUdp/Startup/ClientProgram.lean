import SikUdp.Program.Main
import SikUdp.Runs.Safety
import SikUdp.Startup.Arguments
import SikUdp.Wire.Formats

/-!
# Starting the client

Which command lines `main` of the client accepts, and what it has done when it enters its
loop. The message is built outside of the `try` block, but a timestamp that was parsed is a
proper one. What the client sends is accepted by the server in every state.
-/
namespace SikUdp

open Decimal

namespace ClientProgram

/-- The command line consists of a timestamp, a character, a host and possibly a port. -/
inductive Denotes : List (List UInt8) → Arguments → Prop
  | standardPort {executable host : List UInt8} {timestamp : UInt64} {character : UInt8}
      (htime : timestamp ≤ maxTimestamp) :
      Denotes [executable, numeral timestamp.toNat, [character], host]
        ⟨timestamp, character, host, defaultPort⟩
  | givenPort {executable host : List UInt8} {timestamp : UInt64} {character : UInt8}
      {port : UInt16} (htime : timestamp ≤ maxTimestamp) (hport : 1 ≤ port.toNat) :
      Denotes [executable, numeral timestamp.toNat, [character], host, numeral port.toNat]
        ⟨timestamp, character, host, port⟩

/-- What is wrong with a command line: its length, or the first argument that is not as it
should be. -/
inductive Refused : List (List UInt8) → String → Prop
  | count {argv} (hcount : argv.length ≠ 4 ∧ argv.length ≠ 5) :
      Refused argv "Invalid arguments count"
  | timestamp {executable timestamp character host : List UInt8} {port : Option (List UInt8)}
      (htime : ∀ t ≤ maxTimestamp, timestamp ≠ numeral t.toNat) :
      Refused (executable :: timestamp :: character :: host :: port.toList)
        "Timestamp must be a 64-bit unsigned number"
  | character {executable character host : List UInt8} {timestamp : UInt64}
      {port : Option (List UInt8)} (htime : timestamp ≤ maxTimestamp)
      (hcharacter : ∀ c, character ≠ [c]) :
      Refused (executable :: numeral timestamp.toNat :: character :: host :: port.toList)
        "Character must be a single character"
  | port {executable host port : List UInt8} {timestamp : UInt64} {character : UInt8}
      (htime : timestamp ≤ maxTimestamp)
      (hport : ∀ p : UInt16, 1 ≤ p.toNat → port ≠ numeral p.toNat) :
      Refused [executable, numeral timestamp.toNat, [character], host, port]
        "Port must be an integer between 1 and 65,535"

section Arguments
variable {cast16 : LexicalCast 16} {cast64 : LexicalCast 64} (h16 : cast16.Documented)
  (h64 : cast64.Documented)
include h16 h64

theorem parseFields_cases (executable timestamp character host : List UInt8)
    (port : Option (List UInt8)) :
    (∃ arguments, Denotes (executable :: timestamp :: character :: host :: port.toList) arguments ∧
      parseFields cast16 cast64 timestamp character host port = .ok arguments) ∨
    (∃ message, Refused (executable :: timestamp :: character :: host :: port.toList) message ∧
      parseFields cast16 cast64 timestamp character host port =
        .error (.parseException message)) := by
  unfold parseFields
  by_cases htime : ∃ t, parseTimestamp cast64 timestamp = .ok t
  swap
  · have herror := map_parseNumber_error _ _ h64 (not_exists.mp htime)
    change parseTimestamp cast64 timestamp = _ at herror
    rw [herror]
    refine Or.inr ⟨_, .timestamp fun t ht hnumeral => htime ⟨t, ?_⟩, rfl⟩
    exact (parseTimestamp_eq_ok h64).mpr ⟨ht, hnumeral⟩
  obtain ⟨t, ht⟩ := htime
  rw [ht]
  obtain ⟨hproper, rfl⟩ := (parseTimestamp_eq_ok h64).mp ht
  by_cases hcharacter : ∃ c, character = [c]
  swap
  · rw [parseCharacter_error (not_exists.mp hcharacter)]
    exact Or.inr ⟨_, .character hproper (not_exists.mp hcharacter), rfl⟩
  obtain ⟨c, rfl⟩ := hcharacter
  cases port with
  | none => exact Or.inl ⟨_, .standardPort hproper, rfl⟩
  | some port =>
    by_cases hport : ∃ p, parsePort cast16 port = .ok p
    swap
    · have herror := map_parseNumber_error _ _ h16 (not_exists.mp hport)
      change parsePort cast16 port = _ at herror
      refine Or.inr ⟨_, .port hproper fun p hpos hnumeral => hport ⟨p, ?_⟩, ?_⟩
      · exact (parsePort_eq_ok h16).mpr ⟨hpos, hnumeral⟩
      · simp [parseCharacter, herror, Bind.bind, Except.bind]
    obtain ⟨p, hp⟩ := hport
    obtain ⟨hpos, rfl⟩ := (parsePort_eq_ok h16).mp hp
    refine Or.inl ⟨_, .givenPort hproper hpos, ?_⟩
    simp [parseCharacter, hp, Bind.bind, Except.bind]

theorem parseArguments_cases {argv : List (List UInt8)} (hargv : argv ≠ []) :
    (∃ arguments, Denotes argv arguments ∧ parseArguments cast16 cast64 argv = .ok arguments) ∨
    (∃ message, Refused argv message ∧
      parseArguments cast16 cast64 argv = .error (.exited true message 1)) := by
  unfold parseArguments
  split
  · exact absurd rfl hargv
  · rename_i executable timestamp character host
    rcases parseFields_cases h16 h64 executable timestamp character host none with
      ⟨arguments, hdenotes, hparse⟩ | ⟨message, hrefused, hparse⟩
    · exact Or.inl ⟨arguments, hdenotes, by rw [hparse]; rfl⟩
    · exact Or.inr ⟨message, hrefused, by rw [hparse]; rfl⟩
  · rename_i executable timestamp character host port
    rcases parseFields_cases h16 h64 executable timestamp character host (some port) with
      ⟨arguments, hdenotes, hparse⟩ | ⟨message, hrefused, hparse⟩
    · exact Or.inl ⟨arguments, hdenotes, by rw [hparse]; rfl⟩
    · exact Or.inr ⟨message, hrefused, by rw [hparse]; rfl⟩
  · rename_i hfour hfive
    refine Or.inr ⟨_, .count ⟨fun hcount => ?_, fun hcount => ?_⟩, rfl⟩
    · match argv, hcount with
      | [a, b, c, d], _ => exact hfour a b c d rfl
    · match argv, hcount with
      | [a, b, c, d, e], _ => exact hfive a b c d e rfl

end Arguments

theorem Denotes.proper {argv : List (List UInt8)} {arguments : Arguments}
    (h : Denotes argv arguments) : arguments.timestamp ≤ maxTimestamp := by
  cases h with
  | standardPort htime => exact htime
  | givenPort htime _ => exact htime

theorem Denotes.not_refused {argv : List (List UInt8)} {arguments : Arguments}
    (h : Denotes argv arguments) (message : String) : ¬ Refused argv message := by
  intro hrefused
  cases h with
  | standardPort htime =>
    generalize hargv : [_, _, _, _] = argv at hrefused
    cases hrefused with
    | count hcount => simp [← hargv] at hcount
    | timestamp hbad =>
      simp only [List.cons.injEq] at hargv
      exact hbad _ htime hargv.2.1.symm
    | character _ hbad =>
      simp only [List.cons.injEq] at hargv
      exact hbad _ hargv.2.2.1.symm
    | port _ _ => simp at hargv
  | givenPort htime hport =>
    generalize hargv : [_, _, _, _, _] = argv at hrefused
    cases hrefused with
    | count hcount => simp [← hargv] at hcount
    | timestamp hbad =>
      simp only [List.cons.injEq] at hargv
      exact hbad _ htime hargv.2.1.symm
    | character _ hbad =>
      simp only [List.cons.injEq] at hargv
      exact hbad _ hargv.2.2.1.symm
    | port _ hbad =>
      simp only [List.cons.injEq] at hargv
      exact hbad _ hport hargv.2.2.2.2.1.symm

end ClientProgram

theorem Client.send_eq (c : Client) (message : Message) (sendto : SendtoResult) :
    c.send (some message) sendto =
      ([⟨c.address, Sender.dataOf message false, sendto⟩],
        .ok (if sendto.length = (Sender.dataOf message false).length then []
          else ["Error occurred while sending message to server"])) := by
  unfold Client.send Sender.sendMessage Sender.outcome
  dsimp only
  by_cases hblock : sendto.length < 0 ∧ sendto.errno = .wouldBlock
  · have hshort : sendto.length ≠ (Sender.dataOf message false).length := by omega
    rw [if_pos hblock, if_neg hshort]
  · rw [if_neg hblock]
    by_cases hlength : sendto.length = (Sender.dataOf message false).length
    · rw [if_neg (not_not.mpr hlength), if_pos hlength]
    · rw [if_pos hlength, if_neg hlength]

/-- A reachable server accepts every datagram that decodes to a message without text. -/
theorem Server.receive_accepts {bufferSize : ℕ} {rule : EraseRule} {s : Server bufferSize}
    (hs : s.Reachable rule) {d : Datagram} {message : Message}
    (hdecode : decode false d.bytes = .ok message) (hempty : message.message = [])
    (source : SockAddr) (arrivalTime connectionTime : ℤ) :
    ∃ s', s.receive ⟨.received source d, arrivalTime, connectionTime⟩ = .ok (s',
        [.accepted d ⟨arrivalTime, some message, source⟩ (overwritten s.buffer),
          .registered source connectionTime]) ∧
      s'.buffer = s.buffer.push ⟨arrivalTime, some message, source⟩ := by
  obtain ⟨s', events, hreceive⟩ := receive_total hs.sockRegistered hs.safe.records
    ⟨.received source d, arrivalTime, connectionTime⟩
  refine ⟨s', ?_⟩
  cases receive_reception hs.sockRegistered hreceive with
  | failed hinput hadd => cases hinput
  | rejected what hinput hreject hadd =>
    cases hinput
    exact absurd hempty (hreject message hdecode)
  | accepted hinput hdecode' hempty' hpoll hadd =>
    cases hinput
    cases hdecode.symm.trans hdecode'
    exact ⟨hreceive, rfl⟩

namespace ClientProgram

def Arguments.Describes (arguments : Arguments) (message : Message) : Prop :=
  message.timestamp = arguments.timestamp ∧ message.character = arguments.character ∧
    message.message = []

/-- The first thing that keeps the client from starting, and whether the usage is printed. -/
inductive Obstacle (argv : List (List UInt8)) (env : List UInt8 → Client.Environment) :
    Bool → String → Prop
  | arguments {message} (hargv : Refused argv message) : Obstacle argv env true message
  | lookup {arguments} (hargv : Denotes argv arguments)
      (hlookup : (env arguments.host).lookup = none) :
      Obstacle argv env false "Error getting address"
  | socket {arguments} (hargv : Denotes argv arguments)
      (hlookup : (env arguments.host).lookup ≠ none) (hsocket : (env arguments.host).sock < 0) :
      Obstacle argv env false "Error opening socket"

/-- The client has resolved its host, and made one call of `sendto`. -/
structure Entered (argv : List (List UInt8)) (env : List UInt8 → Client.Environment)
    (sendto : SendtoResult) (arguments : Arguments) (message : Message) (started : Started) :
    Prop where
  denotes : Denotes argv arguments
  describes : arguments.Describes message
  lookup : (env arguments.host).lookup = some started.client.address.sinAddr
  port : started.client.address.sinPort = htons arguments.port
  socket : (env arguments.host).sock = started.client.sock ∧ 0 ≤ started.client.sock
  running : started.client.stopping = false
  attempts : started.attempts =
    [⟨started.client.address, Sender.dataOf message false, sendto⟩]
  errors : started.errors = if sendto.length = 9 then []
    else ["Error occurred while sending message to server"]

theorem start_cases {cast16 : LexicalCast 16} {cast64 : LexicalCast 64}
    (h16 : cast16.Documented) (h64 : cast64.Documented) {argv : List (List UInt8)}
    (hargv : argv ≠ []) (env : List UInt8 → Client.Environment) (sendto : SendtoResult) :
    (∃ arguments message started, start cast16 cast64 argv env sendto = .ok started ∧
      Entered argv env sendto arguments message started) ∨
    (∃ usage message, start cast16 cast64 argv env sendto =
      .error (.exited usage message 1) ∧ Obstacle argv env usage message) := by
  rcases parseArguments_cases h16 h64 hargv with ⟨arguments, hdenotes, hparse⟩ |
      ⟨message, hrefused, hparse⟩
  swap
  · refine Or.inr ⟨_, _, ?_, .arguments hrefused⟩
    rw [start, hparse]
    rfl
  cases hlookup : (env arguments.host).lookup with
  | none =>
    refine Or.inr ⟨_, _, ?_, .lookup hdenotes hlookup⟩
    simp [start, hparse, Client.construct, Client.setupAddress, hlookup, catchClient, fatal,
      Status.code, Bind.bind, Except.bind]
  | some addr =>
    by_cases hsocket : (env arguments.host).sock < 0
    · refine Or.inr ⟨_, _, ?_, .socket hdenotes (by simp [hlookup]) hsocket⟩
      simp [start, hparse, Client.construct, Client.setupAddress, Client.openSocket, hlookup,
        hsocket, catchClient, fatal, Status.code, Bind.bind, Except.bind]
    · have hproper : isProperTimestamp arguments.timestamp = true := by
        rw [isProperTimestamp, decide_eq_true_eq]
        exact hdenotes.proper
      let message : Message := ⟨arguments.timestamp, arguments.character, [], hproper⟩
      let client : Client := ⟨(env arguments.host).sock, ⟨addr, htons arguments.port⟩, false,
        (env arguments.host).receiver⟩
      have hlength : (Sender.dataOf message false).length = 9 := length_dataOf message false
      have hmessage : Message.ofFields arguments.timestamp arguments.character [] =
          .ok message := Message.ofFields_eq_ok_iff.mpr ⟨rfl, rfl, rfl⟩
      have hsend := client.send_eq message sendto
      rw [hlength, Nat.cast_ofNat] at hsend
      let errors : List String := if sendto.length = 9 then []
        else ["Error occurred while sending message to server"]
      refine Or.inl ⟨arguments, message,
        ⟨client, [⟨client.address, Sender.dataOf message false, sendto⟩], errors⟩, ?_,
        ⟨hdenotes, ⟨rfl, rfl, rfl⟩, hlookup, rfl, ⟨rfl, not_lt.mp hsocket⟩, rfl, rfl, rfl⟩⟩
      simp only [start, hparse, Client.construct, Client.setupAddress, Client.openSocket, hlookup,
        if_neg hsocket, catchClient, uncaught, hmessage, Bind.bind, Except.bind]
      rw [hsend]

theorem Denotes.port_eq {argv : List (List UInt8)} {arguments : Arguments}
    (h : Denotes argv arguments) (hlength : argv.length = 4) : arguments.port = defaultPort := by
  cases h with
  | standardPort htime => rfl
  | givenPort htime hport => simp at hlength

theorem sample_denotes : Denotes [[99], [52, 50], [97], [104]] ⟨42, 97, [104], defaultPort⟩ := by
  have hnumeral : numeral (42 : UInt64).toNat = [52, 50] := by decide
  rw [← hnumeral]
  exact .standardPort (by decide)

/-- The client starts exactly if nothing keeps it from doing so, and otherwise prints what
does and exits with code 1: no exception and no undefined operation ends it. The one
datagram it has then handed to `sendto` is of the client format and carries its arguments,
and every reachable server accepts it, whoever it seems to come from. -/
theorem client_start_exact {cast16 : LexicalCast 16} {cast64 : LexicalCast 64}
    (h16 : cast16.Documented) (h64 : cast64.Documented) {argv : List (List UInt8)}
    (hargv : argv ≠ []) (env : List UInt8 → Client.Environment) (sendto : SendtoResult) :
    (∃ arguments message started, ∃ d : Datagram,
      start cast16 cast64 argv env sendto = .ok started ∧
      Entered argv env sendto arguments message started ∧
      started.attempts = [⟨started.client.address, d.bytes, sendto⟩] ∧
      IsClientDatagram d.bytes ∧
      ∀ (bufferSize : ℕ) (rule : EraseRule) (s : Server bufferSize), s.Reachable rule →
        ∀ source arrivalTime connectionTime, ∃ s',
          s.receive ⟨.received source d, arrivalTime, connectionTime⟩ = .ok (s',
            [.accepted d ⟨arrivalTime, some message, source⟩ (Server.overwritten s.buffer),
              .registered source connectionTime]) ∧
          s'.buffer = s.buffer.push ⟨arrivalTime, some message, source⟩) ∨
    (∃ usage message, start cast16 cast64 argv env sendto =
      .error (.exited usage message 1) ∧ Obstacle argv env usage message) := by
  rcases start_cases h16 h64 hargv env sendto with ⟨arguments, message, started, hstart, hentered⟩ |
      hobstacle
  · have hempty := hentered.describes.2.2
    have hformat := isClientDatagram_dataOf hempty
    let d : Datagram := ⟨Sender.dataOf message false, by rw [hformat.1, packetSize]; norm_num⟩
    refine Or.inl ⟨arguments, message, started, d, hstart, hentered, hentered.attempts, hformat,
      ?_⟩
    intro bufferSize rule s hs source arrivalTime connectionTime
    exact Server.receive_accepts hs (d := d) (decode_dataOf_empty hempty) hempty source arrivalTime
      connectionTime
  · exact Or.inr hobstacle

theorem client_start_exact_sample :
    ∃ arguments message started,
      start (.standard 16) (.standard 64) [[99], [52, 50], [97], [104]]
        (fun _ => ⟨some 0x0100007f, 3, Receiver.zeroed⟩) ⟨9, .other⟩ = .ok started ∧
      Entered [[99], [52, 50], [97], [104]] (fun _ => ⟨some 0x0100007f, 3, Receiver.zeroed⟩)
        ⟨9, .other⟩ arguments message started := by
  have hargv : ([[99], [52, 50], [97], [104]] : List (List UInt8)) ≠ [] := by simp
  rcases client_start_exact (LexicalCast.standard_documented 16)
      (LexicalCast.standard_documented 64) hargv
      (fun _ => ⟨some 0x0100007f, 3, Receiver.zeroed⟩) ⟨9, .other⟩ with
    ⟨arguments, message, started, -, hstart, hentered, -⟩ | ⟨usage, message, -, hobstacle⟩
  · exact ⟨arguments, message, started, hstart, hentered⟩
  · cases hobstacle with
    | arguments hrefused => exact absurd hrefused (sample_denotes.not_refused _)
    | lookup _ hlookup => cases hlookup
    | socket _ _ hsocket => cases hsocket

end ClientProgram
end SikUdp
