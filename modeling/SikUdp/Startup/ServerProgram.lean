import SikUdp.Program.Main
import SikUdp.Runs.Safety
import SikUdp.Startup.Arguments
import SikUdp.Startup.FileContent

/-!
# Starting the server

Which command lines `main` of the server accepts and what keeps it from entering its loop.
Whatever does is printed and ends the program with code 1, and no exception gets past the
`catch` clauses. A signal is the exception: its handler is registered before there is a
server to stop.
-/
namespace SikUdp

open Decimal

namespace ServerProgram

/-- The command line consists of a port and the name of a file. -/
def Denotes (argv : List (List UInt8)) (arguments : Arguments) : Prop :=
  ∃ executable, argv = [executable, numeral arguments.port.toNat, arguments.filename] ∧
    1 ≤ arguments.port.toNat

/-- What is wrong with a command line. -/
inductive Refused : List (List UInt8) → String → Prop
  | count {argv} (hcount : argv.length ≠ 3) : Refused argv "Invalid arguments count"
  | port {executable port filename}
      (hport : ∀ p : UInt16, 1 ≤ p.toNat → port ≠ numeral p.toNat) :
      Refused [executable, port, filename] "Port must be an integer between 1 and 65,535"

variable {cast : LexicalCast 16} (h : cast.Documented) {argv : List (List UInt8)}
include h

theorem parseArguments_cases (hargv : argv ≠ []) :
    (∃ arguments, Denotes argv arguments ∧ parseArguments cast argv = .ok arguments) ∨
    (∃ message, Refused argv message ∧
      parseArguments cast argv = .error (.exited true message 1)) := by
  unfold parseArguments
  split
  · exact absurd rfl hargv
  · rename_i executable port filename
    cases hport : parsePort cast port with
    | ok p =>
      obtain ⟨hpos, rfl⟩ := (parsePort_eq_ok h).mp hport
      exact Or.inl ⟨⟨p, filename⟩, ⟨executable, rfl, hpos⟩, rfl⟩
    | error e =>
      have hnone : ∀ p, parsePort cast port ≠ .ok p := by
        intro p hp
        rw [hp] at hport
        cases hport
      have he := map_parseNumber_error _ _ h hnone
      have heq := hport.symm.trans he
      cases heq
      refine Or.inr ⟨_, .port fun p hpos hp => ?_, rfl⟩
      exact hnone p ((parsePort_eq_ok h).mpr ⟨hpos, hp⟩)
  · rename_i hother
    refine Or.inr ⟨_, .count fun hcount => ?_, rfl⟩
    obtain ⟨a, b, c, rfl⟩ := List.length_eq_three.mp hcount
    exact hother a b c rfl

end ServerProgram

theorem Poll.addDescriptor_empty {fd : ℤ} (hfd : 0 ≤ fd) (events : EventMask) :
    ∃ q, (Poll.empty : Poll 1).addDescriptor fd events = .ok q := by
  have hfree : (Poll.empty : Poll 1).getIndex (-1) = .ok 0 := rfl
  rcases (Poll.empty : Poll 1).getIndex_cases fd with ⟨i, -, hi, -⟩ | ⟨hnone, -⟩
  · have hreset : ((Poll.empty : Poll 1).client i).fd = -1 := by simp [Poll.empty, PollFd.reset]
    omega
  · rw [addDescriptor, if_neg (not_lt.mpr hfd), hnone]
    dsimp only
    rw [hfree]
    exact ⟨_, rfl⟩

theorem Server.construct_eq {bufferSize : ℕ} (hsize : 0 < bufferSize) (port : UInt16)
    {env : Environment} {content : List UInt8} (hsocket : 0 ≤ env.sock)
    (hbind : 0 ≤ env.bindResult) (hfile : env.file.outcome = .ok content) :
    ∃ poll, construct hsize port env = .ok
      { stopping := false
        sock := env.sock
        fileContent := content
        address := ⟨0, htons port⟩
        poll
        buffer := Buffer.empty hsize
        currentMessage := none
        connections := Connections.empty
        currentClients := []
        receiver := env.receiver } := by
  obtain ⟨poll, hpoll⟩ := Poll.addDescriptor_empty hsocket (POLLIN ||| POLLOUT)
  refine ⟨poll, ?_⟩
  simp [construct, openSocket, bindSocket, readFile, not_lt.mpr hsocket, not_lt.mpr hbind, hfile,
    hpoll, Bind.bind, Except.bind]

namespace ServerProgram

/-- The first thing that keeps the server from starting, and whether the usage is printed. -/
inductive Obstacle (argv : List (List UInt8)) (registered : Bool)
    (env : List UInt8 → Server.Environment) : Bool → String → Prop
  | arguments {message} (hargv : Refused argv message) : Obstacle argv registered env true message
  | signal {arguments} (hargv : Denotes argv arguments) (hsignal : registered = false) :
      Obstacle argv registered env false "Unable to register SIGINT signal"
  | socket {arguments} (hargv : Denotes argv arguments) (hsignal : registered = true)
      (hsocket : (env arguments.filename).sock < 0) :
      Obstacle argv registered env false "Error opening socket"
  | bind {arguments} (hargv : Denotes argv arguments) (hsignal : registered = true)
      (hsocket : 0 ≤ (env arguments.filename).sock)
      (hbind : (env arguments.filename).bindResult < 0) :
      Obstacle argv registered env false "Error binding to socket"
  | openFile {arguments} (hargv : Denotes argv arguments) (hsignal : registered = true)
      (hsocket : 0 ≤ (env arguments.filename).sock)
      (hbind : 0 ≤ (env arguments.filename).bindResult)
      (hfile : (env arguments.filename).file.outcome =
        .error (.throws (.invalidArgument "Could not open file"))) :
      Obstacle argv registered env false "Could not open file"
  | readFile {arguments} (hargv : Denotes argv arguments) (hsignal : registered = true)
      (hsocket : 0 ≤ (env arguments.filename).sock)
      (hbind : 0 ≤ (env arguments.filename).bindResult)
      (hfile : (env arguments.filename).file.outcome =
        .error (.throws (.runtimeError "Error reading file"))) :
      Obstacle argv registered env false "Error reading file"

/-- Everything the server needs is there, and `s` is the server built from it. -/
structure Started (argv : List (List UInt8)) (registered : Bool)
    (env : List UInt8 → Server.Environment) (s : Server bufferSize) : Prop where
  registered : registered = true
  constructed : s.Constructed
  text : 0 ∉ s.fileContent
  denotes : ∃ arguments, Denotes argv arguments ∧
    (env arguments.filename).file.outcome = .ok s.fileContent ∧
    (env arguments.filename).sock = s.sock ∧ 0 ≤ s.sock ∧
    0 ≤ (env arguments.filename).bindResult ∧ s.address = ⟨0, htons arguments.port⟩

theorem construct_cases {argv : List (List UInt8)} {env : List UInt8 → Server.Environment}
    {arguments : Arguments} (hargv : Denotes argv arguments) :
    (∃ s, catchServer (Server.construct bufferSize_pos arguments.port (env arguments.filename)) =
        .ok s ∧ Started argv true env s) ∨
    (∃ message, catchServer
        (Server.construct bufferSize_pos arguments.port (env arguments.filename)) =
        .error (.exited false message 1) ∧ Obstacle argv true env false message) := by
  by_cases hsocket : (env arguments.filename).sock < 0
  · refine Or.inr ⟨_, ?_, .socket hargv rfl hsocket⟩
    rw [Server.construct, Server.openSocket, if_pos hsocket]
    rfl
  by_cases hbind : (env arguments.filename).bindResult < 0
  · refine Or.inr ⟨_, ?_, .bind hargv rfl (not_lt.mp hsocket) hbind⟩
    rw [Server.construct, Server.openSocket, if_neg hsocket, Server.bindSocket, if_pos hbind]
    rfl
  have hopened := not_lt.mp hsocket
  have hbound := not_lt.mp hbind
  rcases (env arguments.filename).file.outcome_cases with ⟨content, hcontent, htext⟩ | hopen | hread
  · obtain ⟨poll, hconstruct⟩ := Server.construct_eq bufferSize_pos arguments.port hopened hbound
      hcontent
    rw [hconstruct]
    exact Or.inl ⟨_, rfl, rfl, ⟨_, _, _, hconstruct⟩, htext, arguments, hargv, hcontent, rfl,
      hopened, hbound, rfl⟩
  · refine Or.inr ⟨_, ?_, .openFile hargv rfl hopened hbound hopen⟩
    rw [Server.construct, Server.openSocket, if_neg hsocket, Server.bindSocket, if_neg hbind,
      Server.readFile, hopen]
    rfl
  · refine Or.inr ⟨_, ?_, .readFile hargv rfl hopened hbound hread⟩
    rw [Server.construct, Server.openSocket, if_neg hsocket, Server.bindSocket, if_neg hbind,
      Server.readFile, hread]
    rfl

/-- The server starts exactly if nothing keeps it from doing so. If something does it
prints what, and exits with code 1. Only a signal that arrives before `server` is assigned
crashes it. -/
theorem server_start_exact {cast : LexicalCast 16} (h : cast.Documented) {argv : List (List UInt8)}
    (hargv : argv ≠ []) (registered interrupted : Bool) (env : List UInt8 → Server.Environment) :
    (∃ s, start cast argv registered interrupted env = .ok s ∧ interrupted = false ∧
      Started argv registered env s) ∨
    (∃ usage message, start cast argv registered interrupted env =
        .error (.exited usage message 1) ∧ Obstacle argv registered env usage message) ∨
    (start cast argv registered interrupted env = .error .undefined ∧ interrupted = true ∧
      registered = true ∧ ∃ arguments, Denotes argv arguments) := by
  rcases parseArguments_cases h hargv with ⟨arguments, hdenotes, hparse⟩ |
      ⟨message, hrefused, hparse⟩
  · have hstart : start cast argv registered interrupted env = (do
        registerSignals registered
        handleEarly interrupted
        catchServer
          (Server.construct bufferSize_pos arguments.port (env arguments.filename))) := by
      rw [start, hparse]
      rfl
    rw [hstart]
    cases registered with
    | false => exact Or.inr (Or.inl ⟨_, _, rfl, .signal hdenotes rfl⟩)
    | true =>
      cases interrupted with
      | true => exact Or.inr (Or.inr ⟨rfl, rfl, rfl, arguments, hdenotes⟩)
      | false =>
        rcases construct_cases hdenotes with ⟨s, hs, hstarted⟩ |
            ⟨message, hs, hobstacle⟩
        · exact Or.inl ⟨s, hs, rfl, hstarted⟩
        · exact Or.inr (Or.inl ⟨_, _, hs, hobstacle⟩)
  · refine Or.inr (Or.inl ⟨_, _, ?_, .arguments hrefused⟩)
    rw [start, hparse]
    rfl

theorem Denotes.not_refused {argv : List (List UInt8)} {arguments : Arguments}
    (h : Denotes argv arguments) (message : String) : ¬ Refused argv message := by
  obtain ⟨executable, rfl, hpos⟩ := h
  generalize hargv : [_, _, _] = argv
  intro hrefused
  cases hrefused with
  | count hcount => simp [← hargv] at hcount
  | port hbad =>
    simp only [List.cons.injEq] at hargv
    exact hbad _ hpos hargv.2.1.symm

theorem server_start_exact_sample :
    ∃ s, start (.standard 16) [[115], [52, 50], [102]] true false
        (fun _ => Server.sampleEnvironment) = .ok s ∧
      Started [[115], [52, 50], [102]] true (fun _ => Server.sampleEnvironment) s := by
  have hdenotes : Denotes [[115], [52, 50], [102]] ⟨42, [102]⟩ := by
    have hnumeral : numeral (42 : UInt16).toNat = [52, 50] := by decide
    exact ⟨[115], by rw [hnumeral], by decide⟩
  have hargv : ([[115], [52, 50], [102]] : List (List UInt8)) ≠ [] := by simp
  rcases server_start_exact (LexicalCast.standard_documented 16) hargv true false
      (fun _ => Server.sampleEnvironment) with
    ⟨s, hs, -, hstarted⟩ | ⟨usage, message, -, hobstacle⟩ | ⟨-, hinterrupted, -⟩
  · exact ⟨s, hs, hstarted⟩
  · cases hobstacle with
    | arguments hrefused => exact absurd hrefused (hdenotes.not_refused _)
    | signal _ hsignal => cases hsignal
    | socket _ _ hsocket => cases hsocket
    | bind _ _ _ hbind => cases hbind
    | openFile _ _ _ _ hfile => cases hfile
    | readFile _ _ _ _ hfile => cases hfile
  · cases hinterrupted

end ServerProgram

end SikUdp
