import Mathlib.Logic.Relation
import IrcPlatform.Webserv.Descriptors

/-!
# Connections

What an operation of the event loop does is a sequence of small steps, each of which changes
one connection: its client, the events that its socket is polled for, and whether `waitpid` has
returned its process. The steps carry what was found out before they were taken, so that
invariants of the loop are read off them and not off the code.
-/

namespace IrcPlatform.Webserv

open Std

/-- Whether `waitpid` has returned the process of a connection, and how it came to that. -/
inductive Waited where
  | no
  | reaped
  | killed
deriving DecidableEq

/-- A client and the events that its socket is polled for. -/
abbrev View := Client × PollFlags

/-- What may happen to connections while a handler runs. -/
structure Circumstances where
  /-- The connections that may be given a response or a script. -/
  asked : Int → Prop
  /-- The connections that may be closed without a response. -/
  quiet : Int → Prop
  /-- A script may fail to start. -/
  failing : Prop
  /-- A script may succeed before its output is over. -/
  cut : Prop

/-- The client without the pipe to its script. -/
def Client.withoutInput (client : Client) : Client :=
  if client.cgiInputFd < 0 then client else { client with cgiInputFd := -1 }

/-- The client without the pipe from its script. -/
def Client.withoutOutput (client : Client) : Client :=
  if client.cgiOutputFd < 0 then client else { client with cgiOutputFd := -1 }

namespace Client

variable (client : Client)

@[simp] theorem withoutInput_fd : client.withoutInput.fd = client.fd := by
  unfold withoutInput; split <;> rfl

@[simp] theorem withoutInput_cgiPid : client.withoutInput.cgiPid = client.cgiPid := by
  unfold withoutInput; split <;> rfl

@[simp] theorem withoutInput_cgiOutput : client.withoutInput.cgiOutput = client.cgiOutput := by
  unfold withoutInput; split <;> rfl

@[simp] theorem withoutInput_cgiOutputFd :
    client.withoutInput.cgiOutputFd = client.cgiOutputFd := by
  unfold withoutInput; split <;> rfl

@[simp] theorem withoutInput_output : client.withoutInput.output = client.output := by
  unfold withoutInput; split <;> rfl

theorem withoutInput_cgiInputFd : client.withoutInput.cgiInputFd < 0 := by
  unfold withoutInput
  split
  · assumption
  · simp

@[simp] theorem withoutOutput_fd : client.withoutOutput.fd = client.fd := by
  unfold withoutOutput; split <;> rfl

@[simp] theorem withoutOutput_cgiPid : client.withoutOutput.cgiPid = client.cgiPid := by
  unfold withoutOutput; split <;> rfl

@[simp] theorem withoutOutput_cgiOutput :
    client.withoutOutput.cgiOutput = client.cgiOutput := by
  unfold withoutOutput; split <;> rfl

@[simp] theorem withoutOutput_cgiInputFd :
    client.withoutOutput.cgiInputFd = client.cgiInputFd := by
  unfold withoutOutput; split <;> rfl

@[simp] theorem withoutOutput_output : client.withoutOutput.output = client.output := by
  unfold withoutOutput; split <;> rfl

theorem withoutOutput_cgiOutputFd : client.withoutOutput.cgiOutputFd < 0 := by
  unfold withoutOutput
  split
  · assumption
  · simp

end Client

/-- A call that only opens or closes a descriptor. -/
def Call.isFile : Call → Bool
  | .opened _ | .closed _ => true
  | _ => false

/-- The calls of an attempt to start a script that failed. -/
inductive Attempt : List Call → Prop where
  | early {files : List Call} (plain : ∀ call ∈ files, call.isFile = true) : Attempt files
  | late {files : List Call} {pid : Int} (plain : ∀ call ∈ files, call.isFile = true)
      {closing : List Call} (closes : ∀ call ∈ closing, call.isFile = true) :
      Attempt (files ++ .forked pid :: closing ++ [.killed pid, .reaped pid true])

/-- The request that an answer follows. -/
def parsedCalls (fd : Int) : Option Request → List Call
  | none => []
  | some request => [.parsed fd request]

/-- One step of a connection, with its calls. -/
inductive Shift (given : Circumstances) (fd : Int) :
    Option View × Waited → List Call → Option View × Waited → Prop where
  /-- A connection is closed at once. -/
  | refused : Shift given fd (none, .no) [.opened fd, .closed fd] (none, .no)
  | accepted (config : Option ServerConfig) (now : Int) :
      Shift given fd (none, .no) [.opened fd, .accepted fd]
        (some ({ fd := fd, config := config, touched := now }, Server.pollIn), .no)
  | received {client : Client} {events : PollFlags} (asked : given.asked fd)
      (silent : client.output = []) (idle : client.cgiPid ≤ 0) (input : Bytes) (now : Int) :
      Shift given fd (some (client, events), .no) []
        (some ({ client with input := input, touched := now }, events), .no)
  | answered {client : Client} {events : PollFlags} (asked : given.asked fd)
      (silent : client.output = []) (idle : client.cgiPid ≤ 0) (request : Option Request)
      {attempt : List Call} (failed : Attempt attempt) {response : Bytes}
      (nonempty : response ≠ []) {sent : Nat} (unsent : sent = client.sent ∨ sent = 0)
      (now : Int) {phase : ClientPhase}
      (phased : phase = .writing ∨ given.failing ∧ phase = client.phase) :
      Shift given fd (some (client, events), .no)
        (parsedCalls fd request ++ attempt ++ [.serialized fd response])
        (some ({ client with output := response, sent := sent, touched := now, phase := phase },
          Server.pollOut), .no)
  | started {client : Client} {events : PollFlags} (asked : given.asked fd)
      (silent : client.output = []) (idle : client.cgiPid ≤ 0) (request : Request)
      {opening closing : List Call} (opens : ∀ call ∈ opening, call.isFile = true)
      (closes : ∀ call ∈ closing, call.isFile = true) {pid input output : Int}
      (positive : 0 < pid) (reading : 0 ≤ output)
      (writing : 0 ≤ input ↔ request.body ≠ []) (timeout : Nat) (now : Int) :
      Shift given fd (some (client, events), .no)
        (.parsed fd request :: opening ++ .forked pid :: closing)
        (some ({ client with
            cgiPid := pid, cgiInputFd := input, cgiOutputFd := output, cgiInput := request.body
            cgiWritten := 0, cgiOutput := [], touched := now, timeoutSeconds := timeout
            phase := if request.body.isEmpty then .cgiReading else .cgiWriting }, {}), .no)
  | sent {client : Client} {events : PollFlags} (number : Nat) (positive : 0 < number)
      (fits : number ≤ client.output.length - client.sent) (now : Int) :
      Shift given fd (some (client, events), .no)
        [.sent fd ((client.output.drop client.sent).take number)]
        (some ({ client with sent := client.sent + number, touched := now }, events), .no)
  | completed {client : Client} {events : PollFlags} (some_ : client.output ≠ [])
      (whole : client.sent = client.output.length) :
      Shift given fd (some (client, events), .no) [.completed fd] (some (client, events), .no)
  | wrote {client : Client} {events : PollFlags} (running : 0 < client.cgiPid) (number : Nat)
      (fits : number ≤ client.cgiInput.length - client.cgiWritten) (now : Int) :
      Shift given fd (some (client, events), .no)
        [.wrote fd ((client.cgiInput.drop client.cgiWritten).take number)]
        (some ({ client with cgiWritten := client.cgiWritten + number, touched := now }, events),
          .no)
  | collected {client : Client} {events : PollFlags} (running : 0 < client.cgiPid)
      (bytes : Bytes) (now : Int) :
      Shift given fd (some (client, events), .no) [.collected fd bytes]
        (some ({ client with cgiOutput := client.cgiOutput ++ bytes, touched := now }, events),
          .no)
  | inputClosed {client : Client} {events : PollFlags} {waited : Waited}
      (running : 0 < client.cgiPid) (open_ : 0 ≤ client.cgiInputFd) {phase : ClientPhase}
      (phased : phase = .cgiReading ∨ waited ≠ .no) :
      Shift given fd (some (client, events), waited) [.closed client.cgiInputFd]
        (some ({ client with cgiInputFd := -1, phase := phase }, events), waited)
  | outputClosed {client : Client} {events : PollFlags} {waited : Waited}
      (running : 0 < client.cgiPid) (open_ : 0 ≤ client.cgiOutputFd) {drained : List Call}
      (spent : drained = [.drained fd] ∨ drained = [] ∧ waited = .killed) :
      Shift given fd (some (client, events), waited) (.closed client.cgiOutputFd :: drained)
        (some ({ client with cgiOutputFd := -1 }, events), waited)
  | reaped {client : Client} {events : PollFlags} (running : 0 < client.cgiPid)
      (spent : client.cgiOutputFd < 0) :
      Shift given fd (some (client, events), .no) [.reaped client.cgiPid false]
        (some (client, events), .reaped)
  | killed {client : Client} {events : PollFlags} (running : 0 < client.cgiPid) :
      Shift given fd (some (client, events), .no)
        [.killed client.cgiPid, .reaped client.cgiPid true] (some (client, events), .killed)
  /-- The response to the end of a script. -/
  | finished {client : Client} {events : PollFlags} {waited : Waited}
      (running : 0 < client.cgiPid) (input : client.cgiInputFd < 0)
      (output : client.cgiOutputFd < 0) (spent : waited ≠ .no) {status : WaitStatus}
      (whole : Server.succeeded status = true → waited = .killed → given.cut) (disk : Disk)
      (config : ServerConfig) {response : Response}
      (made : Server.succeeded status = true →
        response = CgiHandler.makeResponse disk client.cgiOutput config) (now : Int) :
      Shift given fd (some (client, events), waited)
        [.finished fd status, .serialized fd response.serialize]
        (some ({ client with
            cgiPid := -1, output := response.serialize, sent := 0, touched := now
            phase := .writing }, Server.pollOut), .no)
  /-- The response to a script that took too long. -/
  | timedOut {client : Client} {events : PollFlags} (running : 0 < client.cgiPid)
      (input : client.cgiInputFd < 0) (output : client.cgiOutputFd < 0) {response : Bytes}
      (nonempty : response ≠ []) (now : Int) :
      Shift given fd (some (client, events), .killed) [.serialized fd response]
        (some ({ client with
            cgiPid := -1, output := response, sent := 0, touched := now, phase := .writing },
          Server.pollOut), .no)
  | removed {client : Client} {events : PollFlags} {waited : Waited}
      (spent : waited = .killed ∨ waited = .no ∧ client.cgiPid ≤ 0)
      (heard : client.output ≠ [] ∨ given.quiet fd) :
      Shift given fd (some (client, events), waited) [.closed fd] (none, .no)

/-- The server, and which processes `waitpid` has returned. -/
structure Moment where
  server : Server
  waited : Int → Waited

namespace Server

/-- No process has been returned whose client still has it. -/
def settled (server : Server) : Moment := ⟨server, fun _ => .no⟩

/-- The tables of the server agree with each other and with the calls. -/
def Sound (server : Server) : Prop := ∃ uses, Tabled server uses

end Server

/-- What a step finds out about the whole server. -/
structure Allowed (server : Server) (fd : Int) (new : List Call) : Prop where
  admitted : .accepted fd ∈ new → server.clients.size < Server.maxConnections
  unlisted : .accepted fd ∈ new → fd ∉ server.pollfds.map (·.fd)
  bounded : ∀ pid : Int, .forked pid ∈ new → server.runningCgi < Server.maxCgiProcesses
  fresh : ∀ pid : Int, .forked pid ∈ new → 0 < pid ∧ pid ∉ Server.children server.calls

inductive Step (given : Circumstances) (before after : Moment) : Prop where
  | of (fd : Int) {view : Option View} {waited : Waited} {new : List Call}
      (moves : Server.Moves before.server after.server fd view new)
      (shift : Shift given fd (before.server.view fd, before.waited fd) new (view, waited))
      (allowed : Allowed before.server fd new)
      (flags : after.waited = Function.update before.waited fd waited)

def Steps (given : Circumstances) : Moment → Moment → Prop := Relation.ReflTransGen (Step given)

end IrcPlatform.Webserv
