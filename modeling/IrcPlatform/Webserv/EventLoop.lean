import IrcPlatform.Webserv.Handlers
import IrcPlatform.Webserv.Messages
import IrcPlatform.Webserv.Site

/-!
# The event loop of the web server

`Server.cpp` and `CgiHandler::start`. What the operating system answers is given with each
call; the calls themselves are recorded in their order. The file system is given anew each
time, since the scripts write to it too. A null pointer is `none`; `_clients[fd]` creates the
client that is not there.
-/

namespace IrcPlatform.Webserv

open Std

/-- The bits of `events` and `revents`. -/
structure PollFlags where
  pollin : Bool := false
  pollout : Bool := false
  pollerr : Bool := false
  pollhup : Bool := false
  pollnval : Bool := false
deriving DecidableEq

structure PollFd where
  fd : Int
  events : PollFlags
  revents : PollFlags := {}
deriving DecidableEq

inductive ClientPhase where
  | reading
  | cgiWriting
  | cgiReading
  | writing
deriving DecidableEq

structure Listener where
  fd : Int
  config : ServerConfig
deriving DecidableEq

structure Client where
  fd : Int := -1
  config : Option ServerConfig := none
  input : Bytes := []
  output : Bytes := []
  sent : Nat := 0
  touched : Int := 0
  cgiPid : Int := -1
  cgiInputFd : Int := -1
  cgiOutputFd : Int := -1
  cgiInput : Bytes := []
  cgiWritten : Nat := 0
  cgiOutput : Bytes := []
  timeoutSeconds : Nat := 30
  phase : ClientPhase := .reading
deriving DecidableEq

/-- `*client.config`. -/
def Client.settings (client : Client) : ServerConfig := client.config.getD {}

inductive WaitStatus where
  | exited (code : Nat)
  | signaled
deriving DecidableEq

/-- What the server did, in terms of the descriptors, processes and connections it was about. -/
inductive Call where
  | opened (fd : Int)
  | closed (fd : Int)
  | forked (pid : Int)
  | killed (pid : Int)
  /-- `waitpid` returned the process. -/
  | reaped (pid : Int) (blocking : Bool)
  /-- `accept` opened a connection that is kept. -/
  | accepted (fd : Int)
  /-- A request of the connection was parsed. -/
  | parsed (fd : Int) (request : Request)
  /-- A response was made for the connection. -/
  | serialized (fd : Int) (response : Bytes)
  | sent (fd : Int) (bytes : Bytes)
  /-- Bytes were written to the standard input of the connection's script. -/
  | wrote (fd : Int) (bytes : Bytes)
  /-- Bytes were read from the standard output of the connection's script. -/
  | collected (fd : Int) (bytes : Bytes)
  /-- The standard output of the connection's script is over. -/
  | drained (fd : Int)
  /-- `finishCgi` was told how the connection's script ended. -/
  | finished (fd : Int) (status : WaitStatus)
  /-- The whole response was sent. -/
  | completed (fd : Int)
deriving DecidableEq

structure Server where
  listeners : List Listener
  clients : ExtTreeMap Int Client := ∅
  cgiInputOwners : ExtTreeMap Int Int := ∅
  cgiOutputOwners : ExtTreeMap Int Int := ∅
  pollfds : List PollFd
  calls : List Call := []

/-! ## Answers of the operating system -/

/-- What `recv` or `read` returns. -/
inductive ReadResult where
  | again
  /-- The end of the stream, or an error. -/
  | ended
  | data (bytes : Bytes)
deriving DecidableEq

/-- What `send` or `write` returns; a count of nothing is not told from an error. -/
inductive WriteResult where
  | again
  | failed
  | count (number : Nat)
deriving DecidableEq

/-- A connection that `accept` returned. -/
structure Accepted where
  fd : Int
  /-- It could be made non-blocking. -/
  nonBlocking : Bool := true
  now : Int := 0
deriving DecidableEq

/-- What `CgiHandler::start` is told: whether the script is a regular file, the two pipes,
the child, and whether the ends that are kept could be made non-blocking. -/
structure Started where
  regular : Bool := true
  inputPipe : Option (Int × Int) := none
  outputPipe : Option (Int × Int) := none
  child : Option Int := none
  nonBlocking : Bool := true
deriving DecidableEq

/-- The answers to the calls made for one event. -/
structure Answers where
  accepts : List Accepted := []
  received : ReadResult := .again
  started : Started := {}
  written : WriteResult := .again
  /-- `waitpid` returns the process at once, with this status. -/
  exited : Option WaitStatus := none
  /-- The status that a `waitpid` that blocks returns. -/
  killed : WaitStatus := .signaled
  disk : Disk
  writes : List WriteOutcome := []
  now : Nat := 0

/-- The size of the buffers that are read into. -/
def maxRead : Nat := 16384

def ReadResult.fits : ReadResult → Bool
  | .data bytes => !bytes.isEmpty && bytes.length ≤ maxRead
  | _ => true

def WriteResult.fits (available : Nat) : WriteResult → Bool
  | .count number => number ≤ available
  | _ => true

namespace Server

def maxConnections : Nat := 128
def maxCgiProcesses : Nat := 16
def maxHeaderOverhead : Nat := 65536
def maxCgiOutput : Nat := 16 * 1024 * 1024

/-! ## Tables -/

def record (server : Server) (call : Call) : Server :=
  { server with calls := server.calls ++ [call] }

/-- `_clients[fd]`. -/
def clientAt (server : Server) (fd : Int) : Client := server.clients[fd]?.getD {}

def setClient (server : Server) (fd : Int) (client : Client) : Server :=
  { server with clients := server.clients.insert fd client }

def isListener (server : Server) (fd : Int) : Bool := server.listeners.any (·.fd == fd)

def listenerConfig (server : Server) (fd : Int) : Option ServerConfig :=
  (server.listeners.find? (·.fd == fd)).map (·.config)

def pushPollFd (server : Server) (fd : Int) (events : PollFlags) : Server :=
  { server with pollfds := server.pollfds ++ [{ fd := fd, events := events }] }

/-- `_pollfds[index].events = events`. -/
def setEventsAt (server : Server) (index : Nat) (events : PollFlags) : Server :=
  { server with pollfds := server.pollfds.modify index ({ · with events := events }) }

/-- The loop that changes the first entry of a descriptor. -/
def changeFirst (fd : Int) (events : PollFlags) : List PollFd → List PollFd
  | [] => []
  | entry :: rest =>
      if entry.fd = fd then { entry with events := events } :: rest
      else entry :: changeFirst fd events rest

def setEventsFirst (server : Server) (fd : Int) (events : PollFlags) : Server :=
  { server with pollfds := changeFirst fd events server.pollfds }

/-- The loop that changes every entry of a descriptor. -/
def setEventsAll (server : Server) (fd : Int) (events : PollFlags) : Server :=
  { server with pollfds := server.pollfds.map fun entry =>
      if entry.fd = fd then { entry with events := events } else entry }

def removePollFd (server : Server) (fd : Int) : Server :=
  { server with pollfds := server.pollfds.eraseP (·.fd == fd) }

def close (server : Server) (fd : Int) : Server := server.record (.closed fd)

/-! ## Closing -/

/-- The input pipe of a client is closed, if it is open. -/
def dropCgiInput (server : Server) (fd : Int) : Server :=
  let client := server.clientAt fd
  if client.cgiInputFd < 0 then server
  else
    let closed := (server.close client.cgiInputFd).removePollFd client.cgiInputFd
    { closed with cgiInputOwners := closed.cgiInputOwners.erase client.cgiInputFd }.setClient fd
      { client with cgiInputFd := -1 }

/-- The output pipe of a client is closed, if it is open. -/
def dropCgiOutput (server : Server) (fd : Int) : Server :=
  let client := server.clientAt fd
  if client.cgiOutputFd < 0 then server
  else
    let closed := (server.close client.cgiOutputFd).removePollFd client.cgiOutputFd
    { closed with cgiOutputOwners := closed.cgiOutputOwners.erase client.cgiOutputFd }.setClient fd
      { client with cgiOutputFd := -1 }

/-- `kill` with `SIGKILL` and the `waitpid` that blocks. -/
def killCgi (server : Server) (fd : Int) : Server :=
  let pid := (server.clientAt fd).cgiPid
  (server.record (.killed pid)).record (.reaped pid true)

def closeClient (server : Server) (fd : Int) : Server :=
  match server.clients[fd]? with
  | none => server
  | some client =>
      let waited := if 0 < client.cgiPid then server.killCgi fd else server
      let closed := (((waited.dropCgiInput fd).dropCgiOutput fd).close fd).removePollFd fd
      { closed with clients := closed.clients.erase fd }

/-! ## Responses -/

def pollOut : PollFlags := { pollout := true }
def pollIn : PollFlags := { pollin := true }

/-- The client is given its response. -/
def respond (server : Server) (fd : Int) (response : Bytes) : Server :=
  (server.record (.serialized fd response)).setClient fd
    { server.clientAt fd with output := response }

def setPhase (server : Server) (fd : Int) (phase : ClientPhase) : Server :=
  server.setClient fd { server.clientAt fd with phase := phase }

/-- The response of the client at an index of the table, and its new phase. -/
def answerAt (server : Server) (index : Nat) (fd : Int) (response : Bytes) : Server :=
  ((server.respond fd response).setPhase fd .writing).setEventsAt index pollOut

def succeeded : WaitStatus → Bool
  | .exited code => code == 0
  | .signaled => false

/-- The client has its response and no script any more. -/
def endCgi (server : Server) (fd : Int) (now : Int) : Server :=
  server.setClient fd
    { server.clientAt fd with cgiPid := -1, sent := 0, touched := now, phase := .writing }

def finishCgi (server : Server) (disk : Disk) (now : Int) (fd : Int) (status : WaitStatus) :
    Server :=
  match server.clients[fd]? with
  | none => server
  | some client =>
      let closed := (server.dropCgiInput fd).dropCgiOutput fd
      let response :=
        if succeeded status then CgiHandler.makeResponse disk client.cgiOutput client.settings
        else ResponseFactory.error disk 500 client.settings
      (((closed.record (.finished fd status)).respond fd response.serialize).endCgi fd
        now).setEventsFirst fd pollOut

/-! ## Connections -/

/-- One connection that `accept` returned. -/
def acceptOne (server : Server) (config : Option ServerConfig) (accepted : Accepted) : Server :=
  let opened := server.record (.opened accepted.fd)
  if maxConnections ≤ opened.clients.size then opened.close accepted.fd
  else if !accepted.nonBlocking then opened.close accepted.fd
  else
    let kept := (opened.record (.accepted accepted.fd)).setClient accepted.fd
      { fd := accepted.fd, config := config, touched := accepted.now }
    kept.pushPollFd accepted.fd pollIn

def acceptClient (server : Server) (index : Nat) (accepts : List Accepted) : Server :=
  let config := (server.pollfds[index]?).bind fun entry => server.listenerConfig entry.fd
  accepts.foldl (fun server accepted => server.acceptOne config accepted) server

/-! ## Scripts -/

def closePipe (server : Server) (pipe : Int × Int) : Server :=
  (server.close pipe.1).close pipe.2

def openPipe (server : Server) (pipe : Int × Int) : Server :=
  (server.record (.opened pipe.1)).record (.opened pipe.2)

/-- What the caller of `CgiHandler::start` gets of the process. -/
structure CgiProcess where
  pid : Int
  inputFd : Int
  outputFd : Int

/-- `CgiHandler::start`. The first end of a pipe is read from, the second written to. -/
def startProcess (server : Server) (route : RouteResult) (started : Started) :
    Server × Option CgiProcess :=
  if !started.regular then (server, none)
  else
    match started.inputPipe, started.outputPipe with
    | none, _ => (server, none)
    | some inputPipe, none => ((server.openPipe inputPipe).closePipe inputPipe, none)
    | some inputPipe, some outputPipe =>
        let opened := (server.openPipe inputPipe).openPipe outputPipe
        if (CgiHandler.selectInterpreter route).isEmpty then
          ((opened.closePipe inputPipe).closePipe outputPipe, none)
        else
          match started.child with
          | none =>
              ((((opened.close inputPipe.1).close outputPipe.2).close inputPipe.2).close
                outputPipe.1, none)
          | some pid =>
              let parent := ((opened.record (.forked pid)).close inputPipe.1).close outputPipe.2
              if started.nonBlocking then (parent, some ⟨pid, inputPipe.2, outputPipe.1⟩)
              else
                ((((parent.close inputPipe.2).close outputPipe.1).record (.killed pid)).record
                  (.reaped pid true), none)

/-- How many clients have a script. -/
def runningCgi (server : Server) : Nat :=
  (server.clients.filter fun _ client => 0 < client.cgiPid).size

/-- The process belongs to the client from now on. -/
def adoptProcess (server : Server) (index : Nat) (fd : Int) (request : Request) (timeout : Nat)
    (now : Int) (process : CgiProcess) : Server :=
  let started := (server.setClient fd
    { server.clientAt fd with
      cgiPid := process.pid, cgiInputFd := process.inputFd, cgiOutputFd := process.outputFd
      cgiInput := request.body, cgiWritten := 0, cgiOutput := [], touched := now
      timeoutSeconds := timeout
      phase := if request.body.isEmpty then .cgiReading else .cgiWriting }).setEventsAt index {}
  let reading := started.pushPollFd process.outputFd pollIn
  let owned :=
    { reading with cgiOutputOwners := reading.cgiOutputOwners.insert process.outputFd fd }
  if request.body.isEmpty then
    let closed := owned.close process.inputFd
    closed.setClient fd { closed.clientAt fd with cgiInputFd := -1 }
  else
    let writing := owned.pushPollFd process.inputFd pollOut
    { writing with cgiInputOwners := writing.cgiInputOwners.insert process.inputFd fd }

/-- Whether the request is left to a script, and the server after the attempt. -/
def startCgi (server : Server) (index : Nat) (fd : Int) (request : Request) (answers : Answers) :
    Server × Bool :=
  let config := (server.clientAt fd).settings
  let route := Router.resolve request config
  let refuse (status : Nat) := ((ResponseFactory.error answers.disk status config)).serialize
  if route.status ≠ .ready ∨ !CgiHandler.matchesRoute route then (server, false)
  else if maxCgiProcesses ≤ server.runningCgi then (server.answerAt index fd (refuse 503), true)
  else
    match FileSystem.resolveExisting answers.disk (selectedRoot config route.location)
        route.diskPath with
    | .error .notFound => (server.answerAt index fd (refuse 404), true)
    | .error _ => (server.answerAt index fd (refuse 403), true)
    | .ok resolved =>
        match server.startProcess { route with diskPath := resolved } answers.started with
        | (after, none) => ((after.respond fd (refuse 500)).setEventsAt index pollOut, true)
        | (after, some process) =>
            (after.adoptProcess index fd request
              (match route.location with
                | some location => location.cgiTimeout
                | none => 30) answers.now process, true)

/-! ## Reading requests -/

/-- `std::numeric_limits<size_t>::max()`. -/
def sizeMax : Nat := 2 ^ 64 - 1

def requestLimit (maxBody : Nat) : Nat :=
  if sizeMax - maxHeaderOverhead < maxBody then sizeMax else maxBody + maxHeaderOverhead

/-- What `readClient` makes of the bytes that arrive behind those received before. -/
inductive Intake where
  /-- The input would grow beyond the limit. -/
  | refused
  | parsed (input : Bytes) (result : ParseResult)

def intake (maxBody : Nat) (input incoming : Bytes) : Intake :=
  if requestLimit maxBody - incoming.length < input.length then .refused
  else .parsed (input ++ incoming) (parseRequest (input ++ incoming) maxBody)

/-- The response to a request that is not left to a script; `none` where there is none. -/
def respondTo (config : ServerConfig) (answers : Answers) : ParseResult → Option Response
  | .ok request =>
      some (Dispatcher.dispatch answers.disk request config answers.now answers.writes).1
  | .bad => some (ResponseFactory.error answers.disk 400 config)
  | .tooLarge => some (ResponseFactory.error answers.disk 413 config)
  | .versionNotSupported => some (ResponseFactory.error answers.disk 505 config)
  | .incomplete | .outOfRange | .spins => none

def answerResult (server : Server) (index : Nat) (fd : Int) (answers : Answers)
    (result : ParseResult) : Server :=
  match respondTo (server.clientAt fd).settings answers result with
  | none => server
  | some response => server.answerAt index fd response.serialize

/-- What follows the parser. -/
def handleResult (server : Server) (index : Nat) (fd : Int) (answers : Answers) :
    ParseResult → Server
  | .ok request =>
      match (server.record (.parsed fd request)).startCgi index fd request answers with
      | (after, true) => after
      | (after, false) => after.answerResult index fd answers (.ok request)
  | result => server.answerResult index fd answers result

def readClient (server : Server) (index : Nat) (fd : Int) (answers : Answers) : Server :=
  match answers.received with
  | .again => server
  | .ended => server.closeClient fd
  | .data incoming =>
      let client := server.clientAt fd
      match intake client.settings.maxBody client.input incoming with
      | .refused =>
          server.answerAt index fd
            (ResponseFactory.error answers.disk 413 client.settings).serialize
      | .parsed input result =>
          (server.setClient fd { client with input := input, touched := answers.now }).handleResult
            index fd answers result

/-! ## Sending responses -/

def writeClient (server : Server) (fd : Int) (answers : Answers) : Server :=
  let client := server.clientAt fd
  match answers.written with
  | .again => server
  | .failed | .count 0 => server.closeClient fd
  | .count (number + 1) =>
      let sent := client.sent + (number + 1)
      let after := (server.record
        (.sent fd ((client.output.drop client.sent).take (number + 1)))).setClient fd
          { client with sent := sent, touched := answers.now }
      if sent = client.output.length then (after.record (.completed fd)).closeClient fd else after

/-! ## Serving scripts -/

/-- `_cgiInputOwners[fd]`. -/
def inputOwner (server : Server) (fd : Int) : Int := server.cgiInputOwners[fd]?.getD 0

def outputOwner (server : Server) (fd : Int) : Int := server.cgiOutputOwners[fd]?.getD 0

/-- The pipe is closed behind the last byte, or where it cannot be written to. -/
def endCgiInput (server : Server) (pipeFd fd : Int) : Server :=
  let closed := server.close pipeFd
  let dropped := closed.setClient fd { closed.clientAt fd with cgiInputFd := -1 }
  let erased := { dropped with cgiInputOwners := dropped.cgiInputOwners.erase pipeFd }
  (erased.removePollFd pipeFd).setPhase fd .cgiReading

def writeCgi (server : Server) (pipeFd : Int) (answers : Answers) : Server :=
  let fd := server.inputOwner pipeFd
  let client := server.clientAt fd
  match answers.written with
  | .again => server
  | .failed | .count 0 => server.endCgiInput pipeFd fd
  | .count (number + 1) =>
      let written := client.cgiWritten + (number + 1)
      let after := (server.record
        (.wrote fd ((client.cgiInput.drop client.cgiWritten).take (number + 1)))).setClient fd
          { client with cgiWritten := written, touched := answers.now }
      if written = client.cgiInput.length then after.endCgiInput pipeFd fd else after

def readCgi (server : Server) (pipeFd : Int) (answers : Answers) : Server :=
  let fd := server.outputOwner pipeFd
  let client := server.clientAt fd
  match answers.received with
  | .again => server
  | .data bytes =>
      let after := (server.record (.collected fd bytes)).setClient fd
        { client with cgiOutput := client.cgiOutput ++ bytes, touched := answers.now }
      if maxCgiOutput < (client.cgiOutput ++ bytes).length then
        (after.killCgi fd).finishCgi answers.disk answers.now fd answers.killed
      else after
  | .ended =>
      let closed := (server.close pipeFd).record (.drained fd)
      let dropped := closed.setClient fd { closed.clientAt fd with cgiOutputFd := -1 }
      let erased := { dropped with cgiOutputOwners := dropped.cgiOutputOwners.erase pipeFd }
      let removed := erased.removePollFd pipeFd
      match answers.exited with
      | none => removed
      | some status =>
          (removed.record (.reaped client.cgiPid false)).finishCgi answers.disk answers.now fd
            status

/-! ## Between the events -/

/-- The clients whose script has exited after the end of its output, with its status. -/
def exitedScripts (server : Server) (waits : List (Int × WaitStatus)) :
    List (Int × Int × WaitStatus) :=
  server.clients.toList.filterMap fun (fd, client) =>
    if client.cgiPid ≤ 0 ∨ 0 ≤ client.cgiOutputFd then none
    else (waits.lookup client.cgiPid).map fun status => (fd, client.cgiPid, status)

def waitAll (exited : List (Int × Int × WaitStatus)) (server : Server) : Server :=
  exited.foldl (fun server (_, pid, _) => server.record (.reaped pid false)) server

def finishAll (disk : Disk) (now : Int) (exited : List (Int × Int × WaitStatus))
    (server : Server) : Server :=
  exited.foldl (fun server (fd, _, status) => server.finishCgi disk now fd status) server

/-- `reapCgi`; the processes for which `waitpid` returns are listed with their status. -/
def reapCgi (server : Server) (disk : Disk) (now : Int) (waits : List (Int × WaitStatus)) :
    Server :=
  let exited := server.exitedScripts waits
  finishAll disk now exited (waitAll exited server)

def expireOne (disk : Disk) (now : Int) (server : Server) (fd : Int) : Server :=
  match server.clients[fd]? with
  | none => server
  | some client =>
      let refuse (status : Nat) := (ResponseFactory.error disk status client.settings).serialize
      if 0 < client.cgiPid then
        let closed := ((server.killCgi fd).dropCgiInput fd).dropCgiOutput fd
        ((closed.respond fd (refuse 504)).endCgi fd now).setEventsAll client.fd pollOut
      else if client.output.isEmpty then
        let answered := server.respond fd (refuse 408)
        (answered.setClient fd { answered.clientAt fd with
          sent := 0, touched := now, phase := .writing }).setEventsAll client.fd pollOut
      else server.closeClient client.fd

def expired (server : Server) (now : Int) : List Int :=
  (server.clients.toList.filter fun (_, client) =>
    (client.timeoutSeconds : Int) < now - client.touched).map (·.1)

def expireClients (server : Server) (disk : Disk) (now : Int) : Server :=
  (server.expired now).foldl (expireOne disk now) server

end Server

end IrcPlatform.Webserv
