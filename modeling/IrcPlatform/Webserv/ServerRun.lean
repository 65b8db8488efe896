import IrcPlatform.Library.Transition
import IrcPlatform.Webserv.EventLoop

/-!
# Runs of the event loop

The scan of the poll table, what the operating system can answer, and the machine of
`Server::run`. `poll` only reports events that were asked for, and errors and hangups; new
descriptors are not open, a new process is not one of the children.
-/

namespace IrcPlatform.Webserv

open Std

namespace Server

/-- What the loop does about the events of an entry. -/
inductive Handler where
  | acceptClient
  | readCgi
  | writeCgi
  /-- The client of a pipe is closed. -/
  | closeOwner (fd : Int)
  | closeClient
  | readClient
  | writeClient
  | nothing
deriving DecidableEq

def handlerFor (server : Server) (entry : PollFd) : Handler :=
  let events := entry.revents
  if server.isListener entry.fd then (if events.pollin then .acceptClient else .nothing)
  else if server.cgiOutputOwners.contains entry.fd then
    if events.pollin || events.pollhup || events.pollerr then .readCgi
    else if events.pollnval then .closeOwner (server.outputOwner entry.fd)
    else .nothing
  else if server.cgiInputOwners.contains entry.fd then
    if events.pollout then .writeCgi else .closeOwner (server.inputOwner entry.fd)
  else if events.pollerr || events.pollhup || events.pollnval then .closeClient
  else if events.pollin then .readClient
  else if events.pollout then .writeClient
  else .nothing

def handle (server : Server) (index : Nat) (entry : PollFd) (answers : Answers) : Server :=
  match server.handlerFor entry with
  | .acceptClient => server.acceptClient index answers.accepts
  | .readCgi => server.readCgi entry.fd answers
  | .writeCgi => server.writeCgi entry.fd answers
  | .closeOwner fd => server.closeClient fd
  | .closeClient => server.closeClient entry.fd
  | .readClient => server.readClient index entry.fd answers
  | .writeClient => server.writeClient entry.fd answers
  | .nothing => server

/-- Whether the scan goes on behind the index, after the handler of the entry. -/
def advances (before after : Server) (index : Nat) (entry : PollFd) : Bool :=
  match before.handlerFor entry with
  | .acceptClient | .nothing => true
  | .closeClient => false
  | .readCgi | .writeCgi | .closeOwner _ | .readClient | .writeClient =>
      after.pollfds[index]?.any (·.fd == entry.fd)

/-! ## What the operating system can answer -/

/-- The descriptors that are open, the last one first. -/
def openFds (calls : List Call) : List Int :=
  calls.foldl
    (fun fds call =>
      match call with
      | .opened fd => fd :: fds
      | .closed fd => fds.erase fd
      | _ => fds)
    []

/-- The processes that have been forked and not been waited for. -/
def children (calls : List Call) : List Int :=
  calls.foldl
    (fun pids call =>
      match call with
      | .forked pid => pid :: pids
      | .reaped pid _ => pids.erase pid
      | _ => pids)
    []

/-- The descriptor is not open. -/
def isFresh (server : Server) (fd : Int) : Bool := 0 ≤ fd && !(openFds server.calls).contains fd

def freshPipe (server : Server) (pipe : Int × Int) : Bool :=
  server.isFresh pipe.1 && server.isFresh pipe.2 && pipe.1 != pipe.2

def acceptsFresh (config : Option ServerConfig) : Server → List Accepted → Bool
  | _, [] => true
  | server, accepted :: rest =>
      server.isFresh accepted.fd && acceptsFresh config (server.acceptOne config accepted) rest

/-- New pipes are of descriptors that are not open, a new process is not one of the children. -/
def startsFresh (server : Server) (started : Started) : Bool :=
  started.inputPipe.all (fun pipe => server.freshPipe pipe &&
      started.outputPipe.all (server.openPipe pipe).freshPipe) &&
    started.child.all fun pid => 0 < pid && !(children server.calls).contains pid

/-- The parser comes back. -/
def parserReturns (server : Server) (fd : Int) : ReadResult → Bool
  | .data incoming =>
      let client := server.clientAt fd
      match intake client.settings.maxBody client.input incoming with
      | .parsed _ .outOfRange | .parsed _ .spins => false
      | _ => true
  | _ => true

/-- The answers are possible for the handler of the entry. -/
def permits (server : Server) (entry : PollFd) (answers : Answers) : Bool :=
  match server.handlerFor entry with
  | .acceptClient => acceptsFresh (server.listenerConfig entry.fd) server answers.accepts
  | .readCgi => answers.received.fits
  | .writeCgi =>
      let client := server.clientAt (server.inputOwner entry.fd)
      answers.written.fits (client.cgiInput.length - client.cgiWritten)
  | .readClient =>
      answers.received.fits && server.parserReturns entry.fd answers.received &&
        server.startsFresh answers.started
  | .writeClient =>
      let client := server.clientAt entry.fd
      answers.written.fits (client.output.length - client.sent)
  | .closeOwner _ | .closeClient | .nothing => true

/-- The server with its listeners. -/
def start (listeners : List Listener) : Server where
  listeners := listeners
  pollfds := listeners.map fun listener => { fd := listener.fd, events := pollIn }
  calls := listeners.map fun listener => .opened listener.fd

end Server

/-! ## Runs -/

inductive Control where
  | polling
  /-- The index of the scan, and how many entries with events are left. -/
  | scanning (index ready : Nat)
  | expiring
deriving DecidableEq

structure EventLoop where
  server : Server
  control : Control := .polling

inductive LoopAction where
  /-- `poll` returns, with the events of each entry. -/
  | poll (revents : List PollFlags)
  /-- The next round of the scan. -/
  | visit (answers : Answers)
  | reap (disk : Disk) (now : Int) (waits : List (Int × WaitStatus))
  | expire (disk : Disk) (now : Int)

/-- Only events that were asked for are reported, and errors and hangups. -/
def PollFd.reports (entry : PollFd) (revents : PollFlags) : Bool :=
  (!revents.pollin || entry.events.pollin) && (!revents.pollout || entry.events.pollout)

namespace EventLoop

open Server

/-- The entry that the scan is at. -/
def current (loop : EventLoop) : Option PollFd :=
  match loop.control with
  | .scanning index ready => if ready = 0 then none else loop.server.pollfds[index]?
  | _ => none

def polled (server : Server) (revents : List PollFlags) : Server :=
  { server with pollfds := List.zipWith ({ · with revents := · }) server.pollfds revents }

def visit (loop : EventLoop) (index ready : Nat) (entry : PollFd) (answers : Answers) :
    EventLoop :=
  if entry.revents = {} then { loop with control := .scanning (index + 1) ready }
  else
    let after := loop.server.handle index entry answers
    { server := after
      control := .scanning (if loop.server.advances after index entry then index + 1 else index)
        (ready - 1) }

def perform (loop : EventLoop) : LoopAction → EventLoop
  | .poll revents =>
      { server := polled loop.server revents
        control := .scanning 0 (revents.countP (· != {})) }
  | .visit answers =>
      match loop.control, loop.current with
      | .scanning index ready, some entry => loop.visit index ready entry answers
      | _, _ => loop
  | .reap disk now waits =>
      { server := loop.server.reapCgi disk now waits, control := .expiring }
  | .expire disk now => { server := loop.server.expireClients disk now }

def enabled (loop : EventLoop) : LoopAction → Bool
  | .poll revents =>
      loop.control == .polling && revents.length == loop.server.pollfds.length &&
        (loop.server.pollfds.zip revents).all fun (entry, flags) => entry.reports flags
  | .visit answers =>
      loop.current.any fun entry =>
        entry.revents == {} || loop.server.permits entry answers
  | .reap _ _ _ =>
      match loop.control with
      | .scanning _ _ => loop.current.isNone
      | _ => false
  | .expire _ _ => loop.control == .expiring

end EventLoop

/-- The loop of `Server::run`. A run ends where the parser throws or does not come back. -/
def loopMachine : Machine EventLoop LoopAction where
  initial loop := ∃ listeners : List Listener, (listeners.map (·.fd)).Nodup ∧
    (∀ listener ∈ listeners, 0 ≤ listener.fd) ∧ loop = { server := .start listeners }
  enabled := EventLoop.enabled
  perform := EventLoop.perform

end IrcPlatform.Webserv
