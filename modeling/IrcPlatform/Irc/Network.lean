import IrcPlatform.Irc.Dispatch

/-!
# Network layer

The event loop of `ServerNetwork.cpp` with its system calls as inputs: what
`poll`, `accept`, `recv` and `send` return is chosen by the environment. A
`recv` or `send` that returns zero or a negative value is `none`.

An error on the listening socket ends the process by an exception, so runs only
contain listen events without error flags.
-/

namespace IrcPlatform.Irc

structure Revents where
  pollIn : Bool := false
  pollOut : Bool := false
  pollErr : Bool := false
  pollHup : Bool := false
  pollNval : Bool := false
deriving DecidableEq

def Revents.isZero (revents : Revents) : Bool :=
  !(revents.pollIn || revents.pollOut || revents.pollErr || revents.pollHup || revents.pollNval)

/-- What `poll` reports for one entry, with the results of the calls its handler makes. -/
structure PollResult where
  fd : Int
  revents : Revents
  /-- Descriptor and address returned by `accept`. -/
  accepted : Option (Int × Bytes) := none
  received : Option Bytes := none
  sent : Option Nat := none

namespace Server

def recvChunkSize : Nat := 4096
def maxReceiveBuffer : Nat := 65536

def acceptClient (server : Server) (accepted : Option (Int × Bytes)) : Server :=
  match accepted with
  | none => server
  | some (clientFd, peerAddress) =>
      let added := server.addClient clientFd peerAddress
      if !added.1 then added.2
      else (added.2.record (.accepted clientFd)).addClientPollFd clientFd

def handleListenEvent (server : Server) (revents : Revents) (accepted : Option (Int × Bytes)) :
    Server :=
  if revents.pollIn then server.acceptClient accepted else server

/-- The call of `dispatchCommand`, entered in the history. -/
def invokeDispatch (server : Server) (fd : Int) (message : Message) : Server :=
  (server.record (.dispatched fd (server.pendingDisconnects.contains fd))).dispatchCommand
    fd message

/-- A line that does not parse is dropped without a reply. -/
def processLine (server : Server) (fd : Int) (line : Bytes) : Server :=
  match Parser.parse line with
  | none => server
  | some message => server.invokeDispatch fd message

/-- The line loop of `receiveFromClient`. Every round shortens the receive buffer, so
the length of the buffer plus one bounds the number of rounds. -/
def receiveLoop (fd : Int) : Nat → Server → Server
  | 0, server => server
  | fuel + 1, server =>
      match server.findClientByFd fd with
      | none => server
      | some client =>
          match BufferUtil.findLine client.receiveBuffer with
          | .incomplete => server
          | .extracted line consumed =>
              let processed :=
                (server.updateClient fd (·.eraseReceivePrefix consumed)).processLine fd line
              if processed.pendingDisconnects.contains fd then processed
              else receiveLoop fd fuel processed
          | .tooLong consumed =>
              ((server.updateClient fd (·.eraseReceivePrefix consumed)).queueToClient fd
                (ascii "ERROR :Input line too long")).scheduleDisconnect fd

def receiveFromClient (server : Server) (fd : Int) (received : Option Bytes) : Server :=
  match server.findClientByFd fd with
  | none => server
  | some client =>
      match received with
      | none => server.scheduleDisconnect fd
      | some data =>
          let length := client.receiveBuffer.length + data.length
          let appended := server.updateClient fd (·.appendReceiveBuffer data)
          if maxReceiveBuffer < length then
            (appended.queueToClient fd
              (ascii "ERROR :Receive buffer limit exceeded")).scheduleDisconnect fd
          else receiveLoop fd (length + 1) appended

def flushSendBuffer (server : Server) (fd : Int) (sent : Option Nat) : Server :=
  match server.findClientByFd fd with
  | none => server
  | some client =>
      if client.sendBuffer.isEmpty then server.updatePollEvents fd
      else
        match sent with
        | none => server.scheduleDisconnect fd
        | some count =>
            ((server.record (.sent fd (client.sendBuffer.take count))).updateClient fd
              (·.eraseSendPrefix count)).updatePollEvents fd

def handleClientEvent (server : Server) (event : PollResult) : Server :=
  let fd := event.fd
  match server.findClientByFd fd with
  | none => server
  | some _ =>
      if event.revents.pollNval then server.scheduleDisconnect fd
      else
        let received :=
          if event.revents.pollIn then server.receiveFromClient fd event.received else server
        if event.revents.pollIn && received.pendingDisconnects.contains fd then received
        else
          let flushed :=
            if event.revents.pollOut then received.flushSendBuffer fd event.sent else received
          if event.revents.pollOut && flushed.pendingDisconnects.contains fd then flushed
          else if event.revents.pollErr || event.revents.pollHup then flushed.scheduleDisconnect fd
          else flushed

/-- The body of the scan over the poll entries. -/
def handleEvent (server : Server) (event : PollResult) : Server :=
  if event.revents.isZero then server
  else if event.fd = server.listenFd then server.handleListenEvent event.revents event.accepted
  else server.handleClientEvent event

/-- The scan of one round of the event loop. -/
def scan : List PollResult → Server → Server
  | [], server => server
  | event :: events, server => scan events (server.handleEvent event)

/-- One round of the event loop after `poll` returned. -/
def eventLoopRound (server : Server) (events : List PollResult) : Server :=
  (scan events server).processPendingDisconnects

end Server

end IrcPlatform.Irc
