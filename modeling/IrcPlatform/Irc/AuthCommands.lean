import IrcPlatform.Irc.Server

/-!
# Registration commands

PASS, NICK and USER may come in any order; whichever of them completes the set
sends the welcome sequence. CAP, PING and PONG change no state.
-/

namespace IrcPlatform.Irc.Server

open Std

/-- The replies 001, 002, 003, 004 and 422. -/
def sendWelcomeSequence (server : Server) (client : Client) : Server :=
  let fd := client.fd
  let numeric := Reply.numeric server.serverName client
  ((((server.queueToClient fd (numeric Numeric.rplWelcome
        (ascii ":Welcome to the Internet Relay Network " ++
          Reply.clientPrefix client))).queueToClient
      fd (numeric Numeric.rplYourHost
        (ascii ":Your host is " ++ server.serverName ++
          ascii ", running version 1.0"))).queueToClient
      fd (numeric Numeric.rplCreated
        (ascii ":This server was created " ++ server.serverStartTime))).queueToClient
      fd (numeric Numeric.rplMyInfo (server.serverName ++ ascii " 1.0 - itkol"))).queueToClient
      fd (numeric Numeric.errNoMotd (ascii ":MOTD File is missing"))

def tryRegisterClient (server : Server) (fd : Int) : Server :=
  match server.findClientByFd fd with
  | none => server
  | some client =>
      let completed := client.tryCompleteRegistration
      let server := server.updateClient fd fun _ => completed.2
      if completed.1 then server.sendWelcomeSequence completed.2 else server

def handlePass (server : Server) (fd : Int) (message : Message) : Server :=
  match server.findClientByFd fd with
  | none => server
  | some client =>
      match message.params with
      | [] => (server.requireParams fd message 1).2
      | password :: _ =>
          if password != server.password then
            server.queueToClient fd (Reply.numeric server.serverName client
              Numeric.errPasswdMismatch (ascii ":Password incorrect"))
          else (server.updateClient fd (·.acceptPassword)).tryRegisterClient fd

/-- The state change of an accepted NICK. -/
def renameClient (server : Server) (fd : Int) (client : Client) (nickname : Bytes) : Server :=
  let unregistered :=
    if client.nickname.isEmpty then server else server.unregisterNickname client.nickname
  (unregistered.registerNickname fd nickname).updateClient fd (·.setNickname nickname)

def handleNick (server : Server) (fd : Int) (message : Message) : Server :=
  match server.findClientByFd fd with
  | none => server
  | some client =>
      match message.params with
      | [] =>
          server.queueToClient fd (Reply.numeric server.serverName client
            Numeric.errNoNicknameGiven (ascii ":No nickname given"))
      | nickname :: _ =>
          if !IrcUtil.isValidNickname nickname then
            server.queueToClient fd (Reply.numeric server.serverName client
              Numeric.errErroneusNickname (nickname ++ ascii " :Erroneous nickname"))
          else if !server.isNicknameAvailable nickname fd then
            server.queueToClient fd (Reply.numeric server.serverName client
              Numeric.errNicknameInUse (nickname ++ ascii " :Nickname is already in use"))
          else
            let renamed := server.renameClient fd client nickname
            if client.registered then
              -- The notice carries the prefix of the old nickname.
              let notice := Reply.command (Reply.clientPrefix client) (ascii "NICK")
                (ascii ":" ++ nickname)
              (renamed.queueToClient fd notice).broadcastToSharedChannels
                (client.setNickname nickname) notice
            else renamed.tryRegisterClient fd

/-- A username the USER command refuses. -/
def badUsername (username : Bytes) : Bool :=
  username.isEmpty ||
    username.any fun c => c == byte ' ' || c == byte '@' || c == 13 || c == 10 || c == 0

def handleUser (server : Server) (fd : Int) (message : Message) : Server :=
  match server.findClientByFd fd with
  | none => server
  | some client =>
      if client.userReceived then
        server.queueToClient fd (Reply.numeric server.serverName client
          Numeric.errAlreadyRegistred (ascii ":Unauthorized command (already registered)"))
      else
        match message.params with
        | username :: _ :: _ :: realname :: _ =>
            if badUsername username then
              server.queueToClient fd (Reply.numeric server.serverName client
                Numeric.errNeedMoreParams (message.command ++ ascii " :Not enough parameters"))
            else (server.updateClient fd (·.setUser username realname)).tryRegisterClient fd
        | _ => (server.requireParams fd message 4).2

def handleCap (server : Server) (fd : Int) (message : Message) : Server :=
  match server.findClientByFd fd, message.params with
  | some _, subcommand :: arguments =>
      let subcommand := IrcUtil.toUpperAscii subcommand
      if subcommand == ascii "LS" then
        server.queueToClient fd
          (Reply.command (Reply.serverPrefix server.serverName) (ascii "CAP") (ascii "* LS :"))
      else if subcommand == ascii "REQ" then
        server.queueToClient fd
          (Reply.command (Reply.serverPrefix server.serverName) (ascii "CAP")
            (ascii "* NAK :" ++ arguments.headD []))
      else server
  | _, _ => server

def handlePing (server : Server) (fd : Int) (message : Message) : Server :=
  match server.findClientByFd fd with
  | none => server
  | some client =>
      let token := message.params.headD []
      if token.isEmpty then
        server.queueToClient fd (Reply.numeric server.serverName client Numeric.errNoOrigin
          (ascii ":No origin specified"))
      else
        server.queueToClient fd
          (Reply.command (Reply.serverPrefix server.serverName) (ascii "PONG")
            (server.serverName ++ ascii " :" ++ token))

def handlePong (server : Server) (_fd : Int) (_message : Message) : Server := server

end IrcPlatform.Irc.Server
