import IrcPlatform.Irc.AuthCommands
import IrcPlatform.Irc.ChannelCommands
import IrcPlatform.Irc.MessageCommands
import IrcPlatform.Irc.Mode

/-!
# Command dispatcher

The table of the fourteen commands and the registration checks made before a
handler runs. An unknown command of an unregistered client is ignored.
-/

namespace IrcPlatform.Irc.Server

structure CommandEntry where
  name : Bytes
  handler : Server → Int → Message → Server
  requiresRegistration : Bool
  rejectsWhenRegistered : Bool

def commandTable : List CommandEntry :=
  [ ⟨ascii "PASS", handlePass, false, true⟩,
    ⟨ascii "NICK", handleNick, false, false⟩,
    ⟨ascii "USER", handleUser, false, true⟩,
    ⟨ascii "CAP", handleCap, false, false⟩,
    ⟨ascii "PING", handlePing, false, false⟩,
    ⟨ascii "PONG", handlePong, false, false⟩,
    ⟨ascii "QUIT", handleQuit, false, false⟩,
    ⟨ascii "JOIN", handleJoin, true, false⟩,
    ⟨ascii "PRIVMSG", handlePrivmsg, true, false⟩,
    ⟨ascii "KICK", handleKick, true, false⟩,
    ⟨ascii "INVITE", handleInvite, true, false⟩,
    ⟨ascii "TOPIC", handleTopic, true, false⟩,
    ⟨ascii "MODE", handleMode, true, false⟩,
    ⟨ascii "PART", handlePart, true, false⟩ ]

def dispatchCommand (server : Server) (fd : Int) (message : Message) : Server :=
  match server.findClientByFd fd with
  | none => server
  | some client =>
      match commandTable.find? (·.name == message.command) with
      | none =>
          if client.registered then
            server.queueToClient fd (Reply.numeric server.serverName client
              Numeric.errUnknownCommand (message.command ++ ascii " :Unknown command"))
          else server
      | some entry =>
          if !client.registered && entry.requiresRegistration then
            server.queueToClient fd (Reply.numeric server.serverName client
              Numeric.errNotRegistered (ascii ":You have not registered"))
          else if client.registered && entry.rejectsWhenRegistered then
            server.queueToClient fd (Reply.numeric server.serverName client
              Numeric.errAlreadyRegistred (ascii ":Unauthorized command (already registered)"))
          else entry.handler server fd message

end IrcPlatform.Irc.Server
