import IrcPlatform.Irc.Server

/-!
# PRIVMSG

The targets of the list are served independently. A channel message goes to all
members but the sender, a direct one to the client of that nickname.
-/

namespace IrcPlatform.Irc.Server

def privmsgTarget (server : Server) (fd : Int) (text target : Bytes) : Server :=
  match server.findClientByFd fd with
  | none => server
  | some client =>
      if target.head? = some (byte '#') then
        match server.findChannel target with
        | none => server.sendNoSuchChannel fd client target
        | some channel =>
            if !channel.hasMember fd then
              server.queueToClient fd (Reply.numeric server.serverName client
                Numeric.errCannotSendToChan (channel.name ++ ascii " :Cannot send to channel"))
            else
              server.broadcastToChannel channel
                (Reply.command (Reply.clientPrefix client) (ascii "PRIVMSG")
                  (channel.name ++ ascii " :" ++ text)) fd
      else
        match server.findClientByNickname target with
        | none =>
            server.queueToClient fd (Reply.numeric server.serverName client
              Numeric.errNoSuchNick (target ++ ascii " :No such nick/channel"))
        | some targetClient =>
            server.queueToClient targetClient.fd
              (Reply.command (Reply.clientPrefix client) (ascii "PRIVMSG")
                (targetClient.nickname ++ ascii " :" ++ text))

def privmsgTargets (fd : Int) (text : Bytes) : List Bytes → Server → Server
  | [], server => server
  | target :: targets, server =>
      privmsgTargets fd text targets (server.privmsgTarget fd text target)

def handlePrivmsg (server : Server) (fd : Int) (message : Message) : Server :=
  match server.findClientByFd fd with
  | none => server
  | some client =>
      match message.params with
      | [] =>
          server.queueToClient fd (Reply.numeric server.serverName client
            Numeric.errNoRecipient (ascii ":No recipient given (PRIVMSG)"))
      | targets :: arguments =>
          let text := arguments.headD []
          if text.isEmpty then
            server.queueToClient fd (Reply.numeric server.serverName client
              Numeric.errNoTextToSend (ascii ":No text to send"))
          else privmsgTargets fd text (IrcUtil.splitCommaList targets) server

end IrcPlatform.Irc.Server
