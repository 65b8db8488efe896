import IrcPlatform.Irc.Server

/-!
# MODE

The mode string is read from left to right; each accepted change is applied at
once and collected for the one notice sent at the end.
-/

namespace IrcPlatform.Irc

def isValidChannelKey (key : Bytes) : Bool :=
  !key.isEmpty && key.length ≤ 23 &&
    key.all fun c => !(c == byte ' ' || c == 0 || c == 13 || c == 10 || c == 9)

def modeMaxUserLimit : Nat := 100000

/-- The variables of the loop over the mode string. -/
structure ModeLoop where
  server : Server
  adding : Bool := true
  signSeen : Bool := false
  /-- The mode parameters not consumed yet. -/
  arguments : List Bytes
  changedModes : Bytes := []
  changedParams : List Bytes := []
  /-- Zero until the first accepted change. -/
  lastSign : UInt8 := 0

namespace ModeLoop

def appendChangedMode (loop : ModeLoop) (mode : UInt8) : ModeLoop :=
  let sign := if loop.adding then byte '+' else byte '-'
  { loop with
    changedModes :=
      loop.changedModes ++ (if loop.lastSign != sign then [sign] else []) ++ [mode]
    lastSign := sign }

def pushParam (loop : ModeLoop) (param : Bytes) : ModeLoop :=
  { loop with changedParams := loop.changedParams ++ [param] }

def reply (loop : ModeLoop) (fd : Int) (client : Client) (code : Nat) (parameters : Bytes) :
    ModeLoop :=
  { loop with
    server := loop.server.queueToClient fd
      (Reply.numeric loop.server.serverName client code parameters) }

def needMoreParams (loop : ModeLoop) (fd : Int) (client : Client) (command : Bytes) : ModeLoop :=
  loop.reply fd client Numeric.errNeedMoreParams (command ++ ascii " :Not enough parameters")

def unknownMode (loop : ModeLoop) (fd : Int) (client : Client) (channel : Channel) (c : UInt8) :
    ModeLoop :=
  loop.reply fd client Numeric.errUnknownMode
    ([c] ++ ascii " :is unknown mode char to me for " ++ channel.name)

def change (loop : ModeLoop) (target : Bytes) (update : Channel → Channel) : ModeLoop :=
  { loop with server := loop.server.updateChannel target update }

def modeInviteOnly (loop : ModeLoop) (target : Bytes) (channel : Channel) : ModeLoop :=
  if channel.inviteOnly != loop.adding then
    (loop.change target (·.setInviteOnly loop.adding)).appendChangedMode (byte 'i')
  else loop

def modeTopicRestricted (loop : ModeLoop) (target : Bytes) (channel : Channel) : ModeLoop :=
  if channel.topicRestricted != loop.adding then
    (loop.change target (·.setTopicRestricted loop.adding)).appendChangedMode (byte 't')
  else loop

/-- A key that is refused does not consume its parameter. -/
def modeKey (loop : ModeLoop) (fd : Int) (client : Client) (command target : Bytes)
    (channel : Channel) : ModeLoop :=
  if loop.adding then
    match loop.arguments with
    | [] => loop.needMoreParams fd client command
    | key :: arguments =>
        if !isValidChannelKey key then loop.needMoreParams fd client command
        else
          { ((loop.change target (·.setChannelKey key)).appendChangedMode (byte 'k')).pushParam key
            with arguments := arguments }
  else if channel.hasKey then
    (loop.change target (·.clearChannelKey)).appendChangedMode (byte 'k')
  else loop

/-- The parameter is consumed also when the nickname is refused. -/
def modeOperator (loop : ModeLoop) (fd : Int) (client : Client) (command target : Bytes)
    (channel : Channel) : ModeLoop :=
  match loop.arguments with
  | [] => loop.needMoreParams fd client command
  | nickArg :: arguments =>
      let loop := { loop with arguments := arguments }
      match loop.server.findClientByNickname nickArg with
      | none =>
          loop.reply fd client Numeric.errNoSuchNick (nickArg ++ ascii " :No such nick/channel")
      | some targetClient =>
          if !channel.hasMember targetClient.fd then
            loop.reply fd client Numeric.errUserNotInChannel
              (nickArg ++ ascii " " ++ channel.name ++ ascii " :They aren't on that channel")
          else
            let update := fun channel : Channel =>
              if loop.adding then channel.addOperator targetClient.fd
              else channel.removeOperator targetClient.fd
            let changed := loop.change target fun channel => (update channel).2
            if (update channel).1 then
              (changed.appendChangedMode (byte 'o')).pushParam targetClient.nickname
            else changed

/-- A limit that is refused is ignored silently but consumed. -/
def modeLimit (loop : ModeLoop) (fd : Int) (client : Client) (command target : Bytes)
    (channel : Channel) : ModeLoop :=
  if loop.adding then
    match loop.arguments with
    | [] => loop.needMoreParams fd client command
    | arg :: arguments =>
        let loop := { loop with arguments := arguments }
        match IrcUtil.parsePositiveSize arg with
        | none => loop
        | some limit =>
            if modeMaxUserLimit < limit then loop
            else
              ((loop.change target (·.setUserLimit limit)).appendChangedMode
                (byte 'l')).pushParam arg
  else if channel.hasUserLimit then
    (loop.change target (·.clearUserLimit)).appendChangedMode (byte 'l')
  else loop

/-- One character of the mode string. -/
def step (fd : Int) (client : Client) (command target : Bytes) (loop : ModeLoop) (c : UInt8) :
    ModeLoop :=
  match loop.server.findChannel target with
  | none => loop
  | some channel =>
      if c = byte '+' then { loop with adding := true, signSeen := true }
      else if c = byte '-' then { loop with adding := false, signSeen := true }
      else if !loop.signSeen then loop.unknownMode fd client channel c
      else if c = byte 'i' then loop.modeInviteOnly target channel
      else if c = byte 't' then loop.modeTopicRestricted target channel
      else if c = byte 'k' then loop.modeKey fd client command target channel
      else if c = byte 'o' then loop.modeOperator fd client command target channel
      else if c = byte 'l' then loop.modeLimit fd client command target channel
      else loop.unknownMode fd client channel c

end ModeLoop

namespace Server

/-- Components of a reply separated by single spaces. -/
def joinWithSpaces (head : Bytes) (params : List Bytes) : Bytes :=
  params.foldl (fun text param => text ++ ascii " " ++ param) head

def sendModeQuery (server : Server) (fd : Int) (client : Client) (channel : Channel) : Server :=
  server.queueToClient fd (Reply.numeric server.serverName client Numeric.rplChannelModeIs
    (joinWithSpaces (channel.name ++ ascii " " ++ channel.buildModeString)
      channel.buildModeParameters))

/-- The notice that collects the accepted changes. -/
def sendModeNotice (loop : ModeLoop) (client : Client) (target : Bytes) : Server :=
  if loop.changedModes.isEmpty then loop.server
  else
    match loop.server.findChannel target with
    | none => loop.server
    | some channel =>
        loop.server.broadcastToChannel channel
          (Reply.command (Reply.clientPrefix client) (ascii "MODE")
            (channel.name ++ ascii " " ++ joinWithSpaces loop.changedModes loop.changedParams))
          (-1)

def handleMode (server : Server) (fd : Int) (message : Message) : Server :=
  match server.findClientByFd fd with
  | none => server
  | some client =>
      match message.params with
      | [] => (server.requireParams fd message 1).2
      | target :: arguments =>
          if target.head? != some (byte '#') then
            server.queueToClient fd (Reply.numeric server.serverName client
              Numeric.errUnknownCommand (target ++ ascii " :Unknown command"))
          else
            match server.findChannel target with
            | none => server.sendNoSuchChannel fd client target
            | some channel =>
                match arguments with
                | [] => server.sendModeQuery fd client channel
                | modeString :: modeArguments =>
                    let member := server.requireChannelMember fd channel
                    if !member.1 then member.2
                    else
                      let operator := member.2.requireChannelOperator fd channel
                      if !operator.1 then operator.2
                      else
                        let loop := modeString.foldl
                          (ModeLoop.step fd client message.command target)
                          { server := operator.2, arguments := modeArguments }
                        sendModeNotice loop client target

end Server

end IrcPlatform.Irc
