import IrcPlatform.Irc.Client
import IrcPlatform.Irc.IrcUtil

/-!
# Reply lines

Numeric replies and relayed commands, without their line terminator. A prefix,
command or target that is not a safe token makes the whole reply empty.
-/

namespace IrcPlatform.Irc

namespace Numeric

def rplWelcome : Nat := 1
def rplYourHost : Nat := 2
def rplCreated : Nat := 3
def rplMyInfo : Nat := 4
def rplChannelModeIs : Nat := 324
def rplNoTopic : Nat := 331
def rplTopic : Nat := 332
def rplInviting : Nat := 341
def rplNamReply : Nat := 353
def rplEndOfNames : Nat := 366
def errNoSuchNick : Nat := 401
def errNoSuchChannel : Nat := 403
def errCannotSendToChan : Nat := 404
def errNoOrigin : Nat := 409
def errNoRecipient : Nat := 411
def errNoTextToSend : Nat := 412
def errUnknownCommand : Nat := 421
def errNoMotd : Nat := 422
def errNoNicknameGiven : Nat := 431
def errErroneusNickname : Nat := 432
def errNicknameInUse : Nat := 433
def errUserNotInChannel : Nat := 441
def errNotOnChannel : Nat := 442
def errUserOnChannel : Nat := 443
def errNotRegistered : Nat := 451
def errNeedMoreParams : Nat := 461
def errAlreadyRegistred : Nat := 462
def errPasswdMismatch : Nat := 464
def errChannelIsFull : Nat := 471
def errUnknownMode : Nat := 472
def errInviteOnlyChan : Nat := 473
def errBadChannelKey : Nat := 475
def errChanOPrivsNeeded : Nat := 482

end Numeric

namespace Reply

def clientPrefix (client : Client) : Bytes :=
  let nickname := if client.nickname.isEmpty then ascii "*" else client.nickname
  let username := if client.username.isEmpty then ascii "unknown" else client.username
  let hostname := if client.hostname.isEmpty then ascii "0.0.0.0" else client.hostname
  nickname ++ ascii "!" ++ username ++ ascii "@" ++ hostname

def serverPrefix (serverName : Bytes) : Bytes := serverName

/-- A reply code on three digits, as `std::setw(3)` with fill `'0'` prints it. -/
def threeDigits (code : Nat) : Bytes :=
  List.replicate (3 - (decimal code).length) (byte '0') ++ decimal code

def numeric (serverName : Bytes) (target : Client) (code : Nat) (parameters : Bytes) : Bytes :=
  if 999 < code then []
  else if !IrcUtil.isSafeToken serverName then []
  else
    let targetName := if target.nickname.isEmpty then ascii "*" else target.nickname
    if !IrcUtil.isSafeToken targetName then []
    else
      let safeParameters := IrcUtil.sanitizeMessageText parameters
      ascii ":" ++ serverName ++ ascii " " ++ threeDigits code ++ ascii " " ++ targetName ++
        (if safeParameters.isEmpty then [] else ascii " " ++ safeParameters)

def command (linePrefix command parameters : Bytes) : Bytes :=
  if !IrcUtil.isSafeToken command then []
  else if !linePrefix.isEmpty && !IrcUtil.isSafeToken linePrefix then []
  else
    let safeParameters := IrcUtil.sanitizeMessageText parameters
    (if linePrefix.isEmpty then [] else ascii ":" ++ linePrefix ++ ascii " ") ++ command ++
      (if safeParameters.isEmpty then [] else ascii " " ++ safeParameters)

end Reply

end IrcPlatform.Irc
