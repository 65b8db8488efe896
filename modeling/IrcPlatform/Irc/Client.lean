import IrcPlatform.Library.Bytes

/-!
# IRC clients

One connection: its descriptor, its registration data, its two buffers and the
normalised names of the channels it has joined. The return values of the small
setters that no caller reads are left out.
-/

namespace IrcPlatform.Irc

open Std

structure Client where
  fd : Int
  nickname : Bytes := []
  username : Bytes := []
  realname : Bytes := []
  hostname : Bytes
  receiveBuffer : Bytes := []
  sendBuffer : Bytes := []
  passwordAccepted : Bool := false
  userReceived : Bool := false
  registered : Bool := false
  joinedChannels : ExtTreeSet Bytes := ∅

namespace Client

def setNickname (client : Client) (nickname : Bytes) : Client :=
  { client with nickname := nickname }

def setUser (client : Client) (username realname : Bytes) : Client :=
  { client with username := username, realname := realname, userReceived := true }

def hasNickname (client : Client) : Bool := !client.nickname.isEmpty

def acceptPassword (client : Client) : Client := { client with passwordAccepted := true }

/-- The flag is true when this very call completed the registration. -/
def tryCompleteRegistration (client : Client) : Bool × Client :=
  if client.registered then (false, client)
  else if client.passwordAccepted && client.hasNickname && client.userReceived then
    (true, { client with registered := true })
  else (false, client)

def appendReceiveBuffer (client : Client) (data : Bytes) : Client :=
  { client with receiveBuffer := client.receiveBuffer ++ data }

def eraseReceivePrefix (client : Client) (length : Nat) : Client :=
  { client with receiveBuffer := client.receiveBuffer.drop length }

def hasPendingOutput (client : Client) : Bool := !client.sendBuffer.isEmpty

def appendSendBuffer (client : Client) (data : Bytes) : Client :=
  { client with sendBuffer := client.sendBuffer ++ data }

def eraseSendPrefix (client : Client) (length : Nat) : Client :=
  { client with sendBuffer := client.sendBuffer.drop length }

def hasJoinedChannel (client : Client) (channelKey : Bytes) : Bool :=
  client.joinedChannels.contains channelKey

def addJoinedChannel (client : Client) (channelKey : Bytes) : Client :=
  { client with joinedChannels := client.joinedChannels.insert channelKey }

def removeJoinedChannel (client : Client) (channelKey : Bytes) : Client :=
  { client with joinedChannels := client.joinedChannels.erase channelKey }

@[simp, grind =] theorem addJoinedChannel_fd (client : Client) (key : Bytes) :
    (client.addJoinedChannel key).fd = client.fd := rfl

@[simp, grind =] theorem addJoinedChannel_nickname (client : Client) (key : Bytes) :
    (client.addJoinedChannel key).nickname = client.nickname := rfl

@[simp, grind =] theorem addJoinedChannel_registered (client : Client) (key : Bytes) :
    (client.addJoinedChannel key).registered = client.registered := rfl

@[simp, grind =] theorem addJoinedChannel_joinedChannels (client : Client) (key : Bytes) :
    (client.addJoinedChannel key).joinedChannels = client.joinedChannels.insert key := rfl

@[simp, grind =] theorem removeJoinedChannel_fd (client : Client) (key : Bytes) :
    (client.removeJoinedChannel key).fd = client.fd := rfl

@[simp, grind =] theorem removeJoinedChannel_nickname (client : Client) (key : Bytes) :
    (client.removeJoinedChannel key).nickname = client.nickname := rfl

@[simp, grind =] theorem removeJoinedChannel_registered (client : Client) (key : Bytes) :
    (client.removeJoinedChannel key).registered = client.registered := rfl

@[simp, grind =] theorem removeJoinedChannel_joinedChannels (client : Client) (key : Bytes) :
    (client.removeJoinedChannel key).joinedChannels = client.joinedChannels.erase key := rfl

end Client

end IrcPlatform.Irc
