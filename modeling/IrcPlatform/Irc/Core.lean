import Mathlib.Logic.Function.Basic
import IrcPlatform.Irc.Network

/-!
# The relational core of the server state

Most of a handler's work is queueing replies. The relational core forgets what
replies touch (buffers, poll entries, reservations, history) and keeps clients,
channels and the nickname index as partial functions. Queueing leaves the core
unchanged, so the effect of a command can be computed on the core alone.
-/

namespace IrcPlatform.Irc

open Std

/-- A client record with both buffers emptied. -/
def Client.withoutBuffers (client : Client) : Client :=
  { client with receiveBuffer := [], sendBuffer := [] }

@[ext]
structure Core where
  clients : Int → Option Client
  channels : Bytes → Option Channel
  nicks : Bytes → Option Int

namespace Core

def setClient (core : Core) (fd : Int) (client : Client) : Core :=
  { core with clients := Function.update core.clients fd (some client) }

def setChannel (core : Core) (key : Bytes) (channel : Channel) : Core :=
  { core with channels := Function.update core.channels key (some channel) }

def dropChannel (core : Core) (key : Bytes) : Core :=
  { core with channels := Function.update core.channels key none }

/-- Both sides of the membership relation after `fd` entered an existing channel. -/
def admitMember (core : Core) (fd : Int) (key : Bytes)
    (client : Client) (channel : Channel) : Core :=
  (core.setClient fd (client.addJoinedChannel key)).setChannel key
    ((channel.addMember fd).removeInvite fd)

/-- A new channel whose only member and operator is `fd`. -/
def create (core : Core) (fd : Int) (key : Bytes) (client : Client) (name : Bytes) : Core :=
  (core.setClient fd (client.addJoinedChannel key)).setChannel key
    { name := name
      keyName := key
      members := (∅ : ExtTreeSet Int).insert fd
      operators := (∅ : ExtTreeSet Int).insert fd }

/-- Both sides of the membership relation after `fd` left; an empty channel is gone. -/
def leave (core : Core) (fd : Int) (key : Bytes) (client : Client) (channel : Channel) : Core :=
  let left := (channel.removeMember fd).removeInvite fd
  if left.isEmpty then (core.setClient fd (client.removeJoinedChannel key)).dropChannel key
  else (core.setClient fd (client.removeJoinedChannel key)).setChannel key left

/-- A client without channels is gone from the client map and all invite sets. -/
def remove (core : Core) (fd : Int) : Core :=
  { core with
    clients := Function.update core.clients fd none
    channels := fun key => (core.channels key).map (·.removeInvite fd) }

/-- The entry of a nickname is gone from the index; an empty nickname has none. -/
def unname (core : Core) (nickname : Bytes) : Core :=
  { core with
    nicks := fun nick =>
      if nickname ≠ [] ∧ nick = IrcUtil.ircCaseFold nickname then none else core.nicks nick }

/-- The index and the record of `fd` after a change from `old` to `nickname`. -/
def rename (core : Core) (fd : Int) (old nickname : Bytes) (client : Client) : Core :=
  { core.setClient fd client with
    nicks := fun nick =>
      if nick = IrcUtil.ircCaseFold nickname then some fd else (core.unname old).nicks nick }

@[simp, grind =] theorem setClient_clients (core : Core) (fd other : Int) (client : Client) :
    (core.setClient fd client).clients other =
      if other = fd then some client else core.clients other := by
  simp [setClient, Function.update_apply]

@[simp, grind =] theorem setClient_channels (core : Core) (fd : Int) (client : Client) :
    (core.setClient fd client).channels = core.channels := rfl

@[simp, grind =] theorem setClient_nicks (core : Core) (fd : Int) (client : Client) :
    (core.setClient fd client).nicks = core.nicks := rfl

@[simp, grind =] theorem setChannel_clients (core : Core) (key : Bytes) (channel : Channel) :
    (core.setChannel key channel).clients = core.clients := rfl

@[simp, grind =] theorem setChannel_channels (core : Core) (key other : Bytes)
    (channel : Channel) :
    (core.setChannel key channel).channels other =
      if other = key then some channel else core.channels other := by
  simp [setChannel, Function.update_apply]

@[simp, grind =] theorem setChannel_nicks (core : Core) (key : Bytes) (channel : Channel) :
    (core.setChannel key channel).nicks = core.nicks := rfl

@[simp, grind =] theorem dropChannel_clients (core : Core) (key : Bytes) :
    (core.dropChannel key).clients = core.clients := rfl

@[simp, grind =] theorem dropChannel_channels (core : Core) (key other : Bytes) :
    (core.dropChannel key).channels other =
      if other = key then none else core.channels other := by
  simp [dropChannel, Function.update_apply]

@[simp, grind =] theorem dropChannel_nicks (core : Core) (key : Bytes) :
    (core.dropChannel key).nicks = core.nicks := rfl

@[simp, grind =] theorem admitMember_clients (core : Core) (fd other : Int) (key : Bytes)
    (client : Client) (channel : Channel) :
    (core.admitMember fd key client channel).clients other =
      if other = fd then some (client.addJoinedChannel key) else core.clients other := by
  simp [admitMember]

@[simp, grind =] theorem admitMember_channels (core : Core) (fd : Int) (key other : Bytes)
    (client : Client) (channel : Channel) :
    (core.admitMember fd key client channel).channels other =
      if other = key then some ((channel.addMember fd).removeInvite fd)
      else core.channels other := by
  simp [admitMember]

@[simp, grind =] theorem create_clients (core : Core) (fd other : Int) (key : Bytes)
    (client : Client) (name : Bytes) :
    (core.create fd key client name).clients other =
      if other = fd then some (client.addJoinedChannel key) else core.clients other := by
  simp [create]

@[simp, grind =] theorem create_channels (core : Core) (fd : Int) (key other : Bytes)
    (client : Client) (name : Bytes) :
    (core.create fd key client name).channels other =
      if other = key then
        some { name := name
               keyName := key
               members := (∅ : ExtTreeSet Int).insert fd
               operators := (∅ : ExtTreeSet Int).insert fd }
      else core.channels other := by
  simp [create]

@[simp, grind =] theorem leave_clients (core : Core) (fd other : Int) (key : Bytes)
    (client : Client) (channel : Channel) :
    (core.leave fd key client channel).clients other =
      if other = fd then some (client.removeJoinedChannel key) else core.clients other := by
  unfold leave
  simp only
  split <;> simp

@[simp, grind =] theorem leave_channels (core : Core) (fd : Int) (key other : Bytes)
    (client : Client) (channel : Channel) :
    (core.leave fd key client channel).channels other =
      if other = key then
        if ((channel.removeMember fd).removeInvite fd).isEmpty then none
        else some ((channel.removeMember fd).removeInvite fd)
      else core.channels other := by
  unfold leave
  simp only
  split <;> simp_all

@[simp, grind =] theorem remove_clients (core : Core) (fd other : Int) :
    (core.remove fd).clients other = if other = fd then none else core.clients other := by
  simp [remove, Function.update_apply]

@[simp, grind =] theorem remove_channels (core : Core) (fd : Int) (key : Bytes) :
    (core.remove fd).channels key = (core.channels key).map (·.removeInvite fd) := rfl

theorem setChannel_self {core : Core} {key : Bytes} {channel : Channel}
    (found : core.channels key = some channel) : core.setChannel key channel = core := by
  ext1 <;> simp [setChannel, ← found]

end Core

namespace Server

def core (server : Server) : Core where
  clients fd := (server.clients[fd]?).map Client.withoutBuffers
  channels key := server.channels[key]?
  nicks nick := server.nickToFd[nick]?

variable (server : Server) (fd : Int)

/-! ## Lookups -/

theorem core_clients_of_find {client : Client} (found : server.findClientByFd fd = some client) :
    server.core.clients fd = some client.withoutBuffers := by
  simp only [findClientByFd] at found
  simp [core, found]

theorem core_clients_of_find_none (missing : server.findClientByFd fd = none) :
    server.core.clients fd = none := by
  simp only [findClientByFd] at missing
  simp [core, missing]

theorem exists_find_of_core_clients {client : Client}
    (found : server.core.clients fd = some client) :
    ∃ stored, server.findClientByFd fd = some stored ∧ stored.withoutBuffers = client := by
  simpa [core, findClientByFd] using found

theorem core_channels_of_find (name : Bytes) :
    server.core.channels (IrcUtil.normalizeChannelName name) = server.findChannel name := rfl

/-! ## Operations that leave the core unchanged -/

@[simp] theorem core_record (event : HistoryEvent) : (server.record event).core = server.core := rfl

@[simp] theorem core_scheduleDisconnect : (server.scheduleDisconnect fd).core = server.core := rfl

@[simp] theorem core_updatePollEvents : (server.updatePollEvents fd).core = server.core := by
  unfold updatePollEvents
  split <;> rfl

@[simp] theorem core_addClientPollFd : (server.addClientPollFd fd).core = server.core := rfl

@[simp] theorem core_removeClientPollFd : (server.removeClientPollFd fd).core = server.core := rfl

/-- A change that does not touch the core of a client record. -/
theorem core_updateClient_of_buffers (change : Client → Client)
    (buffersOnly : ∀ client, (change client).withoutBuffers = client.withoutBuffers) :
    (server.updateClient fd change).core = server.core := by
  ext1
  · funext other
    simp only [core, updateClient, ExtTreeMap.getElem?_modify, LawfulEqOrd.compare_eq_iff_eq]
    split
    next same =>
      subst same
      cases server.clients[fd]? <;> simp [buffersOnly]
    next => rfl
  · rfl
  · rfl

@[simp] theorem core_queueToClient (message : Bytes) :
    (server.queueToClient fd message).core = server.core := by
  unfold queueToClient
  split
  · rfl
  · simp only
    split
    · simp
    · rw [core_updatePollEvents, core_updateClient_of_buffers, core_record]
      intro client
      rfl

@[simp] theorem core_queueToAll (message : Bytes) (targets : List Int) :
    (queueToAll message targets server).core = server.core := by
  induction targets generalizing server with
  | nil => rfl
  | cons target rest ih => simp [queueToAll, ih]

@[simp] theorem core_broadcastToSharedChannels (client : Client) (message : Bytes) :
    (server.broadcastToSharedChannels client message).core = server.core := by
  simp [broadcastToSharedChannels]

@[simp] theorem core_broadcastToChannel (channel : Channel) (message : Bytes) (excludeFd : Int) :
    (server.broadcastToChannel channel message excludeFd).core = server.core := by
  simp [broadcastToChannel]

@[simp] theorem core_sendNoSuchChannel (client : Client) (name : Bytes) :
    (server.sendNoSuchChannel fd client name).core = server.core := by
  simp [sendNoSuchChannel]

@[simp] theorem core_requireParams (message : Message) (count : Nat) :
    (server.requireParams fd message count).2.core = server.core := by
  unfold requireParams
  split
  · rfl
  · split <;> simp

@[simp] theorem core_requireChannelMember (channel : Channel) :
    (server.requireChannelMember fd channel).2.core = server.core := by
  unfold requireChannelMember
  split
  · rfl
  · split <;> simp

@[simp] theorem core_requireChannelOperator (channel : Channel) :
    (server.requireChannelOperator fd channel).2.core = server.core := by
  unfold requireChannelOperator
  split
  · rfl
  · split <;> simp

@[simp] theorem core_sendTopic (client : Client) (channel : Channel) :
    (server.sendTopic fd client channel).core = server.core := by
  unfold sendTopic
  split <;> simp

@[simp] theorem core_announceJoin (client : Client) (channel : Channel) :
    (server.announceJoin fd client channel).core = server.core := by
  simp [announceJoin]

@[simp] theorem core_sendWelcomeSequence (client : Client) :
    (server.sendWelcomeSequence client).core = server.core := by
  simp [sendWelcomeSequence]

@[simp] theorem core_sendModeQuery (client : Client) (channel : Channel) :
    (server.sendModeQuery fd client channel).core = server.core := by
  simp [sendModeQuery]

@[simp] theorem core_sendModeNotice (loop : ModeLoop) (client : Client) (target : Bytes) :
    (sendModeNotice loop client target).core = loop.server.core := by
  unfold sendModeNotice
  split
  · rfl
  · split <;> simp

theorem requireChannelMember_fst (channel : Channel) :
    (server.requireChannelMember fd channel).1 = channel.hasMember fd := by
  unfold requireChannelMember
  split
  next member => simp [member]
  next missing => split <;> simp_all

theorem requireChannelOperator_fst (channel : Channel) :
    (server.requireChannelOperator fd channel).1 = channel.isOperator fd := by
  unfold requireChannelOperator
  split
  next operator => simp [operator]
  next missing => split <;> simp_all

/-! ## Operations that write to the core -/

theorem core_updateClient {client : Client} (change : Client → Client)
    (found : server.findClientByFd fd = some client) :
    (server.updateClient fd change).core =
      server.core.setClient fd (change client).withoutBuffers := by
  simp only [findClientByFd] at found
  ext1
  · funext other
    simp only [core, updateClient, ExtTreeMap.getElem?_modify, LawfulEqOrd.compare_eq_iff_eq,
      Core.setClient_clients, eq_comm (a := other)]
    split
    next same =>
      subst same
      simp [found]
    next => rfl
  · rfl
  · rfl

theorem core_updateChannel {name : Bytes} {channel : Channel} (change : Channel → Channel)
    (found : server.findChannel name = some channel) :
    (server.updateChannel name change).core =
      server.core.setChannel (IrcUtil.normalizeChannelName name) (change channel) := by
  simp only [findChannel] at found
  ext1
  · rfl
  · funext other
    simp only [core, updateChannel, ExtTreeMap.getElem?_modify, LawfulEqOrd.compare_eq_iff_eq,
      Core.setChannel_channels, eq_comm (a := other)]
    split
    next same => simp [found]
    next => rfl
  · rfl

theorem findChannel_eq_of_core_eq {left right : Server} (same : left.core = right.core)
    (name : Bytes) : left.findChannel name = right.findChannel name := by
  rw [← core_channels_of_find, ← core_channels_of_find, same]

/-- Two servers with one core hold the same client up to its buffers. -/
theorem find_eq_of_core_eq {left right : Server} (same : left.core = right.core) {client : Client}
    (found : left.findClientByFd fd = some client) :
    ∃ other, right.findClientByFd fd = some other ∧
      other.withoutBuffers = client.withoutBuffers := by
  have stored := core_clients_of_find left fd found
  rw [same] at stored
  exact right.exists_find_of_core_clients fd stored

end Server

end IrcPlatform.Irc
