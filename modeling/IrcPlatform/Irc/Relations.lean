import IrcPlatform.Irc.Core

/-!
# Consistency of the membership relation

Membership is stored twice, in the joined set of each client and in the member
set of each channel, next to three sets that depend on it. This file states when
a core is consistent and shows that each primitive change of the relation
(admission, departure, removal of a client, change of a channel's settings)
keeps it so.
-/

namespace IrcPlatform.Irc

open Std

namespace Core

def IsMember (core : Core) (fd : Int) (key : Bytes) : Prop :=
  ∃ channel, core.channels key = some channel ∧ fd ∈ channel.members

def HasJoined (core : Core) (fd : Int) (key : Bytes) : Prop :=
  ∃ client, core.clients fd = some client ∧ key ∈ client.joinedChannels

structure Consistent (core : Core) : Prop where
  isMember_iff : ∀ fd key, core.IsMember fd key ↔ core.HasJoined fd key
  operator_member : ∀ key channel fd, core.channels key = some channel →
    fd ∈ channel.operators → fd ∈ channel.members
  nonempty : ∀ key channel, core.channels key = some channel → ∃ fd, fd ∈ channel.members
  keyName : ∀ key channel, core.channels key = some channel → channel.keyName = key
  key_normalized : ∀ key channel, core.channels key = some channel →
    IrcUtil.normalizeChannelName channel.name = key
  invited_live : ∀ key channel fd, core.channels key = some channel →
    fd ∈ channel.invited → ∃ client, core.clients fd = some client
  invited_not_member : ∀ key channel fd, core.channels key = some channel →
    fd ∈ channel.invited → fd ∉ channel.members
  member_registered : ∀ key channel fd client, core.channels key = some channel →
    fd ∈ channel.members → core.clients fd = some client → client.registered = true
  client_fd : ∀ fd client, core.clients fd = some client → client.fd = fd

namespace Consistent

variable {core : Core} (consistent : core.Consistent)

include consistent

theorem member_live {key : Bytes} {channel : Channel} {fd : Int}
    (found : core.channels key = some channel) (member : fd ∈ channel.members) :
    ∃ client, core.clients fd = some client ∧ key ∈ client.joinedChannels :=
  (consistent.isMember_iff fd key).mp ⟨channel, found, member⟩

theorem joined_live {fd : Int} {client : Client} {key : Bytes}
    (found : core.clients fd = some client) (joined : key ∈ client.joinedChannels) :
    ∃ channel, core.channels key = some channel ∧ fd ∈ channel.members :=
  (consistent.isMember_iff fd key).mpr ⟨client, found, joined⟩

theorem joined_of_member {key : Bytes} {channel : Channel} {fd : Int} {client : Client}
    (foundChannel : core.channels key = some channel)
    (foundClient : core.clients fd = some client) :
    fd ∈ channel.members ↔ key ∈ client.joinedChannels := by
  have related := consistent.isMember_iff fd key
  simpa [IsMember, HasJoined, foundChannel, foundClient] using related

/-- Channel keys are fixed points of the normalisation. -/
theorem normalize_key {key : Bytes} {channel : Channel}
    (found : core.channels key = some channel) : IrcUtil.normalizeChannelName key = key := by
  rw [← consistent.key_normalized key channel found]
  exact IrcUtil.normalizeChannelName_normalizeChannelName channel.name

end Consistent

/-- A core without channels, all of whose clients are fresh, is consistent. -/
theorem consistent_empty : Consistent ⟨fun _ => none, fun _ => none, fun _ => none⟩ := by
  constructor <;> simp [IsMember, HasJoined]

/-! ## Changes of one client or one channel -/

/-- A client record may change in anything but its descriptor and its joined set, as
long as it does not lose its registration. -/
theorem Consistent.setClient {core : Core} (consistent : core.Consistent) {fd : Int}
    {client changed : Client} (found : core.clients fd = some client)
    (sameFd : changed.fd = client.fd) (sameJoined : changed.joinedChannels = client.joinedChannels)
    (registered : client.registered = true → changed.registered = true) :
    (core.setClient fd changed).Consistent where
  isMember_iff other key := by
    have related := consistent.isMember_iff other key
    simp only [IsMember, HasJoined, setClient_channels, setClient_clients] at related ⊢
    grind
  operator_member := consistent.operator_member
  nonempty := consistent.nonempty
  keyName := consistent.keyName
  key_normalized := consistent.key_normalized
  invited_live := by
    intro key channel other foundChannel invited
    have live := consistent.invited_live key channel other foundChannel invited
    grind
  invited_not_member := consistent.invited_not_member
  member_registered := by
    intro key channel other record foundChannel member foundClient
    have old := consistent.member_registered key channel other
    grind
  client_fd := by
    intro other record foundClient
    have old := consistent.client_fd other
    grind

/-- A new client has joined nothing, and no channel refers to its descriptor. -/
theorem Consistent.enter {core : Core} (consistent : core.Consistent) {fd : Int} {client : Client}
    (missing : core.clients fd = none) (sameFd : client.fd = fd)
    (nothing : client.joinedChannels = ∅) : (core.setClient fd client).Consistent where
  isMember_iff other key := by
    have related := consistent.isMember_iff other key
    simp only [IsMember, HasJoined, setClient_channels, setClient_clients] at related ⊢
    grind
  operator_member := consistent.operator_member
  nonempty := consistent.nonempty
  keyName := consistent.keyName
  key_normalized := consistent.key_normalized
  invited_live := by
    intro key channel other foundChannel invited
    have live := consistent.invited_live key channel other foundChannel invited
    grind
  invited_not_member := consistent.invited_not_member
  member_registered := by
    intro key channel other record foundChannel member foundClient
    have old := consistent.member_registered key channel other
    have live := consistent.member_live foundChannel member
    grind
  client_fd := by
    intro other record foundClient
    have old := consistent.client_fd other
    grind

/-- The settings of a channel and its invited and operator sets may change within the
bounds that the relation puts on them. -/
theorem Consistent.setChannel {core : Core} (consistent : core.Consistent) {key : Bytes}
    {channel changed : Channel} (found : core.channels key = some channel)
    (sameName : changed.name = channel.name) (sameKey : changed.keyName = channel.keyName)
    (sameMembers : changed.members = channel.members)
    (operators : ∀ fd ∈ changed.operators, fd ∈ channel.members)
    (invited : ∀ fd ∈ changed.invited, (∃ client, core.clients fd = some client) ∧
      fd ∉ channel.members) :
    (core.setChannel key changed).Consistent where
  isMember_iff fd other := by
    have related := consistent.isMember_iff fd other
    simp only [IsMember, HasJoined, setChannel_channels, setChannel_clients] at related ⊢
    grind
  operator_member := by
    intro other record fd
    have old := consistent.operator_member other record fd
    grind
  nonempty := by
    intro other record
    have old := consistent.nonempty other record
    have here := consistent.nonempty key channel found
    grind
  keyName := by
    intro other record
    have old := consistent.keyName other record
    have here := consistent.keyName key channel found
    grind
  key_normalized := by
    intro other record
    have old := consistent.key_normalized other record
    have here := consistent.key_normalized key channel found
    grind
  invited_live := by
    intro other record fd
    have old := consistent.invited_live other record fd
    grind
  invited_not_member := by
    intro other record fd
    have old := consistent.invited_not_member other record fd
    grind
  member_registered := by
    intro other record fd client
    have old := consistent.member_registered other record fd client
    have here := consistent.member_registered key channel fd client
    grind
  client_fd := consistent.client_fd

/-! ## Changes of the relation -/

theorem Consistent.admitMember {core : Core} (consistent : core.Consistent) {fd : Int} {key : Bytes}
    {client : Client} {channel : Channel} (foundClient : core.clients fd = some client)
    (foundChannel : core.channels key = some channel) (registered : client.registered = true) :
    (core.admitMember fd key client channel).Consistent where
  isMember_iff other otherKey := by
    have related := consistent.isMember_iff other otherKey
    simp only [IsMember, HasJoined, admitMember_channels, admitMember_clients] at related ⊢
    by_cases sameFd : other = fd
    · subst sameFd
      by_cases sameKey : otherKey = key
      · subst sameKey
        simp
      · simpa [sameKey, Ne.symm sameKey, foundClient] using related
    · by_cases sameKey : otherKey = key
      · subst sameKey
        simpa [sameFd, Ne.symm sameFd, foundChannel] using related
      · simpa [sameFd, sameKey] using related
  operator_member otherKey record other := by
    have old := consistent.operator_member otherKey record other
    have here := consistent.operator_member key channel other
    grind
  nonempty otherKey record := by
    have old := consistent.nonempty otherKey record
    have here : fd ∈ (channel.members.insert fd) := by simp
    grind
  keyName otherKey record := by
    have old := consistent.keyName otherKey record
    have here := consistent.keyName key channel
    grind
  key_normalized otherKey record := by
    have old := consistent.key_normalized otherKey record
    have here := consistent.key_normalized key channel
    grind
  invited_live otherKey record other := by
    have old := consistent.invited_live otherKey record other
    have here := consistent.invited_live key channel other
    grind
  invited_not_member otherKey record other := by
    have old := consistent.invited_not_member otherKey record other
    have here := consistent.invited_not_member key channel other
    grind
  member_registered otherKey record other member := by
    have old := consistent.member_registered otherKey record other member
    have here := consistent.member_registered key channel other member
    have actor := consistent.member_registered otherKey record fd client
    grind
  client_fd other record := by
    have old := consistent.client_fd other record
    have here := consistent.client_fd fd client
    grind

theorem Consistent.create {core : Core} (consistent : core.Consistent) {fd : Int} {key : Bytes}
    {client : Client} {name : Bytes} (foundClient : core.clients fd = some client)
    (missing : core.channels key = none) (registered : client.registered = true)
    (normalized : IrcUtil.normalizeChannelName name = key) :
    (core.create fd key client name).Consistent where
  isMember_iff other otherKey := by
    have related := consistent.isMember_iff other otherKey
    simp only [IsMember, HasJoined, create_channels, create_clients] at related ⊢
    by_cases sameFd : other = fd
    · subst sameFd
      by_cases sameKey : otherKey = key
      · subst sameKey
        simp
      · simpa [sameKey, Ne.symm sameKey, foundClient] using related
    · by_cases sameKey : otherKey = key
      · subst sameKey
        simpa [sameFd, Ne.symm sameFd, missing] using related
      · simpa [sameFd, sameKey] using related
  operator_member otherKey record other := by
    have old := consistent.operator_member otherKey record other
    grind
  nonempty otherKey record := by
    have old := consistent.nonempty otherKey record
    have here : fd ∈ (∅ : ExtTreeSet Int).insert fd := by simp
    grind
  keyName otherKey record := by
    have old := consistent.keyName otherKey record
    grind
  key_normalized otherKey record := by
    have old := consistent.key_normalized otherKey record
    grind
  invited_live otherKey record other := by
    have old := consistent.invited_live otherKey record other
    grind
  invited_not_member otherKey record other := by
    have old := consistent.invited_not_member otherKey record other
    grind
  member_registered otherKey record other member := by
    have old := consistent.member_registered otherKey record other member
    have actor := consistent.member_registered otherKey record fd client
    grind
  client_fd other record := by
    have old := consistent.client_fd other record
    have here := consistent.client_fd fd client
    grind

theorem Consistent.leave {core : Core} (consistent : core.Consistent) {fd : Int} {key : Bytes}
    {client : Client} {channel : Channel} (foundClient : core.clients fd = some client)
    (foundChannel : core.channels key = some channel) :
    (core.leave fd key client channel).Consistent := by
  constructor
  case isMember_iff =>
    intro other otherKey
    have related := consistent.isMember_iff other otherKey
    simp only [IsMember, HasJoined] at related ⊢
    grind
  case operator_member =>
    intro otherKey record other
    have old := consistent.operator_member otherKey record other
    have here := consistent.operator_member key channel other
    grind
  case nonempty =>
    intro otherKey record
    have old := consistent.nonempty otherKey record
    grind
  case keyName =>
    intro otherKey record
    have old := consistent.keyName otherKey record
    have here := consistent.keyName key channel
    grind
  case key_normalized =>
    intro otherKey record
    have old := consistent.key_normalized otherKey record
    have here := consistent.key_normalized key channel
    grind
  case invited_live =>
    intro otherKey record other
    have old := consistent.invited_live otherKey record other
    have here := consistent.invited_live key channel other
    grind
  case invited_not_member =>
    intro otherKey record other
    have old := consistent.invited_not_member otherKey record other
    have here := consistent.invited_not_member key channel other
    grind
  case member_registered =>
    intro otherKey record other member
    have old := consistent.member_registered otherKey record other member
    have here := consistent.member_registered key channel other member
    have actor := consistent.member_registered otherKey record fd client
    have actorHere := consistent.member_registered key channel fd client
    grind
  case client_fd =>
    intro other record
    have old := consistent.client_fd other record
    have here := consistent.client_fd fd client
    grind

theorem Consistent.remove {core : Core} (consistent : core.Consistent) {fd : Int}
    (noChannel : ∀ key, ¬core.HasJoined fd key) : (core.remove fd).Consistent := by
  have notMember : ∀ key, ¬core.IsMember fd key := fun key member =>
    noChannel key ((consistent.isMember_iff fd key).mp member)
  constructor
  case isMember_iff =>
    intro other key
    have related := consistent.isMember_iff other key
    have gone := notMember key
    simp only [IsMember, HasJoined, remove_clients, remove_channels,
      Option.map_eq_some_iff] at related gone ⊢
    grind
  case operator_member =>
    intro key record other
    have old := consistent.operator_member key
    simp only [remove_channels, Option.map_eq_some_iff]
    grind
  case nonempty =>
    intro key record
    have old := consistent.nonempty key
    simp only [remove_channels, Option.map_eq_some_iff]
    grind
  case keyName =>
    intro key record
    have old := consistent.keyName key
    simp only [remove_channels, Option.map_eq_some_iff]
    grind
  case key_normalized =>
    intro key record
    have old := consistent.key_normalized key
    simp only [remove_channels, Option.map_eq_some_iff]
    grind
  case invited_live =>
    intro key record other
    have old := consistent.invited_live key
    simp only [remove_channels, remove_clients, Option.map_eq_some_iff]
    grind
  case invited_not_member =>
    intro key record other
    have old := consistent.invited_not_member key
    simp only [remove_channels, Option.map_eq_some_iff]
    grind
  case member_registered =>
    intro key record other member
    have old := consistent.member_registered key
    simp only [remove_channels, remove_clients, Option.map_eq_some_iff]
    grind
  case client_fd =>
    intro other record
    have old := consistent.client_fd other record
    simp only [remove_clients]
    grind

theorem Consistent.of_nicks {core other : Core} (consistent : core.Consistent)
    (sameClients : other.clients = core.clients) (sameChannels : other.channels = core.channels) :
    other.Consistent := by
  rcases other with ⟨clients, channels, nicks⟩
  subst sameClients sameChannels
  exact ⟨consistent.isMember_iff, consistent.operator_member, consistent.nonempty,
    consistent.keyName, consistent.key_normalized, consistent.invited_live,
    consistent.invited_not_member, consistent.member_registered, consistent.client_fd⟩

end Core

end IrcPlatform.Irc
