import IrcPlatform.Irc.Closing
import IrcPlatform.Irc.Tidings

/-!
# Who is in which channel

The members of all channels by name, and how each change of the core changes them: an
admission, a departure, a new nickname and the end of a connection are the changes that the
notices tell of.
-/

namespace IrcPlatform.Irc

open Std

namespace Core

/-- The nicknames of the members of each channel, under the name of the channel. -/
def rosters (core : Core) : Rosters Bytes Bytes :=
  {place | ∃ key channel fd client, core.channels key = some channel ∧ channel.name = place.1 ∧
    fd ∈ channel.members ∧ core.clients fd = some client ∧ client.nickname = place.2}

/-- The registered clients have names that tell them apart. -/
structure Peopled (core : Core) : Prop where
  wellFormed : core.WellFormed
  nicknamed (fd : Int) (client : Client) : core.clients fd = some client →
    client.registered = true → Nicknamed client
  distinct (fd other : Int) (client record : Client) : core.clients fd = some client →
    core.clients other = some record → client.registered = true → record.registered = true →
    client.nickname = record.nickname → fd = other

theorem mem_rosters {core : Core} {room nickname : Bytes} : (room, nickname) ∈ core.rosters ↔
    ∃ key channel fd client, core.channels key = some channel ∧ channel.name = room ∧
      fd ∈ channel.members ∧ core.clients fd = some client ∧ client.nickname = nickname := Iff.rfl

/-- Names and members are all that the rosters depend on. -/
theorem rosters_congr {before after : Core} (live : ∀ key channel fd, before.channels key =
      some channel → fd ∈ channel.members → ∃ client, before.clients fd = some client)
    (channels : ∀ key, (after.channels key).map (fun channel => (channel.name, channel.members)) =
      (before.channels key).map fun channel => (channel.name, channel.members))
    (clients : ∀ key channel fd client, before.channels key = some channel →
      fd ∈ channel.members → before.clients fd = some client →
      ∃ changed, after.clients fd = some changed ∧ changed.nickname = client.nickname) :
    after.rosters = before.rosters := by
  ext ⟨room, nickname⟩
  rw [mem_rosters, mem_rosters]
  constructor
  · rintro ⟨key, changed, fd, record, stored, rfl, member, found, rfl⟩
    have same := channels key
    rw [stored, Option.map_some, eq_comm, Option.map_eq_some_iff] at same
    rcases same with ⟨channel, foundChannel, same⟩
    rw [Prod.mk.injEq] at same
    rw [← same.2] at member
    rcases live key channel fd foundChannel member with ⟨client, foundClient⟩
    rcases clients key channel fd client foundChannel member foundClient with
      ⟨other, foundOther, sameName⟩
    rw [found, Option.some.injEq] at foundOther
    subst foundOther
    exact ⟨key, channel, fd, client, foundChannel, same.1, member, foundClient, sameName.symm⟩
  · rintro ⟨key, channel, fd, client, stored, rfl, member, found, rfl⟩
    have same := channels key
    rw [stored, Option.map_some, Option.map_eq_some_iff] at same
    rcases same with ⟨changed, foundChannel, same⟩
    rw [Prod.mk.injEq] at same
    rcases clients key channel fd client stored member found with ⟨record, foundRecord, sameName⟩
    exact ⟨key, changed, fd, record, foundChannel, same.1, same.2 ▸ member, foundRecord, sameName⟩

/-- A client is admitted to a channel, new or existing. -/
theorem rosters_join {core after : Core} {fd : Int} {key : Bytes} {entered : Channel}
    {client changed : Client} (found : core.clients fd = some client)
    (channels : ∀ other, after.channels other =
      if other = key then some entered else core.channels other)
    (clients : ∀ other, after.clients other =
      if other = fd then some changed else core.clients other)
    (nickname : changed.nickname = client.nickname)
    (existing : ∀ old, core.channels key = some old → entered.name = old.name)
    (members : ∀ other, other ∈ entered.members ↔
      other = fd ∨ ∃ old, core.channels key = some old ∧ other ∈ old.members) :
    after.rosters = core.rosters.after (.entered entered.name client.nickname) := by
  have record (other : Int) (client' : Client) (foundOther : core.clients other = some client') :
      ∃ changed', after.clients other = some changed' ∧
        changed'.nickname = client'.nickname := by
    rw [clients other]
    split
    next same =>
      rw [same, found, Option.some.injEq] at foundOther
      exact ⟨changed, rfl, foundOther ▸ nickname⟩
    · exact ⟨client', foundOther, rfl⟩
  ext ⟨room, name⟩
  simp only [Rosters.after, Set.mem_insert_iff, Prod.mk.injEq]
  rw [mem_rosters, mem_rosters]
  constructor
  · rintro ⟨other, channel, holder, owner, stored, rfl, member, foundOwner, rfl⟩
    have before : (∃ original, core.clients holder = some original ∧
        original.nickname = owner.nickname) := by
      rw [clients holder] at foundOwner
      split at foundOwner
      next same =>
        rw [Option.some.injEq] at foundOwner
        exact ⟨client, same ▸ found, foundOwner ▸ nickname.symm⟩
      · exact ⟨owner, foundOwner, rfl⟩
    rcases before with ⟨original, foundOriginal, sameName⟩
    rw [channels other] at stored
    split at stored
    next same =>
      rw [Option.some.injEq] at stored
      subst stored
      rcases (members holder).mp member with rfl | ⟨old, storedOld, inside⟩
      · rw [found, Option.some.injEq] at foundOriginal
        exact Or.inl ⟨rfl, by rw [← sameName, foundOriginal]⟩
      · exact Or.inr ⟨key, old, holder, original, storedOld, (existing old storedOld).symm, inside,
          foundOriginal, sameName⟩
    next =>
      exact Or.inr ⟨other, channel, holder, original, stored, rfl, member, foundOriginal,
        sameName⟩
  · rintro (⟨rfl, rfl⟩ | ⟨other, channel, holder, owner, stored, rfl, member, foundOwner, rfl⟩)
    · exact ⟨key, entered, fd, changed, by rw [channels, if_pos rfl], rfl,
        (members fd).mpr (Or.inl rfl), by rw [clients, if_pos rfl], nickname⟩
    · rcases record holder owner foundOwner with ⟨owner', foundAfter, sameName⟩
      by_cases same : other = key
      · subst same
        exact ⟨other, entered, holder, owner', by rw [channels, if_pos rfl],
          existing channel stored, (members holder).mpr (Or.inr ⟨channel, stored, member⟩),
          foundAfter, sameName⟩
      · exact ⟨other, channel, holder, owner', by rw [channels, if_neg same, stored], rfl, member,
          foundAfter, sameName⟩

namespace Peopled

variable {core after : Core} (peopled : core.Peopled)
include peopled

theorem channel_unique {key other : Bytes} {channel record : Channel}
    (stored : core.channels key = some channel) (storedOther : core.channels other = some record)
    (same : record.name = channel.name) : other = key := by
  have consistent := peopled.wellFormed.consistent
  rw [← consistent.key_normalized key channel stored,
    ← consistent.key_normalized other record storedOther, same]

theorem valid_name {key : Bytes} {channel : Channel} (stored : core.channels key = some channel) :
    IrcUtil.isValidChannelName channel.name = true := by
  have valid := peopled.wellFormed.names key channel stored
  rwa [← peopled.wellFormed.consistent.key_normalized key channel stored,
    IrcUtil.isValidChannelName_normalize] at valid

section Client

variable {fd : Int} {client : Client} (found : core.clients fd = some client)
  (registered : client.registered = true)
include found registered

/-- The rooms of a client are the channels that it is a member of. -/
theorem mem_rosters_iff (room : Bytes) : (room, client.nickname) ∈ core.rosters ↔
    ∃ key channel, core.channels key = some channel ∧ channel.name = room ∧
      fd ∈ channel.members := by
  constructor
  · rintro ⟨key, channel, other, record, stored, named, member, foundOther, same⟩
    have registeredOther := peopled.wellFormed.consistent.member_registered key channel other
      record stored member foundOther
    have own := peopled.distinct other fd record client foundOther found registeredOther
      registered same
    exact ⟨key, channel, stored, named, own ▸ member⟩
  · rintro ⟨key, channel, stored, named, member⟩
    exact ⟨key, channel, fd, client, stored, named, member, found, rfl⟩

theorem mem_rosters_channel {key : Bytes} {channel : Channel}
    (stored : core.channels key = some channel) :
    (channel.name, client.nickname) ∈ core.rosters ↔ fd ∈ channel.members := by
  rw [peopled.mem_rosters_iff found registered]
  constructor
  · rintro ⟨other, record, storedOther, same, member⟩
    have sameKey := peopled.channel_unique stored storedOther same
    rw [sameKey, stored, Option.some.injEq] at storedOther
    exact storedOther ▸ member
  · intro member
    exact ⟨key, channel, stored, rfl, member⟩

/-- Sharing a room is sharing a channel. -/
theorem shares_iff {other : Int} {record : Client} (foundOther : core.clients other = some record)
    (registeredOther : record.registered = true) :
    (∃ room, (room, client.nickname) ∈ core.rosters ∧ (room, record.nickname) ∈ core.rosters) ↔
      ∃ key, core.IsMember fd key ∧ core.IsMember other key := by
  constructor
  · rintro ⟨room, here, there⟩
    rcases (peopled.mem_rosters_iff found registered room).mp here with
      ⟨key, channel, stored, rfl, member⟩
    have also := (peopled.mem_rosters_channel foundOther registeredOther stored).mp there
    exact ⟨key, ⟨channel, stored, member⟩, channel, stored, also⟩
  · rintro ⟨key, ⟨channel, stored, member⟩, same, storedSame, also⟩
    rw [stored, Option.some.injEq] at storedSame
    subst storedSame
    exact ⟨channel.name, (peopled.mem_rosters_channel found registered stored).mpr member,
      (peopled.mem_rosters_channel foundOther registeredOther stored).mpr also⟩

/-! ## Changes -/

/-- A client is taken out of some of its channels. -/
theorem rosters_without {keys : Bytes → Prop} [DecidablePred keys]
    (channels : ∀ key, after.channels key = (core.channels key).bind fun channel =>
      if keys key then channel.without fd else some channel)
    (clients : ∀ other, other ≠ fd → after.clients other = core.clients other)
    (own : (∃ key, core.IsMember fd key ∧ ¬keys key) →
      ∃ changed, after.clients fd = some changed ∧ changed.nickname = client.nickname) :
    after.rosters = {place | place ∈ core.rosters ∧ ¬(place.2 = client.nickname ∧
      ∃ key channel, core.channels key = some channel ∧ channel.name = place.1 ∧ keys key)} := by
  have named : ∀ {channel left : Channel}, Channel.LosesOnly fd channel left →
      left.name = channel.name := by
    intro channel left only
    rw [only.rest]
  have stays : ∀ {key : Bytes} {channel : Channel} {other : Int}, other ∈ channel.members →
      ¬(other = fd ∧ keys key) → core.channels key = some channel →
      ∃ left, after.channels key = some left ∧ left.name = channel.name ∧
        other ∈ left.members := by
    intro key channel other member apart stored
    have result := channels key
    rw [stored, Option.bind_some] at result
    split at result
    next chosen =>
      have different : other ≠ fd := fun same => apart ⟨same, chosen⟩
      cases lost : channel.without fd with
      | none => exact absurd (Channel.without_eq_none_iff.mp lost other member) different
      | some left =>
          rw [lost] at result
          have only := Channel.losesOnly_of_without lost
          exact ⟨left, result, named only,
            (only.members other).mpr ⟨member, different⟩⟩
    · exact ⟨channel, result, rfl, member⟩
  have former : ∀ {key : Bytes} {left : Channel} {other : Int}, after.channels key = some left →
      other ∈ left.members → ∃ channel, core.channels key = some channel ∧
        left.name = channel.name ∧ other ∈ channel.members ∧ ¬(other = fd ∧ keys key) := by
    intro key left other storedLeft member
    rw [channels key, Option.bind_eq_some_iff] at storedLeft
    rcases storedLeft with ⟨channel, stored, result⟩
    split at result
    next chosen =>
      have only := Channel.losesOnly_of_without result
      rcases (only.members other).mp member with ⟨before, different⟩
      exact ⟨channel, stored, named only, before, fun both =>
        different both.1⟩
    next other_ =>
      rw [Option.some.injEq] at result
      subst result
      exact ⟨channel, stored, rfl, member, fun both => other_ both.2⟩
  ext ⟨room, nickname⟩
  simp only [mem_rosters, Set.mem_ofPred_eq]
  constructor
  · rintro ⟨key, left, other, record, storedLeft, rfl, member, foundOther, rfl⟩
    rcases former storedLeft member with ⟨channel, stored, sameName, before, apart⟩
    have there : ∃ original, core.clients other = some original ∧
        original.nickname = record.nickname := by
      by_cases same : other = fd
      · subst same
        rcases own ⟨key, ⟨channel, stored, before⟩, fun chosen => apart ⟨rfl, chosen⟩⟩ with
          ⟨changed, foundChanged, name⟩
        rw [foundOther, Option.some.injEq] at foundChanged
        exact ⟨client, found, foundChanged ▸ name.symm⟩
      · exact ⟨record, (clients other same) ▸ foundOther, rfl⟩
    rcases there with ⟨original, foundOriginal, name⟩
    refine ⟨⟨key, channel, other, original, stored, sameName.symm, before, foundOriginal, name⟩, ?_⟩
    rintro ⟨ownName, otherKey, otherChannel, storedOther, named, chosen⟩
    have sameKey := peopled.channel_unique stored storedOther (named.trans sameName)
    have registeredOther := peopled.wellFormed.consistent.member_registered key channel other
      original stored before foundOriginal
    have same := peopled.distinct other fd original client foundOriginal found registeredOther
      registered (name.trans ownName)
    exact apart ⟨same, sameKey ▸ chosen⟩
  · rintro ⟨⟨key, channel, other, record, stored, rfl, member, foundOther, rfl⟩, apart⟩
    have kept : ¬(other = fd ∧ keys key) := by
      rintro ⟨rfl, chosen⟩
      rw [found, Option.some.injEq] at foundOther
      exact apart ⟨by rw [foundOther], key, channel, stored, rfl, chosen⟩
    rcases stays member kept stored with ⟨left, storedLeft, sameName, still⟩
    by_cases same : other = fd
    · subst same
      rcases own ⟨key, ⟨channel, stored, member⟩, fun chosen => kept ⟨rfl, chosen⟩⟩ with
        ⟨changed, foundChanged, name⟩
      rw [found, Option.some.injEq] at foundOther
      exact ⟨key, left, other, changed, storedLeft, sameName, still, foundChanged,
        foundOther ▸ name⟩
    · exact ⟨key, left, other, record, storedLeft, sameName, still,
        (clients other same).trans foundOther, rfl⟩

theorem rosters_leave {key : Bytes} {channel : Channel}
    (stored : core.channels key = some channel) :
    (core.leave fd key client channel).rosters =
      core.rosters.after (.left channel.name client.nickname) := by
  have channels : ∀ other, (core.leave fd key client channel).channels other =
      (core.channels other).bind fun room =>
        if other = key then room.without fd else some room := by
    intro other
    rw [Core.leave_channels]
    split
    next same =>
      rw [same, stored, Option.bind_some]
      rfl
    · simp
  have clients : ∀ other, other ≠ fd →
      (core.leave fd key client channel).clients other = core.clients other := by
    intro other distinct
    rw [Core.leave_clients, if_neg distinct]
  have own : (core.leave fd key client channel).clients fd =
      some (client.removeJoinedChannel key) := by
    rw [Core.leave_clients, if_pos rfl]
  rw [peopled.rosters_without found registered channels clients fun _ => ⟨_, own, rfl⟩]
  ext ⟨room, nickname⟩
  simp only [Rosters.after, Set.mem_ofPred_eq, Set.mem_sdiff, Set.mem_singleton_iff,
    Prod.mk.injEq]
  apply and_congr_right
  intro _
  apply not_congr
  constructor
  · rintro ⟨named, other, record, storedOther, rfl, rfl⟩
    rw [stored, Option.some.injEq] at storedOther
    exact ⟨by rw [storedOther], named⟩
  · rintro ⟨rfl, named⟩
    exact ⟨named, key, channel, stored, rfl, rfl⟩

/-- The end of a connection. -/
theorem rosters_close (channels : ∀ key, after.channels key =
      (core.channels key).bind (Channel.without fd))
    (clients : ∀ other, other ≠ fd → after.clients other = core.clients other) :
    after.rosters = core.rosters.after (.gone client.nickname) := by
  have everywhere : ∀ key, after.channels key = (core.channels key).bind fun channel =>
      if True then channel.without fd else some channel := by
    simpa using channels
  rw [peopled.rosters_without found registered everywhere clients (by simp)]
  ext ⟨room, nickname⟩
  simp only [Rosters.after, Set.mem_ofPred_eq, and_true]
  constructor
  · rintro ⟨⟨key, channel, other, record, stored, named, rest⟩, apart⟩
    exact ⟨⟨key, channel, other, record, stored, named, rest⟩, fun own =>
      apart ⟨own, key, channel, stored, named⟩⟩
  · rintro ⟨place, other⟩
    exact ⟨place, fun own => other own.1⟩

/-- The client has a new nickname. -/
theorem rosters_rename {changed : Client} (channels : after.channels = core.channels)
    (clients : ∀ other, after.clients other =
      if other = fd then some changed else core.clients other) :
    after.rosters = core.rosters.after (.renamed client.nickname changed.nickname) := by
  have consistent := peopled.wellFormed.consistent
  ext ⟨room, nickname⟩
  simp only [Rosters.after, Set.mem_ofPred_eq]
  rw [peopled.mem_rosters_iff found registered, mem_rosters, channels]
  constructor
  · rintro ⟨key, channel, other, record, stored, named, member, foundOther, rfl⟩
    rw [clients other] at foundOther
    split at foundOther
    next same =>
      rw [Option.some.injEq] at foundOther
      exact Or.inl ⟨by rw [foundOther], key, channel, stored, named, same ▸ member⟩
    next different =>
      refine Or.inr ⟨?_, key, channel, other, record, stored, named, member, foundOther, rfl⟩
      intro same
      have registeredOther := consistent.member_registered key channel other record stored member
        foundOther
      exact different (peopled.distinct other fd record client foundOther found registeredOther
        registered same)
  · rintro (⟨rfl, key, channel, stored, named, member⟩ |
      ⟨different, key, channel, other, record, stored, named, member, foundOther, rfl⟩)
    · exact ⟨key, channel, fd, changed, stored, named, member, by rw [clients, if_pos rfl], rfl⟩
    · have apart : other ≠ fd := by
        rintro rfl
        rw [found, Option.some.injEq] at foundOther
        exact different (by rw [foundOther])
      exact ⟨key, channel, other, record, stored, named, member, by
        rw [clients, if_neg apart, foundOther], rfl⟩

end Client

end Peopled

end Core

end IrcPlatform.Irc
