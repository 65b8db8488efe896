import IrcPlatform.Irc.Reachable

/-!
# Permissions of channel changes

What one command may change in a channel, and who must have sent it. The law is
read off the list of effects: a privileged effect names an actor that was an
operator when the command started, and a chain of joins or departures only moves
the actor itself.
-/

namespace IrcPlatform.Irc

open Std Relation

/-- The modes, the key and the limit agree. -/
structure Channel.SameModes (before after : Channel) : Prop where
  inviteOnly : after.inviteOnly = before.inviteOnly
  topicRestricted : after.topicRestricted = before.topicRestricted
  keyEnabled : after.keyEnabled = before.keyEnabled
  channelKey : after.channelKey = before.channelKey
  limitEnabled : after.limitEnabled = before.limitEnabled
  userLimit : after.userLimit = before.userLimit

theorem Channel.SameModes.refl (channel : Channel) : channel.SameModes channel :=
  ⟨rfl, rfl, rfl, rfl, rfl, rfl⟩

theorem Channel.SameModes.trans {before between after : Channel}
    (first : before.SameModes between) (second : between.SameModes after) :
    before.SameModes after :=
  ⟨second.inviteOnly.trans first.inviteOnly, second.topicRestricted.trans first.topicRestricted,
    second.keyEnabled.trans first.keyEnabled, second.channelKey.trans first.channelKey,
    second.limitEnabled.trans first.limitEnabled, second.userLimit.trans first.userLimit⟩

/-- What a command of `actor` may have done to a channel; `after` is `none` where the
command deleted it. -/
structure ChannelLaw (actor : Int) (before : Channel) (after : Option Channel) : Prop where
  modes (changed : Channel) : after = some changed → ¬before.SameModes changed →
    actor ∈ before.operators
  operator_added (changed : Channel) : after = some changed →
    ∀ fd ∈ changed.operators, fd ∉ before.operators → actor ∈ before.operators
  operator_lost (fd : Int) : fd ∈ before.operators → fd ≠ actor →
    (∀ changed, after = some changed → fd ∉ changed.operators) → actor ∈ before.operators
  invited_added (changed : Channel) : after = some changed →
    ∀ fd ∈ changed.invited, fd ∉ before.invited → actor ∈ before.operators
  member_lost (fd : Int) : fd ∈ before.members → fd ≠ actor →
    (∀ changed, after = some changed → fd ∉ changed.members) → actor ∈ before.operators
  topic (changed : Channel) : after = some changed → changed.topic ≠ before.topic →
    actor ∈ before.members ∧ (actor ∈ before.operators ∨ before.topicRestricted = false)
  member_added (changed : Channel) : after = some changed →
    ∀ fd ∈ changed.members, fd ∉ before.members → fd = actor

/-- A channel with one member, its operator, and the defaults in everything else. -/
structure NewChannel (actor : Int) (channel : Channel) : Prop where
  members (fd : Int) : fd ∈ channel.members ↔ fd = actor
  operators (fd : Int) : fd ∈ channel.operators ↔ fd = actor
  invited (fd : Int) : fd ∉ channel.invited
  topic : channel.topic = []
  inviteOnly : channel.inviteOnly = false
  topicRestricted : channel.topicRestricted = true
  keyEnabled : channel.keyEnabled = false
  channelKey : channel.channelKey = []
  limitEnabled : channel.limitEnabled = false
  userLimit : channel.userLimit = 0

/-- The law of one command over the whole channel map. -/
structure CommandLaw (actor : Int) (before after : Bytes → Option Channel) : Prop where
  existing (key : Bytes) (channel : Channel) : before key = some channel →
    ChannelLaw actor channel (after key)
  created (key : Bytes) (channel : Channel) : before key = none → after key = some channel →
    NewChannel actor channel

/-! ## Changes that need no permission -/

/-- A change of a channel that moves no one but `actor`. -/
structure OwnChange (actor : Int) (before after : Channel) : Prop where
  modes : before.SameModes after
  topic : after.topic = before.topic
  members (fd : Int) : fd ≠ actor → (fd ∈ after.members ↔ fd ∈ before.members)
  operators (fd : Int) : fd ≠ actor → (fd ∈ after.operators ↔ fd ∈ before.operators)
  actor_operator : actor ∈ after.operators → actor ∈ before.operators
  invited (fd : Int) : fd ∈ after.invited → fd ∈ before.invited

namespace OwnChange

variable {actor : Int} {before between after : Channel}

theorem refl (actor : Int) (channel : Channel) : OwnChange actor channel channel :=
  ⟨Channel.SameModes.refl channel, rfl, fun _ _ => Iff.rfl, fun _ _ => Iff.rfl, id, fun _ => id⟩

theorem trans (first : OwnChange actor before between) (second : OwnChange actor between after) :
    OwnChange actor before after where
  modes := first.modes.trans second.modes
  topic := second.topic.trans first.topic
  members fd other := (second.members fd other).trans (first.members fd other)
  operators fd other := (second.operators fd other).trans (first.operators fd other)
  actor_operator := first.actor_operator ∘ second.actor_operator
  invited fd := first.invited fd ∘ second.invited fd

theorem admitMember (actor : Int) (channel : Channel) :
    OwnChange actor channel ((channel.addMember actor).removeInvite actor) where
  modes := ⟨rfl, rfl, rfl, rfl, rfl, rfl⟩
  topic := rfl
  members fd other := by simp [Ne.symm other]
  operators fd other := by simp
  actor_operator := by simp
  invited fd := by simp

theorem leave (actor : Int) (channel : Channel) :
    OwnChange actor channel ((channel.removeMember actor).removeInvite actor) where
  modes := ⟨rfl, rfl, rfl, rfl, rfl, rfl⟩
  topic := rfl
  members fd other := by simp [Ne.symm other]
  operators fd other := by simp [Ne.symm other]
  actor_operator := by simp
  invited fd := by simp

theorem law (change : OwnChange actor before after) : ChannelLaw actor before (some after) where
  modes changed same differ := by
    rw [Option.some.injEq] at same
    exact absurd (same ▸ change.modes) differ
  operator_added changed same fd added absent := by
    rw [Option.some.injEq] at same
    subst same
    by_cases own : fd = actor
    · exact absurd (own ▸ change.actor_operator (own ▸ added)) absent
    · exact absurd ((change.operators fd own).mp added) absent
  operator_lost fd operator other lost :=
    absurd ((change.operators fd other).mpr operator) (lost after rfl)
  invited_added changed same fd added absent := by
    rw [Option.some.injEq] at same
    exact absurd (change.invited fd (same ▸ added)) absent
  member_lost fd member other lost :=
    absurd ((change.members fd other).mpr member) (lost after rfl)
  topic changed same differ := by
    rw [Option.some.injEq] at same
    exact absurd (same ▸ change.topic) differ
  member_added changed same fd added absent := by
    rw [Option.some.injEq] at same
    by_contra other
    exact absent ((change.members fd other).mp (same ▸ added))

end OwnChange

/-- A channel that was deleted when its last member, the actor, left. -/
theorem ChannelLaw.of_deleted {actor : Int} {before : Channel}
    (only : ∀ fd ∈ before.members, fd = actor)
    (operators : ∀ fd ∈ before.operators, fd ∈ before.members) :
    ChannelLaw actor before none where
  modes _ same := by simp at same
  operator_added _ same := by simp at same
  operator_lost fd operator other _ := absurd (only fd (operators fd operator)) other
  invited_added _ same := by simp at same
  member_lost fd member other _ := absurd (only fd member) other
  topic _ same := by simp at same
  member_added _ same := by simp at same

/-- Every change that adds no member is allowed to an operator. -/
theorem ChannelLaw.of_operator {actor : Int} {before : Channel} {after : Option Channel}
    (operator : actor ∈ before.operators) (member : actor ∈ before.members)
    (noNewMember : ∀ changed, after = some changed → ∀ fd ∈ changed.members, fd ∈ before.members) :
    ChannelLaw actor before after where
  modes _ _ _ := operator
  operator_added _ _ _ _ _ := operator
  operator_lost _ _ _ _ := operator
  invited_added _ _ _ _ _ := operator
  member_lost _ _ _ _ := operator
  topic _ _ _ := ⟨member, Or.inl operator⟩
  member_added changed same fd added absent := absurd (noNewMember changed same fd added) absent

theorem ChannelLaw.of_topic {actor : Int} {before : Channel} {text : Bytes}
    (member : actor ∈ before.members)
    (allowed : before.topicRestricted = true → actor ∈ before.operators) :
    ChannelLaw actor before (some (before.setTopic text)) where
  modes changed same differ := by
    rw [Option.some.injEq] at same
    subst same
    exact absurd ⟨rfl, rfl, rfl, rfl, rfl, rfl⟩ differ
  operator_added changed same fd added absent := by
    rw [Option.some.injEq] at same
    subst same
    exact absurd added absent
  operator_lost fd operator _ lost := absurd operator (lost (before.setTopic text) rfl)
  invited_added changed same fd added absent := by
    rw [Option.some.injEq] at same
    subst same
    exact absurd added absent
  member_lost fd kept _ lost := absurd kept (lost (before.setTopic text) rfl)
  topic _ _ _ := by
    refine ⟨member, ?_⟩
    cases restricted : before.topicRestricted with
    | false => exact Or.inr rfl
    | true => exact Or.inl (allowed restricted)
  member_added changed same fd added absent := by
    rw [Option.some.injEq] at same
    subst same
    exact absurd added absent

/-! ## Chains of joins and of departures -/

variable {actor : Int} {start current next : Core}

/-- A chain of joins keeps every old channel up to moves of the actor, and every new
channel is as a creation leaves it. -/
structure JoinedSince (actor : Int) (start current : Core) : Prop where
  existing (key : Bytes) (channel : Channel) : start.channels key = some channel →
    ∃ changed, current.channels key = some changed ∧ OwnChange actor channel changed
  created (key : Bytes) (channel : Channel) : start.channels key = none →
    current.channels key = some channel → NewChannel actor channel

theorem JoinedSince.refl (actor : Int) (start : Core) : JoinedSince actor start start where
  existing _ channel found := ⟨channel, found, OwnChange.refl actor channel⟩
  created key channel missing found := by simp [missing] at found

theorem JoinedSince.step (since : JoinedSince actor start current)
    (effect : JoinEffect actor current next) : JoinedSince actor start next := by
  cases effect with
  | @create client name key _ _ _ missing =>
      constructor
      case existing =>
        intro other channel found
        rcases since.existing other channel found with ⟨changed, stored, own⟩
        refine ⟨changed, ?_, own⟩
        rw [Core.create_channels, if_neg]
        · exact stored
        · rintro rfl
          simp [missing] at stored
      case created =>
        intro other channel absent found
        rw [Core.create_channels] at found
        split at found
        next here =>
          rw [Option.some.injEq] at found
          subst found
          constructor <;> simp [eq_comm (a := actor)]
        · exact since.created other channel absent found
  | @admitMember client entered key _ _ foundChannel outside =>
      constructor
      case existing =>
        intro other channel found
        rcases since.existing other channel found with ⟨changed, stored, own⟩
        by_cases here : other = key
        · subst here
          rw [foundChannel, Option.some.injEq] at stored
          subst stored
          exact ⟨_, by simp, own.trans (OwnChange.admitMember actor entered)⟩
        · exact ⟨changed, by simpa [here] using stored, own⟩
      case created =>
        intro other channel absent found
        by_cases here : other = key
        · subst here
          have new := since.created other entered absent foundChannel
          exact absurd ((new.members actor).mpr rfl) outside
        · exact since.created other channel absent (by simpa [here] using found)

theorem JoinedSince.of_chain (chain : ReflTransGen (JoinEffect actor) start current) :
    JoinedSince actor start current := by
  induction chain with
  | refl => exact JoinedSince.refl actor start
  | tail _ effect ih => exact ih.step effect

/-- A chain of departures keeps every channel up to moves of the actor, or deletes a
channel whose only member was the actor, and creates none. -/
structure LeftSince (actor : Int) (start current : Core) : Prop where
  existing (key : Bytes) (channel : Channel) : start.channels key = some channel →
    (∃ changed, current.channels key = some changed ∧ OwnChange actor channel changed) ∨
      (current.channels key = none ∧ ∀ fd ∈ channel.members, fd = actor)
  created (key : Bytes) : start.channels key = none → current.channels key = none

theorem LeftSince.refl (actor : Int) (start : Core) : LeftSince actor start start where
  existing _ channel found := Or.inl ⟨channel, found, OwnChange.refl actor channel⟩
  created _ missing := missing

theorem LeftSince.step (since : LeftSince actor start current)
    (effect : LeaveEffect actor current next) : LeftSince actor start next := by
  cases effect with
  | @leave client left key _ foundChannel _ =>
      constructor
      case existing =>
        intro other channel found
        by_cases here : other = key
        · subst here
          rcases since.existing other channel found with ⟨changed, stored, own⟩ | ⟨missing, _⟩
          · rw [foundChannel, Option.some.injEq] at stored
            subst stored
            have moved := own.trans (OwnChange.leave actor left)
            by_cases empty : ((left.removeMember actor).removeInvite actor).isEmpty
            · right
              refine ⟨by simp [empty], ?_⟩
              intro fd member
              by_contra otherFd
              have kept := (moved.members fd otherFd).mpr member
              have nonempty := (Channel.isEmpty_eq_false_iff _).mpr ⟨fd, kept⟩
              rw [empty] at nonempty
              exact Bool.noConfusion nonempty
            · exact Or.inl ⟨_, by simp [empty], moved⟩
          · simp [foundChannel] at missing
        · simpa [here] using since.existing other channel found
      case created =>
        intro other missing
        have absent := since.created other missing
        have elsewhere : other ≠ key := by
          rintro rfl
          simp [foundChannel] at absent
        simpa [elsewhere] using absent

theorem LeftSince.of_chain (chain : ReflTransGen (LeaveEffect actor) start current) :
    LeftSince actor start current := by
  induction chain with
  | refl => exact LeftSince.refl actor start
  | tail _ effect ih => exact ih.step effect

/-! ## The law -/

theorem JoinedSince.law (since : JoinedSince actor start current) :
    CommandLaw actor start.channels current.channels where
  existing key channel found := by
    rcases since.existing key channel found with ⟨changed, stored, own⟩
    exact stored ▸ own.law
  created := since.created

theorem LeftSince.law (since : LeftSince actor start current) (consistent : start.Consistent) :
    CommandLaw actor start.channels current.channels where
  existing key channel found := by
    rcases since.existing key channel found with ⟨changed, stored, own⟩ | ⟨missing, only⟩
    · exact stored ▸ own.law
    · rw [missing]
      exact ChannelLaw.of_deleted only fun fd => consistent.operator_member key channel fd found
  created key channel missing found := by simp [since.created key missing] at found

/-- Nothing changes in the channels. -/
theorem CommandLaw.of_channels_eq (same : current.channels = start.channels) :
    CommandLaw actor start.channels current.channels := by
  rw [same]
  exact (JoinedSince.refl actor start).law

/-- One channel changes, within what the law allows to the actor. -/
theorem CommandLaw.of_change {key : Bytes} {channel : Channel} {after : Option Channel}
    (found : start.channels key = some channel)
    (channels : ∀ other, next.channels other = if other = key then after else start.channels other)
    (law : ChannelLaw actor channel after) : CommandLaw actor start.channels next.channels where
  existing other record foundOther := by
    rw [channels]
    by_cases here : other = key
    · subst here
      rw [found, Option.some.injEq] at foundOther
      subst foundOther
      simpa using law
    · rw [if_neg here, foundOther]
      exact (OwnChange.refl actor record).law
  created other record missing foundOther := by
    rw [channels] at foundOther
    split at foundOther
    next here =>
      subst here
      simp [found] at missing
    · simp [missing] at foundOther

theorem CommandEffect.law (consistent : start.Consistent)
    (effect : CommandEffect actor start next) :
    CommandLaw actor start.channels next.channels := by
  cases effect with
  | quiet => exact CommandLaw.of_channels_eq rfl
  | account => exact CommandLaw.of_channels_eq rfl
  | rename => exact CommandLaw.of_channels_eq rfl
  | joins chain => exact (JoinedSince.of_chain chain).law
  | leaves chain => exact (LeftSince.of_chain chain).law consistent
  | @kick client channel key target foundChannel operator _ _ =>
      refine CommandLaw.of_change foundChannel (fun other => Core.leave_channels ..) ?_
      refine ChannelLaw.of_operator operator
        (consistent.operator_member key channel actor foundChannel operator) ?_
      intro changed same fd member
      split at same
      · simp at same
      · rw [Option.some.injEq] at same
        subst same
        simp only [Channel.removeInvite_members, Channel.removeMember_members,
          ExtTreeSet.mem_erase] at member
        exact member.2
  | @invite client channel key target foundChannel operator _ _ =>
      refine CommandLaw.of_change foundChannel (fun other => Core.setChannel_channels ..) ?_
      refine ChannelLaw.of_operator operator
        (consistent.operator_member key channel actor foundChannel operator) ?_
      intro changed same fd member
      rw [Option.some.injEq] at same
      subst same
      exact member
  | @topic channel key text foundChannel member allowed =>
      refine CommandLaw.of_change foundChannel (fun other => Core.setChannel_channels ..) ?_
      exact ChannelLaw.of_topic member allowed
  | @modes before after key foundChannel operator change =>
      refine CommandLaw.of_change foundChannel (fun other => Core.setChannel_channels ..) ?_
      refine ChannelLaw.of_operator operator
        (consistent.operator_member key before actor foundChannel operator) ?_
      intro changed same fd member
      rw [Option.some.injEq] at same
      subst same
      rwa [← change.members]

namespace Server

/-- Every command dispatched in a reachable state obeys the permission law. -/
theorem dispatchCommand_law {server : Server} (reached : serverSystem.Reachable server)
    (fd : Int) (message : Message) :
    CommandLaw fd (fun key => server.channels[key]?)
      (fun key => (server.dispatchCommand fd message).channels[key]?) := by
  have consistent := reachable_consistent reached
  exact (dispatchCommand_effect consistent fd message).law consistent

/-- KICK by the operator of a channel. -/
theorem dispatchCommand_law_kick :
    CommandLaw 4 (fun key => twoMembers.channels[key]?)
        (fun key => (twoMembers.dispatchCommand 4
          { command := ascii "KICK", params := [ascii "#ROOM", ascii "Bob"] }).channels[key]?) ∧
      ((twoMembers.dispatchCommand 4
        { command := ascii "KICK", params := [ascii "#ROOM", ascii "Bob"] }).channels.toList.map
          fun entry => entry.2.members.toList) = [[4]] :=
  ⟨dispatchCommand_law reachable_twoMembers 4 _, by decide +kernel⟩

end Server

end IrcPlatform.Irc
