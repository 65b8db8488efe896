import Mathlib.Logic.Relation
import IrcPlatform.Irc.Relations

/-!
# Effects of commands on the core

`CommandEffect` lists everything a dispatched command can do to the core, with
the checks its handler made: nothing, a change of the sender's own account, a
sequence of joins or of departures of the sender, or one privileged change of a
channel. `dispatchCommand_effect` shows that the list is complete. Invariants
and permission laws are then proved by cases on the effect, without unfolding a
handler again.
-/

namespace IrcPlatform.Irc

open Std Relation

/-- A change of a client's own record that keeps its descriptor, its joined set and
its nickname, and never takes back the password or the registration. -/
structure AccountChange (before after : Client) : Prop where
  fd : after.fd = before.fd
  joined : after.joinedChannels = before.joinedChannels
  registered : before.registered = true → after.registered = true

/-- A change of the operators, modes, key and limit of a channel. -/
structure ModeChange (before after : Channel) : Prop where
  name : after.name = before.name
  keyName : after.keyName = before.keyName
  topic : after.topic = before.topic
  members : after.members = before.members
  invited : after.invited = before.invited
  operators : ∀ fd ∈ after.operators, fd ∈ before.operators ∨ fd ∈ before.members

/-- One admission of `actor` to a channel, new or existing. -/
inductive JoinEffect (actor : Int) (core : Core) : Core → Prop where
  | create {client : Client} {name key : Bytes} (found : core.clients actor = some client)
      (registered : client.registered = true) (normalized : IrcUtil.normalizeChannelName name = key)
      (missing : core.channels key = none) :
      JoinEffect actor core (core.create actor key client name)
  | admitMember {client : Client} {channel : Channel} {key : Bytes}
      (found : core.clients actor = some client) (registered : client.registered = true)
      (foundChannel : core.channels key = some channel) (outside : actor ∉ channel.members) :
      JoinEffect actor core (core.admitMember actor key client channel)

/-- One departure of `actor` from a channel it is in. -/
inductive LeaveEffect (actor : Int) (core : Core) : Core → Prop where
  | leave {client : Client} {channel : Channel} {key : Bytes}
      (found : core.clients actor = some client) (foundChannel : core.channels key = some channel)
      (member : actor ∈ channel.members) :
      LeaveEffect actor core (core.leave actor key client channel)

/-- What one dispatched command of `actor` can do to the core. -/
inductive CommandEffect (actor : Int) (core : Core) : Core → Prop where
  | quiet : CommandEffect actor core core
  | account {before after : Client} (found : core.clients actor = some before)
      (change : AccountChange before after) (nickname : after.nickname = before.nickname) :
      CommandEffect actor core (core.setClient actor after)
  | rename {before after : Client} {nickname : Bytes} (found : core.clients actor = some before)
      (change : AccountChange before after) (renamed : after.nickname = nickname)
      (valid : IrcUtil.isValidNickname nickname = true)
      (available : ∀ fd, core.nicks (IrcUtil.ircCaseFold nickname) = some fd → fd = actor) :
      CommandEffect actor core (core.rename actor before.nickname nickname after)
  | joins {after : Core} (chain : ReflTransGen (JoinEffect actor) core after) :
      CommandEffect actor core after
  | leaves {after : Core} (chain : ReflTransGen (LeaveEffect actor) core after) :
      CommandEffect actor core after
  | kick {client : Client} {channel : Channel} {key : Bytes} {target : Int}
      (foundChannel : core.channels key = some channel) (operator : actor ∈ channel.operators)
      (found : core.clients target = some client) (member : target ∈ channel.members) :
      CommandEffect actor core (core.leave target key client channel)
  | invite {client : Client} {channel : Channel} {key : Bytes} {target : Int}
      (foundChannel : core.channels key = some channel) (operator : actor ∈ channel.operators)
      (found : core.clients target = some client) (outside : target ∉ channel.members) :
      CommandEffect actor core (core.setChannel key (channel.addInvite target))
  | topic {channel : Channel} {key topic : Bytes} (foundChannel : core.channels key = some channel)
      (member : actor ∈ channel.members)
      (allowed : channel.topicRestricted = true → actor ∈ channel.operators) :
      CommandEffect actor core (core.setChannel key (channel.setTopic topic))
  | modes {before after : Channel} {key : Bytes} (foundChannel : core.channels key = some before)
      (operator : actor ∈ before.operators) (change : ModeChange before after) :
      CommandEffect actor core (core.setChannel key after)

/-! ## Effects keep the core consistent -/

theorem JoinEffect.consistent {actor : Int} {before after : Core}
    (effect : JoinEffect actor before after) (consistent : before.Consistent) :
    after.Consistent := by
  cases effect with
  | create found registered normalized missing =>
      exact consistent.create found missing registered normalized
  | admitMember found registered foundChannel _ =>
      exact consistent.admitMember found foundChannel registered

theorem JoinEffect.actor_registered {actor : Int} {before after : Core}
    (effect : JoinEffect actor before after) :
    ∃ member, after.clients actor = some member ∧ member.registered = true := by
  cases effect with
  | @create client _ key _ registered _ _ =>
      exact ⟨client.addJoinedChannel key, by simp, registered⟩
  | @admitMember client _ key _ registered _ _ =>
      exact ⟨client.addJoinedChannel key, by simp, registered⟩

theorem LeaveEffect.consistent {actor : Int} {before after : Core}
    (effect : LeaveEffect actor before after) (consistent : before.Consistent) :
    after.Consistent := by
  cases effect with
  | leave found foundChannel _ => exact consistent.leave found foundChannel

theorem JoinEffect.chain_consistent {actor : Int} {before after : Core}
    (chain : ReflTransGen (JoinEffect actor) before after) (consistent : before.Consistent) :
    after.Consistent := by
  induction chain with
  | refl => exact consistent
  | tail _ effect ih => exact effect.consistent ih

theorem LeaveEffect.chain_consistent {actor : Int} {before after : Core}
    (chain : ReflTransGen (LeaveEffect actor) before after) (consistent : before.Consistent) :
    after.Consistent := by
  induction chain with
  | refl => exact consistent
  | tail _ effect ih => exact effect.consistent ih

theorem CommandEffect.consistent {actor : Int} {before after : Core}
    (effect : CommandEffect actor before after) (consistent : before.Consistent) :
    after.Consistent := by
  cases effect with
  | quiet => exact consistent
  | account found change _ =>
      exact consistent.setClient found change.fd change.joined change.registered
  | rename found change _ _ _ =>
      exact (consistent.setClient found change.fd change.joined change.registered).of_nicks rfl rfl
  | joins chain => exact JoinEffect.chain_consistent chain consistent
  | leaves chain => exact LeaveEffect.chain_consistent chain consistent
  | kick foundChannel _ found _ => exact consistent.leave found foundChannel
  | @invite client channel key target foundChannel _ found outside =>
      refine consistent.setChannel foundChannel rfl rfl rfl
        (fun fd => consistent.operator_member key channel fd foundChannel) ?_
      intro fd invited
      simp only [Channel.addInvite_invited, ExtTreeSet.mem_insert,
        LawfulEqOrd.compare_eq_iff_eq] at invited
      rcases invited with rfl | invited
      · exact ⟨⟨client, found⟩, outside⟩
      · exact ⟨consistent.invited_live key channel fd foundChannel invited,
          consistent.invited_not_member key channel fd foundChannel invited⟩
  | @topic channel key _ foundChannel _ _ =>
      exact consistent.setChannel foundChannel rfl rfl rfl
        (fun fd => consistent.operator_member key channel fd foundChannel)
        (fun fd invited => ⟨consistent.invited_live key channel fd foundChannel invited,
          consistent.invited_not_member key channel fd foundChannel invited⟩)
  | @modes channel _ key foundChannel _ change =>
      refine consistent.setChannel foundChannel change.name change.keyName change.members ?_ ?_
      · intro fd operator
        rcases change.operators fd operator with operator | member
        · exact consistent.operator_member key channel fd foundChannel operator
        · exact member
      · intro fd invited
        rw [change.invited] at invited
        exact ⟨consistent.invited_live key channel fd foundChannel invited,
          consistent.invited_not_member key channel fd foundChannel invited⟩

end IrcPlatform.Irc
