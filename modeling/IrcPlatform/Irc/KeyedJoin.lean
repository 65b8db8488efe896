import IrcPlatform.Irc.Grammar
import IrcPlatform.Irc.Settings
import IrcPlatform.Library.Splitting

/-!
# Joining with the key of a channel

A JOIN line carries every key that MODE accepts to the server unchanged. The handler then cuts
the parameter at its commas, so a key opens its channel exactly when it has none.
-/

namespace IrcPlatform.Irc

open Std

namespace IrcUtil

theorem splitCommaList_of_plain {value : Bytes} (nonempty : value ≠ [])
    (plain : byte ',' ∉ value) : splitCommaList value = [value] := by
  have notEmpty : value.isEmpty = false := by simpa using nonempty
  rw [splitCommaList, notEmpty]
  exact List.splitOn_eq_singleton plain

/-- The first element of a list is all of it only when there is no comma. -/
theorem headD_splitCommaList_iff {value : Bytes} (nonempty : value ≠ []) :
    (splitCommaList value).headD [] = value ↔ byte ',' ∉ value := by
  constructor
  · intro whole
    have notEmpty : value.isEmpty = false := by simpa using nonempty
    rw [splitCommaList, notEmpty] at whole
    rcases List.exists_cons_of_ne_nil (List.splitOn_ne_nil (byte ',') value) with
      ⟨first, rest, pieces⟩
    simp only [Bool.false_eq_true, if_false, pieces, List.headD_cons] at whole
    have listed : first ∈ value.splitOn (byte ',') := pieces ▸ List.mem_cons_self
    exact whole ▸ not_mem_of_mem_splitOn listed
  · intro plain
    rw [splitCommaList_of_plain nonempty plain, List.headD_cons]

/-- What stands in the way of a channel name in a line or a list. -/
theorem forbidden_of_isValidChannelName {name : Bytes} (valid : isValidChannelName name = true) :
    name ≠ [] ∧ name.head? = some (byte '#') ∧ byte ' ' ∉ name ∧ byte ',' ∉ name ∧ 0 ∉ name := by
  cases name with
  | nil => simp [isValidChannelName] at valid
  | cons first rest =>
      simp only [isValidChannelName, Bool.and_eq_true, beq_iff_eq, List.all_eq_true,
        Bool.not_eq_true', Bool.or_eq_false_iff, beq_eq_false_iff_ne] at valid
      rcases valid with ⟨⟨_, rfl⟩, allowed⟩
      refine ⟨List.cons_ne_nil _ _, rfl, ?_, ?_, ?_⟩
      · rw [List.mem_cons, not_or]
        exact ⟨by decide, fun listed => (allowed _ listed).1.1.1.1.1.1 rfl⟩
      · rw [List.mem_cons, not_or]
        exact ⟨by decide, fun listed => (allowed _ listed).1.1.1.1.1.2 rfl⟩
      · rw [List.mem_cons, not_or]
        exact ⟨by decide, fun listed => (allowed _ listed).2 rfl⟩

end IrcUtil

theorem nonempty_of_isValidChannelKey {key : Bytes} (valid : isValidChannelKey key = true) :
    key ≠ [] ∧ 0 ∉ key := by
  simp only [isValidChannelKey, Bool.and_eq_true, Bool.not_eq_true', List.isEmpty_eq_false_iff,
    List.all_eq_true, Bool.or_eq_false_iff, beq_eq_false_iff_ne] at valid
  exact ⟨valid.1.1, fun listed => (valid.2 0 listed).1.1.1.2 rfl⟩

/-- A JOIN to one channel with a key. -/
def keyedJoin (name key : Bytes) : Message where
  command := ascii "JOIN"
  params := [name, key]

theorem keyedJoin_writable {name key : Bytes} (validName : IrcUtil.isValidChannelName name = true)
    (validKey : isValidChannelKey key = true) : (keyedJoin name key).Writable := by
  rcases IrcUtil.forbidden_of_isValidChannelName validName with
    ⟨nonempty, first, spaceless, _, nameNul⟩
  have word : ascii "JOIN" ≠ [] ∧ byte ' ' ∉ ascii "JOIN" ∧ 0 ∉ ascii "JOIN" := by decide
  have upper : ∀ c ∈ ascii "JOIN", ¬(byte 'a' ≤ c ∧ c ≤ byte 'z') := by decide +kernel
  have noColon : (ascii "JOIN").head? ≠ some (byte ':') := by decide
  constructor
  · exact ⟨List.not_mem_nil, List.not_mem_nil⟩
  · exact word
  · exact upper
  · intro _
    exact noColon
  · simp [keyedJoin]
  · intro param listed
    simp only [keyedJoin, List.mem_cons, List.not_mem_nil, or_false] at listed
    rcases listed with rfl | rfl
    · exact nameNul
    · exact (nonempty_of_isValidChannelKey validKey).2
  · intro param listed
    have same : param = name := by simpa [keyedJoin] using listed
    rw [same, first]
    exact ⟨nonempty, by decide, spaceless⟩

namespace Server

variable {server : Server} {fd : Int} {client : Client} {name : Bytes} {channel : Channel}

theorem not_isMember_of_outside (present : server.findChannel name = some channel)
    (outside : fd ∉ channel.members) :
    ¬server.core.IsMember fd (IrcUtil.normalizeChannelName name) := by
  rintro ⟨stored, foundStored, member⟩
  rw [core_channels_of_find, present, Option.some.injEq] at foundStored
  exact outside (foundStored ▸ member)

/-- A client outside that passes the other rules needs the key and nothing else. -/
theorem admits_iff_key (valid : IrcUtil.isValidChannelName name = true)
    (present : server.findChannel name = some channel) (keyed : channel.keyEnabled = true)
    (outside : fd ∉ channel.members) (invite : channel.PassesInvite fd) (room : channel.HasRoom)
    (given : Bytes) : server.Admits fd name given ↔ given = channel.channelKey := by
  constructor
  · intro admits
    exact ((admits.existing channel present).2.1 keyed).symm
  · intro right
    refine ⟨valid, not_isMember_of_outside present outside, ?_⟩
    intro stored foundStored
    rw [present, Option.some.injEq] at foundStored
    rw [← foundStored]
    exact ⟨invite, fun _ => right.symm, room⟩

/-- The line with the key of the channel is read as it is meant, and it makes its sender a
member exactly when the key has no comma. -/
theorem keyedJoin_iff (reached : stepSystem.Reachable server)
    (found : server.findClientByFd fd = some client) (registered : client.registered = true)
    (present : server.findChannel name = some channel) (keyed : channel.keyEnabled = true)
    (outside : fd ∉ channel.members) (invite : channel.PassesInvite fd)
    (room : channel.HasRoom) :
    Parser.parse ((keyedJoin name channel.channelKey).write fun _ => 1) =
        some (keyedJoin name channel.channelKey) ∧
      ∀ message further, message.command = ascii "JOIN" →
        message.params = name :: channel.channelKey :: further →
        ((∃ changed, (server.dispatchCommand fd message).findChannel name = some changed ∧
          fd ∈ changed.members) ↔ byte ',' ∉ channel.channelKey) := by
  have wellFormed := step_reachable_wellFormed reached
  have validName : IrcUtil.isValidChannelName name = true := by
    rw [← IrcUtil.isValidChannelName_normalize]
    exact wellFormed.names _ channel present
  have validKey : isValidChannelKey channel.channelKey = true :=
    (step_reachable_settled reached _ channel present).key keyed
  have nonempty := (nonempty_of_isValidChannelKey validKey).1
  rcases IrcUtil.forbidden_of_isValidChannelName validName with
    ⟨named, first, _, plainName, _⟩
  refine ⟨Parser.parse_write (keyedJoin_writable validName validKey) fun _ => Nat.one_pos, ?_⟩
  intro message further command params
  have notAll : name ≠ ascii "0" := by
    intro same
    rw [same] at first
    exact absurd first (by decide)
  have single : server.dispatchCommand fd message =
      server.joinElement fd name ((IrcUtil.splitCommaList channel.channelKey).headD []) := by
    rw [dispatchCommand_joinElements found registered command params notAll,
      IrcUtil.splitCommaList_of_plain named plainName]
    rfl
  have notMember := not_isMember_of_outside present outside
  have law := (joinElement_law wellFormed found name
    ((IrcUtil.splitCommaList channel.channelKey).headD [])).added_iff
  rw [← IrcUtil.headD_splitCommaList_iff nonempty,
    ← admits_iff_key validName present keyed outside invite room, ← law, ← single]
  constructor
  · intro inside
    exact ⟨notMember, inside⟩
  · intro both
    exact both.2

/-- A channel with this key, and a client outside. -/
def guardedRoom (key : Bytes) : Server :=
  stepMachine.performOr alicesRoom
    (.command 4 { command := ascii "MODE", params := [ascii "#room", ascii "+k", key] } ::
      enterSteps 6 (ascii "carol") (ascii "#other"))

theorem reachable_guardedRoom (key : Bytes) : stepSystem.Reachable (guardedRoom key) :=
  Machine.reachable_performOr reachable_alicesRoom _

theorem keyedJoin_iff_carol : ∃ channel,
    (guardedRoom (ascii "a:b")).findChannel (ascii "#room") = some channel ∧
    Parser.parse ((keyedJoin (ascii "#room") channel.channelKey).write fun _ => 1) =
        some (keyedJoin (ascii "#room") channel.channelKey) ∧
      ∀ message further, message.command = ascii "JOIN" →
        message.params = ascii "#room" :: channel.channelKey :: further →
        ((∃ changed, ((guardedRoom (ascii "a:b")).dispatchCommand 6 message).findChannel
            (ascii "#room") = some changed ∧ (6 : Int) ∈ changed.members) ↔
          byte ',' ∉ channel.channelKey) := by
  have facts : ((guardedRoom (ascii "a:b")).findClientByFd 6).map (·.registered) = some true ∧
      ((guardedRoom (ascii "a:b")).findChannel (ascii "#room")).map (fun channel =>
        (channel.keyEnabled, channel.hasMember 6, channel.inviteOnly, channel.limitEnabled)) =
          some (true, false, false, false) := by
    decide +kernel
  rcases Option.map_eq_some_iff.mp facts.1 with ⟨carol, found, registered⟩
  rcases Option.map_eq_some_iff.mp facts.2 with ⟨channel, present, modes⟩
  simp only [Prod.mk.injEq] at modes
  rcases modes with ⟨keyed, member, invite, limit⟩
  have outside : (6 : Int) ∉ channel.members := by
    intro inside
    rw [Channel.hasMember, ExtTreeSet.mem_iff_contains.mp inside] at member
    exact Bool.noConfusion member
  refine ⟨channel, present, ?_⟩
  exact keyedJoin_iff (reachable_guardedRoom _) found registered present keyed outside
    (fun on => by rw [invite] at on; exact Bool.noConfusion on)
    (fun on => by rw [limit] at on; exact Bool.noConfusion on)

/-- MODE accepts the key, and the client who sends it is told that it is wrong. -/
theorem guardedRoom_comma :
    stepSystem.Reachable (guardedRoom (ascii "a,b")) ∧
    ((guardedRoom (ascii "a,b")).findClientByFd 6).map (·.registered) = some true ∧
    ((guardedRoom (ascii "a,b")).findChannel (ascii "#room")).map (fun channel =>
      (channel.keyEnabled, channel.channelKey, channel.hasMember 6, channel.inviteOnly,
        channel.limitEnabled)) = some (true, ascii "a,b", false, false, false) ∧
    Parser.parse (ascii "JOIN #room a,b") = some (keyedJoin (ascii "#room") (ascii "a,b")) ∧
    (((guardedRoom (ascii "a,b")).dispatchCommand 6
      (keyedJoin (ascii "#room") (ascii "a,b"))).findChannel (ascii "#room")).map
        (fun channel => channel.hasMember 6) = some false := by
  have facts : ((guardedRoom (ascii "a,b")).findClientByFd 6).map (·.registered) = some true ∧
      ((guardedRoom (ascii "a,b")).findChannel (ascii "#room")).map (fun channel =>
        (channel.keyEnabled, channel.channelKey, channel.hasMember 6, channel.inviteOnly,
          channel.limitEnabled)) = some (true, ascii "a,b", false, false, false) ∧
      (((guardedRoom (ascii "a,b")).dispatchCommand 6
        (keyedJoin (ascii "#room") (ascii "a,b"))).findChannel (ascii "#room")).map
          (fun channel => channel.hasMember 6) = some false := by
    decide +kernel
  exact ⟨reachable_guardedRoom _, facts.1, facts.2.1, rfl, facts.2.2⟩

end Server

end IrcPlatform.Irc
