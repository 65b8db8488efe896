import IrcPlatform.Irc.Kept

/-!
# How a PRIVMSG line is taken

What the server does with one PRIVMSG line of a registered client that names a
single target: it relays the text under the prefix of the client, or answers
with an error.
-/

namespace IrcPlatform.Irc.Server

open Std

/-- The client and the target of a line that is a PRIVMSG with a text from a registered
client. -/
def takesPrivmsg (server : Server) (fd : Int) (line : Bytes) : Option (Client × Bytes × Bytes) :=
  match server.findClientByFd fd, Parser.parse line with
  | some client, some message =>
      match message.params with
      | target :: text :: _ =>
          if client.registered && message.command == ascii "PRIVMSG" && !text.isEmpty then
            some (client, target, text)
          else none
      | _ => none
  | _, _ => none

/-- The line is relayed to the channel it names, as coming from a member. -/
def acceptsFromMember (server : Server) (fd : Int) (line channelName : Bytes) : Bool :=
  match server.takesPrivmsg fd line with
  | none => false
  | some (_, target, _) =>
      target == channelName && target.head? == some (byte '#') &&
        (server.findChannel target).any (·.hasMember fd)

/-- The line is relayed to its target, a channel or a client. -/
def relays (server : Server) (fd : Int) (line : Bytes) : Bool :=
  match server.takesPrivmsg fd line with
  | none => false
  | some (_, target, _) =>
      if target.head? = some (byte '#') then (server.findChannel target).any (·.hasMember fd)
      else (server.findClientByNickname target).isSome

/-- The nickname the server has for a descriptor. -/
def nicknameOf (server : Server) (fd : Int) : Bytes :=
  ((server.findClientByFd fd).map (·.nickname)).getD []

variable {server : Server} {fd : Int} {line : Bytes} {client : Client} {target text : Bytes}

/-- A line that is taken is dispatched to the single target it names. -/
theorem processLine_of_takesPrivmsg
    (taken : server.takesPrivmsg fd line = some (client, target, text))
    (single : byte ',' ∉ target) (named : target ≠ []) :
    server.findClientByFd fd = some client ∧ client.registered = true ∧
      server.processLine fd line =
        (server.record (.dispatched fd (server.pendingDisconnects.contains fd))).privmsgTarget
          fd text target := by
  unfold takesPrivmsg at taken
  split at taken
  next stored message found parsed =>
    split at taken
    next first second rest params =>
      split at taken
      next ready =>
        simp only [Bool.and_eq_true, beq_iff_eq, Bool.not_eq_true'] at ready
        rcases ready with ⟨⟨registered, command⟩, nonempty⟩
        simp only [Option.some.injEq, Prod.mk.injEq] at taken
        rcases taken with ⟨rfl, rfl, rfl⟩
        refine ⟨found, registered, ?_⟩
        have entry : commandTable.find? (·.name == message.command) =
            some ⟨ascii "PRIVMSG", handlePrivmsg, true, false⟩ := by
          rw [command]
          rfl
        have elements : IrcUtil.splitCommaList first = [first] := by
          unfold IrcUtil.splitCommaList
          rw [if_neg (by simpa using named)]
          have joined : ([byte ','].intercalate [first]).splitOn (byte ',') = [first] :=
            List.splitOn_intercalate (byte ',') (by simpa using single) (by simp)
          simpa using joined
        unfold processLine invokeDispatch
        rw [parsed]
        simp only
        unfold dispatchCommand
        rw [findClientByFd_record, found]
        simp only [entry, registered, Bool.not_true, Bool.false_and, Bool.false_eq_true, if_false,
          Bool.and_false]
        unfold handlePrivmsg
        rw [findClientByFd_record, found]
        simp only [params, List.headD_cons, nonempty, Bool.false_eq_true, if_false, elements]
        rfl
      · simp at taken
    · simp at taken
  · simp at taken

/-- An accepted line goes to the other members under the prefix of the sender. -/
theorem processLine_of_acceptsFromMember {channelName : Bytes}
    (accepted : server.acceptsFromMember fd line channelName = true)
    (single : byte ',' ∉ channelName) :
    ∃ client channel text, server.findClientByFd fd = some client ∧
      client.registered = true ∧ server.findChannel channelName = some channel ∧
      fd ∈ channel.members ∧ server.processLine fd line =
        (server.record (.dispatched fd (server.pendingDisconnects.contains fd))).broadcastToChannel
          channel (Reply.command (Reply.clientPrefix client) (ascii "PRIVMSG")
            (channel.name ++ ascii " :" ++ text)) fd := by
  unfold acceptsFromMember at accepted
  split at accepted
  · simp at accepted
  next client target text taken =>
    simp only [Bool.and_eq_true, beq_iff_eq] at accepted
    rcases accepted with ⟨⟨rfl, hash⟩, member⟩
    rcases (Option.any_eq_true _ _).mp member with ⟨channel, foundChannel, member⟩
    have named : target ≠ [] := by
      rintro rfl
      simp at hash
    rcases processLine_of_takesPrivmsg taken single named with ⟨found, registered, processed⟩
    have isMember : fd ∈ channel.members := by simpa [Channel.hasMember] using member
    refine ⟨client, channel, text, found, registered, foundChannel, isMember, ?_⟩
    rw [processed]
    unfold privmsgTarget
    rw [findClientByFd_record, found]
    simp only [hash, if_true]
    have sameChannel : (server.record (.dispatched fd
        (server.pendingDisconnects.contains fd))).findChannel target = some channel := foundChannel
    rw [sameChannel]
    simp only [member, Bool.not_true, Bool.false_eq_true, if_false]

end IrcPlatform.Irc.Server
