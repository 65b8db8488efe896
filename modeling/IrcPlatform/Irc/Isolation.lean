import IrcPlatform.Irc.Closing

/-!
# Unregistered clients

A client that has not completed its registration is in no channel, and the
commands open to it write to its own record and its own index entry only. So
nothing it sends, nor its disconnection, is seen by anybody else. In the other
direction it hears from others only by its nickname, which it can hold before
it gave the password.
-/

namespace IrcPlatform.Irc

open Std Relation

/-- Nothing changes outside the record and the index entries of one descriptor. -/
structure Confined (fd : Int) (before after : Server) : Prop where
  others (other : Int) : other ≠ fd → after.clients[other]? = before.clients[other]?
  channels : after.channels = before.channels
  nicknames (key : Bytes) (other : Int) : other ≠ fd →
    (after.nickToFd[key]? = some other ↔ before.nickToFd[key]? = some other)

namespace Confined

variable {fd : Int} {before between after : Server}

theorem refl (fd : Int) (server : Server) : Confined fd server server :=
  ⟨fun _ _ => rfl, rfl, fun _ _ _ => Iff.rfl⟩

theorem trans (first : Confined fd before between) (second : Confined fd between after) :
    Confined fd before after where
  others other distinct := (second.others other distinct).trans (first.others other distinct)
  channels := second.channels.trans first.channels
  nicknames key other distinct :=
    (second.nicknames key other distinct).trans (first.nicknames key other distinct)

theorem updateClient (server : Server) (fd : Int) (change : Client → Client) :
    Confined fd server (server.updateClient fd change) where
  others other distinct := by
    have lookup := server.findClientByFd_updateClient_eq fd change other
    rwa [if_neg distinct] at lookup
  channels := rfl
  nicknames _ _ _ := Iff.rfl

theorem queueToClient (server : Server) (fd : Int) (message : Bytes) :
    Confined fd server (server.queueToClient fd message) where
  others other distinct := by
    have lookup := server.findClientByFd_queueToClient fd message other
    rwa [if_neg distinct] at lookup
  channels := server.channels_queueToClient fd message
  nicknames key other _ := by
    rw [(SameRecords.queueToClient server fd message).nickToFd]

end Confined

namespace Server

variable {server : Server} {fd : Int} {client : Client}

/-! ## The commands open to everybody -/

theorem requireParams_confined (server : Server) (fd : Int) (message : Message) (count : Nat) :
    Confined fd server (server.requireParams fd message count).2 := by
  simp only [requireParams]
  split
  · exact Confined.refl fd server
  · split
    · exact Confined.refl fd server
    · exact Confined.queueToClient server fd _

theorem sendWelcomeSequence_confined (server : Server) (own : client.fd = fd) :
    Confined fd server (server.sendWelcomeSequence client) := by
  subst own
  have first := Confined.queueToClient server client.fd
  exact (((first _).trans (Confined.queueToClient _ _ _)).trans
    (Confined.queueToClient _ _ _)).trans
    ((Confined.queueToClient _ _ _).trans (Confined.queueToClient _ _ _))

theorem tryRegisterClient_confined
    (own : ∀ client, server.findClientByFd fd = some client → client.fd = fd) :
    Confined fd server (server.tryRegisterClient fd) := by
  simp only [tryRegisterClient]
  split
  · exact Confined.refl fd server
  next client found =>
    have ownCompleted : client.tryCompleteRegistration.2.fd = fd := by
      rw [(accountChange_tryCompleteRegistration client).1.fd]
      exact own client found
    have written := Confined.updateClient server fd fun _ => client.tryCompleteRegistration.2
    split
    · exact written.trans (sendWelcomeSequence_confined _ ownCompleted)
    · exact written

theorem renameClient_confined (named : server.core.Named)
    (found : server.findClientByFd fd = some client) {nickname : Bytes}
    (available : server.isNicknameAvailable nickname fd = true) :
    Confined fd server (server.renameClient fd client nickname) := by
  have free : ∀ other, server.nickToFd[IrcUtil.ircCaseFold nickname]? = some other →
      other = fd := by
    intro other entry
    simpa [isNicknameAvailable, entry] using available
  -- The entry that goes is the one of the client itself.
  have unregistering : Confined fd server (if client.nickname.isEmpty then server
      else server.unregisterNickname client.nickname) := by
    split
    · exact Confined.refl fd server
    next nonempty =>
      have entry := named.indexed fd client.withoutBuffers
        (core_clients_of_find server fd found) (by simpa [Client.withoutBuffers] using nonempty)
      refine ⟨fun _ _ => rfl, rfl, ?_⟩
      intro key other distinct
      simp only [unregisterNickname, ExtTreeMap.getElem?_erase, LawfulEqOrd.compare_eq_iff_eq]
      split
      next same =>
        subst same
        have own : server.nickToFd[IrcUtil.ircCaseFold client.nickname]? = some fd := entry
        simp [own, Ne.symm distinct]
      · exact Iff.rfl
  have registering : Confined fd server ((if client.nickname.isEmpty then server
      else server.unregisterNickname client.nickname).registerNickname fd nickname) := by
    refine ⟨unregistering.others, unregistering.channels, ?_⟩
    intro key other distinct
    simp only [registerNickname, ExtTreeMap.getElem?_insert, LawfulEqOrd.compare_eq_iff_eq]
    split
    next same =>
      subst same
      constructor
      · intro entry
        rw [Option.some.injEq] at entry
        exact absurd entry.symm distinct
      · intro entry
        exact absurd (free other entry) distinct
    · exact unregistering.nicknames key other distinct
  exact registering.trans (Confined.updateClient _ fd _)

theorem own_fd_of_consistent (consistent : server.core.Consistent)
    (found : server.findClientByFd fd = some client) : client.fd = fd :=
  consistent.client_fd fd client.withoutBuffers (core_clients_of_find server fd found)

/-- The attempt to register after a change of the sender's own record. -/
theorem tryRegister_updated_confined (consistent : server.core.Consistent) (fd : Int)
    {change : Client → Client} (kept : ∀ client, (change client).fd = client.fd) :
    Confined fd server ((server.updateClient fd change).tryRegisterClient fd) := by
  refine (Confined.updateClient server fd change).trans (tryRegisterClient_confined ?_)
  intro client found
  rw [findClientByFd_updateClient_eq, if_pos rfl] at found
  rcases Option.map_eq_some_iff.mp found with ⟨old, foundOld, rfl⟩
  rw [kept]
  exact own_fd_of_consistent consistent foundOld

theorem handlePass_confined (consistent : server.core.Consistent) (fd : Int)
    (message : Message) : Confined fd server (server.handlePass fd message) := by
  simp only [handlePass]
  split
  · exact Confined.refl fd server
  · split
    · exact requireParams_confined server fd message 1
    · split
      · exact Confined.queueToClient server fd _
      · exact tryRegister_updated_confined consistent fd fun _ => rfl

theorem handleUser_confined (consistent : server.core.Consistent) (fd : Int)
    (message : Message) : Confined fd server (server.handleUser fd message) := by
  simp only [handleUser]
  split
  · exact Confined.refl fd server
  · split
    · exact Confined.queueToClient server fd _
    · split
      · split
        · exact Confined.queueToClient server fd _
        · exact tryRegister_updated_confined consistent fd fun _ => rfl
      · exact requireParams_confined server fd message 4

theorem handleNick_confined (consistent : server.core.Consistent) (named : server.core.Named)
    (found : server.findClientByFd fd = some client) (unregistered : client.registered = false)
    (message : Message) : Confined fd server (server.handleNick fd message) := by
  simp only [handleNick, found]
  split
  · exact Confined.queueToClient server fd _
  next nickname _ _ =>
    split
    · exact Confined.queueToClient server fd _
    · split
      · exact Confined.queueToClient server fd _
      next taken =>
        have available : server.isNicknameAvailable nickname fd = true := by simpa using taken
        simp only [unregistered, Bool.false_eq_true, if_false]
        refine (renameClient_confined named found available).trans
          (tryRegisterClient_confined ?_)
        intro renamed foundRenamed
        rw [find_renameClient found nickname, Option.some.injEq] at foundRenamed
        have own := own_fd_of_consistent consistent found
        rw [← foundRenamed]
        exact own

theorem handleCap_confined (server : Server) (fd : Int) (message : Message) :
    Confined fd server (server.handleCap fd message) := by
  simp only [handleCap]
  split
  · split
    · exact Confined.queueToClient server fd _
    · split
      · exact Confined.queueToClient server fd _
      · exact Confined.refl fd server
  · exact Confined.refl fd server

theorem handlePing_confined (server : Server) (fd : Int) (message : Message) :
    Confined fd server (server.handlePing fd message) := by
  simp only [handlePing]
  split
  · exact Confined.refl fd server
  · split
    · exact Confined.queueToClient server fd _
    · exact Confined.queueToClient server fd _

theorem handleQuit_confined (server : Server) (fd : Int) (message : Message) :
    Confined fd server (server.handleQuit fd message) := by
  simp only [handleQuit]
  split
  · exact Confined.refl fd server
  · exact ⟨fun _ _ => rfl, rfl, fun _ _ _ => Iff.rfl⟩

theorem dispatchCommand_confined (consistent : server.core.Consistent)
    (named : server.core.Named) (found : server.findClientByFd fd = some client)
    (unregistered : client.registered = false) (message : Message) :
    Confined fd server (server.dispatchCommand fd message) := by
  have happened := dispatchCommand_cases found message
  generalize server.dispatchCommand fd message = after at happened
  cases happened with
  | unknown _ registered => simp [unregistered] at registered
  | ignored _ _ => exact Confined.refl fd server
  | refused _ _ _ _ => exact Confined.queueToClient server fd _
  | rejected _ _ _ registered => simp [unregistered] at registered
  | handled listed _ admitted _ =>
      rw [unregistered] at admitted
      simp only [commandTable, List.mem_cons, List.not_mem_nil, or_false] at listed
      rcases listed with
        rfl | rfl | rfl | rfl | rfl | rfl | rfl | rfl | rfl | rfl | rfl | rfl | rfl | rfl
      · exact handlePass_confined consistent fd message
      · exact handleNick_confined consistent named found unregistered message
      · exact handleUser_confined consistent fd message
      · exact handleCap_confined server fd message
      · exact handlePing_confined server fd message
      · exact Confined.refl fd server
      · exact handleQuit_confined server fd message
      -- The other seven commands need a registration.
      all_goals exact Bool.noConfusion (admitted rfl)

/-! ## The disconnection -/

theorem not_member_of_unregistered (consistent : server.core.Consistent)
    (found : server.findClientByFd fd = some client) (unregistered : client.registered = false)
    {key : Bytes} {channel : Channel} (stored : server.channels[key]? = some channel) :
    fd ∉ channel.members := by
  intro member
  have registered := consistent.member_registered key channel fd client.withoutBuffers stored
    member (core_clients_of_find server fd found)
  have flag : client.withoutBuffers.registered = client.registered := rfl
  rw [flag, unregistered] at registered
  exact Bool.noConfusion registered

theorem sharesChannel_of_unregistered (consistent : server.core.Consistent)
    (found : server.findClientByFd fd = some client) (unregistered : client.registered = false)
    (other : Int) : server.sharesChannel fd other = false := by
  rw [Bool.eq_false_iff]
  intro shares
  rcases (sharesChannel_iff consistent fd other).mp shares with ⟨_, key, joined, _⟩
  rcases (consistent.isMember_iff fd key).mpr joined with ⟨channel, stored, member⟩
  exact not_member_of_unregistered consistent found unregistered stored member

end Server

theorem DisconnectEffect.nicks {fd : Int} {before after : Core} {client : Client}
    (effect : DisconnectEffect fd before after) (found : before.clients fd = some client) :
    after.nicks = (before.unname client.nickname).nicks := by
  cases effect with
  | absent missing => simp [found] at missing
  | @closed record left foundRecord departures _ =>
      rw [found, Option.some.injEq] at foundRecord
      subst foundRecord
      have same := sameNames_of_chain (fun _ _ => LeaveEffect.sameNames) departures
      change (left.unname client.nickname).nicks = _
      simp only [Core.unname, same.nicks]

namespace Server

variable {server : Server} {fd : Int} {client : Client}

/-- What the disconnection of an unregistered client changes elsewhere. -/
structure SilentlyClosed (fd : Int) (before after : Server) : Prop where
  others (other : Int) : other ≠ fd → after.clients[other]? = before.clients[other]?
  channels (key : Bytes) : after.channels[key]? =
    before.channels[key]?.map (·.removeInvite fd)
  nicknames (key : Bytes) (other : Int) : other ≠ fd →
    (after.nickToFd[key]? = some other ↔ before.nickToFd[key]? = some other)

theorem disconnectClient_silent (consistent : server.core.Consistent)
    (named : server.core.Named) (found : server.findClientByFd fd = some client)
    (unregistered : client.registered = false) (reason : Bytes) :
    SilentlyClosed fd server (server.disconnectClient fd reason) := by
  have stored := core_clients_of_find server fd found
  have effect := disconnectClient_effect consistent fd reason
  have live : server.core.clients fd ≠ none := by
    rw [stored]
    exact Option.some_ne_none _
  constructor
  case others =>
    intro other distinct
    have lookup := (disconnectClient_disconnected found reason).others other distinct
    rwa [sharesChannel_of_unregistered consistent found unregistered, if_neg (by simp)] at lookup
  case channels =>
    intro key
    have result : (server.disconnectClient fd reason).channels[key]? =
        server.channels[key]?.bind (Channel.without fd) := effect.channels consistent live key
    rw [result]
    cases lookup : server.channels[key]? with
    | none => rfl
    | some channel =>
        rcases consistent.nonempty key channel lookup with ⟨other, member⟩
        exact Channel.without_of_outside
          (not_member_of_unregistered consistent found unregistered lookup)
          (fun other => consistent.operator_member key channel other lookup) member
  case nicknames =>
    intro key other distinct
    have result : (server.disconnectClient fd reason).nickToFd[key]? =
        (server.core.unname client.nickname).nicks key := congrFun (effect.nicks stored) key
    rw [result]
    simp only [Core.unname]
    split
    next own =>
      have entry := named.indexed fd client.withoutBuffers stored own.1
      have held : server.nickToFd[key]? = some fd := by
        rw [own.2]
        exact entry
      simp [held, Ne.symm distinct]
    · exact Iff.rfl

/-! ## The law -/

/-- Whatever an unregistered client sends, and however its connection ends, nothing
changes for anybody else. -/
theorem unregistered_confined (reached : stepSystem.Reachable server)
    (found : server.findClientByFd fd = some client) (unregistered : client.registered = false) :
    (∀ message, Confined fd server (server.dispatchCommand fd message)) ∧
      ∀ reason, SilentlyClosed fd server (server.disconnectClient fd reason) := by
  have consistent := step_reachable_consistent reached
  have named := step_reachable_named reached
  exact ⟨dispatchCommand_confined consistent named found unregistered,
    disconnectClient_silent consistent named found unregistered⟩

/-- A third client has a nickname but has not registered. -/
def carolWaits : Server :=
  stepMachine.performOr alicesRoom
    [.accept 6 (ascii "127.0.0.1"),
      .command 6 { command := ascii "NICK", params := [ascii "carol"] }]

theorem reachable_carolWaits : stepSystem.Reachable carolWaits :=
  Machine.reachable_performOr reachable_alicesRoom _

theorem carolWaits_clients :
    (carolWaits.findClientByFd 6).map (fun client =>
      (client.registered, client.passwordAccepted, client.sendBuffer)) =
        some (false, false, []) ∧
    (carolWaits.findClientByFd 4).isSome = true := by
  decide +kernel

theorem exists_carol : ∃ carol, carolWaits.findClientByFd 6 = some carol ∧
    carol.registered = false := by
  rcases Option.map_eq_some_iff.mp carolWaits_clients.1 with ⟨carol, found, flags⟩
  exact ⟨carol, found, congrArg Prod.fst flags⟩

theorem unregistered_confined_carol : ∃ client, carolWaits.findClientByFd 6 = some client ∧
    client.registered = false ∧
    (∀ message, Confined 6 carolWaits (carolWaits.dispatchCommand 6 message)) ∧
      ∀ reason, SilentlyClosed 6 carolWaits (carolWaits.disconnectClient 6 reason) := by
  rcases exists_carol with ⟨client, found, unregistered⟩
  exact ⟨client, found, unregistered,
    unregistered_confined reachable_carolWaits found unregistered⟩

/-! ## What an unregistered client receives -/

/-- The two lines that are delivered by nickname, for the holder of the nickname. -/
inductive DirectLine (server : Server) (fd : Int) (sender : Client) (message : Message)
    (receiver : Client) : Bytes → Prop where
  | privmsg {targets name text : Bytes} {arguments : List Bytes}
      (registered : sender.registered = true) (command : message.command = ascii "PRIVMSG")
      (params : message.params = targets :: arguments) (given : text = arguments.headD [])
      (listed : name ∈ IrcUtil.splitCommaList targets) (holds : receiver.nickname ≠ [])
      (named : IrcUtil.ircCaseFold receiver.nickname = IrcUtil.ircCaseFold name) :
      DirectLine server fd sender message receiver
        (Reply.command (Reply.clientPrefix sender) (ascii "PRIVMSG")
          (receiver.nickname ++ ascii " :" ++ text))
  | invite {channel : Channel} {name channelName : Bytes} {arguments : List Bytes}
      (registered : sender.registered = true) (command : message.command = ascii "INVITE")
      (params : message.params = name :: channelName :: arguments)
      (holds : receiver.nickname ≠ [])
      (named : IrcUtil.ircCaseFold receiver.nickname = IrcUtil.ircCaseFold name)
      (foundChannel : server.findChannel channelName = some channel)
      (operator : fd ∈ channel.operators) :
      DirectLine server fd sender message receiver
        (Reply.command (Reply.clientPrefix sender) (ascii "INVITE")
          (receiver.nickname ++ ascii " :" ++ channel.name))

/-- The client of a nickname is the one stored under its own descriptor. -/
theorem holder_of_findClientByNickname (consistent : server.core.Consistent)
    (index : server.NicknameIndex) {receiver target : Client} {nickname : Bytes}
    (lookup : server.findClientByNickname nickname = some target)
    (found : server.findClientByFd target.fd = some receiver) :
    target = receiver ∧ receiver.nickname ≠ [] ∧
      IrcUtil.ircCaseFold receiver.nickname = IrcUtil.ircCaseFold nickname := by
  rcases (index.lookup_iff nickname target).mp lookup with ⟨stored, foundTarget, holds, named⟩
  have own : target.fd = stored := own_fd_of_consistent consistent foundTarget
  have foundHere : server.findClientByFd stored = some target := foundTarget
  rw [own, foundHere, Option.some.injEq] at found
  subst found
  exact ⟨rfl, holds, named⟩

/-- Of all lines of a command, only the direct ones reach somebody unregistered. -/
theorem directLine_of_commandLine (consistent : server.core.Consistent)
    (index : server.NicknameIndex) {other : Int} {sender receiver : Client} {message : Message}
    {line : Bytes} (elsewhere : other ≠ fd)
    (found : server.findClientByFd fd = some receiver)
    (unregistered : receiver.registered = false)
    (sent : CommandLine server other sender message ⟨fd, line⟩) :
    DirectLine server other sender message receiver line := by
  generalize posted : (⟨fd, line⟩ : Posting) = posting at sent
  cases sent with
  | numeric _ _ =>
      rw [Posting.mk.injEq] at posted
      exact absurd posted.1.symm elsewhere
  | answer _ _ =>
      rw [Posting.mk.injEq] at posted
      exact absurd posted.1.symm elsewhere
  | @notice _ record _ _ foundRecord admitted _ _ =>
      rw [Posting.mk.injEq] at posted
      rw [← posted.1, found, Option.some.injEq] at foundRecord
      rw [← foundRecord, unregistered] at admitted
      exact Bool.noConfusion admitted
  | privmsg registered command params given listed lookup =>
      rcases (Posting.mk.injEq _ _ _ _).mp posted with ⟨rfl, rfl⟩
      rcases holder_of_findClientByNickname consistent index lookup found with
        ⟨rfl, holds, named⟩
      exact DirectLine.privmsg registered command params given listed holds named
  | invite registered command params lookup foundChannel operator =>
      rcases (Posting.mk.injEq _ _ _ _).mp posted with ⟨rfl, rfl⟩
      rcases holder_of_findClientByNickname consistent index lookup found with
        ⟨rfl, holds, named⟩
      exact DirectLine.invite registered command params holds named foundChannel operator

/-- Another client's command reaches an unregistered client by its nickname only, and
another client's disconnection does not reach it at all. -/
theorem unregistered_receives_direct (reached : stepSystem.Reachable server)
    (found : server.findClientByFd fd = some client) (unregistered : client.registered = false)
    {other : Int} {sender : Client} (foundSender : server.findClientByFd other = some sender)
    (elsewhere : other ≠ fd) :
    (∀ message, ∃ (next : Client) (lines : List Bytes),
      (server.dispatchCommand other message).findClientByFd fd = some next ∧
        next.sendBuffer = client.sendBuffer ++ lines.flatMap withCrlf ∧
        ∀ line ∈ lines, DirectLine server other sender message client line) ∧
    ∀ reason, (server.disconnectClient other reason).findClientByFd fd = some client := by
  have consistent := step_reachable_consistent reached
  have index := reachable_nicknameIndex reached
  constructor
  · intro message
    have mail := dispatchCommand_mail consistent foundSender message
    generalize server.dispatchCommand other message = after at mail
    have live : ∀ {postings}, server.Posts postings after →
        ∃ next, after.findClientByFd fd = some next := by
      intro postings posts
      rw [← Option.isSome_iff_exists, posts.isSome, found]
      rfl
    cases mail with
    | lines posts all _ =>
        rcases live posts with ⟨next, foundNext⟩
        rcases posts.exists_lines found foundNext with ⟨lines, gained, listed⟩
        refine ⟨next, lines, foundNext, gained, ?_⟩
        intro line lineListed
        exact directLine_of_commandLine consistent index elsewhere found unregistered
          (all _ (listed line lineListed))
    | @welcome completed posts own _ _ _ =>
        rcases live posts with ⟨next, foundNext⟩
        refine ⟨next, [], foundNext, ?_, by simp⟩
        rw [List.flatMap_nil, List.append_nil]
        apply posts.sendBuffer_eq _ found foundNext
        intro posting listed
        have receiver : posting.fd = other := by
          have sender := own_fd_of_consistent consistent foundSender
          simp only [welcomePostings, own, sender, List.mem_cons, List.not_mem_nil,
            or_false] at listed
          rcases listed with rfl | rfl | rfl | rfl | rfl <;> rfl
        rw [receiver]
        exact elsewhere
  · intro reason
    have lookup := (disconnectClient_disconnected foundSender reason).others fd (Ne.symm elsewhere)
    have alone : server.sharesChannel other fd = false := by
      rw [Bool.eq_false_iff]
      intro shares
      rcases (sharesChannel_iff consistent other fd).mp shares with ⟨_, key, _, joined⟩
      rcases (consistent.isMember_iff fd key).mpr joined with ⟨channel, stored, member⟩
      exact not_member_of_unregistered consistent found unregistered stored member
    rwa [alone, if_neg (by simp), found] at lookup

/-- A registered client writes to the nickname of one that has not given the password. -/
theorem unregistered_receives_privmsg :
    stepSystem.Reachable carolWaits ∧
    (carolWaits.findClientByFd 6).map (fun client =>
      (client.registered, client.passwordAccepted, client.sendBuffer)) =
        some (false, false, []) ∧
    ((carolWaits.dispatchCommand 4
        { command := ascii "PRIVMSG", params := [ascii "carol", ascii "hi"] }).findClientByFd
      6).map (·.sendBuffer) =
        some (withCrlf (ascii ":alice!alice@127.0.0.1 PRIVMSG carol :hi")) :=
  ⟨reachable_carolWaits, carolWaits_clients.1, by decide +kernel⟩

theorem unregistered_receives_direct_carol : ∃ carol alice,
    carolWaits.findClientByFd 6 = some carol ∧ carolWaits.findClientByFd 4 = some alice ∧
    (∀ message, ∃ (next : Client) (lines : List Bytes),
      (carolWaits.dispatchCommand 4 message).findClientByFd 6 = some next ∧
        next.sendBuffer = carol.sendBuffer ++ lines.flatMap withCrlf ∧
        ∀ line ∈ lines, DirectLine carolWaits 4 alice message carol line) ∧
    ∀ reason, (carolWaits.disconnectClient 4 reason).findClientByFd 6 = some carol := by
  rcases exists_carol with ⟨carol, found, unregistered⟩
  rcases Option.isSome_iff_exists.mp carolWaits_clients.2 with ⟨alice, foundSender⟩
  exact ⟨carol, alice, found, foundSender, unregistered_receives_direct reachable_carolWaits found
    unregistered foundSender (by decide)⟩

end Server

end IrcPlatform.Irc
