import IrcPlatform.Irc.Accounts
import IrcPlatform.Irc.Reservations

/-!
# The mail of one command

A dispatched command posts lines of `CommandLine`, or it completes the sender's
registration and posts the welcome sequence. `dispatchCommand_mail` is the one
fact about mail that the laws about runs start from.
-/

namespace IrcPlatform.Irc

open Std

namespace Server

variable {server : Server} {fd : Int} {client : Client}

inductive CommandMail (server : Server) (fd : Int) (client : Client) (message : Message)
    (after : Server) : Prop where
  | lines {postings : List Posting} (posts : server.Posts postings after)
      (all : ∀ posting ∈ postings, CommandLine server fd client message posting)
      (steady : ∀ record, after.findClientByFd fd = some record →
        record.registered = client.registered) :
      CommandMail server fd client message after
  | welcome {completed : Client} (posts : server.Posts (server.welcomePostings completed) after)
      (own : completed.fd = client.fd) (unregistered : client.registered = false)
      (registered : completed.registered = true)
      (foundAfter : ∃ record, after.findClientByFd fd = some record ∧
        record.identity = completed.identity) :
      CommandMail server fd client message after

theorem CommandMail.of_tells {message : Message} {after : Server}
    (tells : Tells server fd client message after)
    (found : server.findClientByFd fd = some client) :
    CommandMail server fd client message after := by
  rcases tells.lines with ⟨postings, posts, all⟩
  apply CommandMail.lines posts all
  intro record foundAfter
  exact Client.registered_of_identity (tells.sender found foundAfter)

theorem tryCompleteRegistration_cases (client : Client) :
    client.tryCompleteRegistration = (false, client) ∨
      client.registered = false ∧
        client.tryCompleteRegistration = (true, { client with registered := true }) := by
  simp only [Client.tryCompleteRegistration]
  split
  · exact Or.inl rfl
  next unregistered =>
    split
    · exact Or.inr ⟨by simpa using unregistered, rfl⟩
    · exact Or.inl rfl

/-- A change of the sender's account, followed by the attempt to register. -/
theorem CommandMail.of_tryRegister {message : Message} {changed : Server} {current : Client}
    (mail : changed.mail = server.mail) (serverName : changed.serverName = server.serverName)
    (startTime : changed.serverStartTime = server.serverStartTime)
    (foundChanged : changed.findClientByFd fd = some current) (own : current.fd = client.fd)
    (registered : current.registered = client.registered) :
    CommandMail server fd client message (changed.tryRegisterClient fd) := by
  have posts := posts_tryRegisterClient foundChanged
  rcases find_tryRegisterClient foundChanged with ⟨record, lookup, same⟩
  simp only [Posts, mail] at posts
  rcases tryCompleteRegistration_cases current with steady | ⟨unregistered, completed⟩
  · rw [steady] at posts same
    apply CommandMail.lines posts (by simp)
    intro other foundOther
    rw [lookup, Option.some.injEq] at foundOther
    rw [← foundOther, Client.registered_of_identity same, registered]
  · rw [completed] at posts same
    have welcomed : server.Posts
        (server.welcomePostings { current with registered := true })
        (changed.tryRegisterClient fd) := by
      simp only [if_true, welcomePostings, serverName, startTime] at posts
      exact posts
    exact CommandMail.welcome welcomed own (registered ▸ unregistered) rfl
      ⟨record, lookup, same⟩

theorem handlePass_mail (found : server.findClientByFd fd = some client) (message : Message) :
    CommandMail server fd client message (server.handlePass fd message) := by
  simp only [handlePass, found]
  split
  · exact CommandMail.of_tells (Tells.refl.requireParams found _ _) found
  · split
    · exact CommandMail.of_tells (Tells.refl.numeric rfl rfl (by decide) _) found
    · exact CommandMail.of_tryRegister (mail_updateClient server fd fun _ _ => rfl) rfl rfl
        (findClientByFd_updateClient (·.acceptPassword) found) rfl rfl

theorem handleUser_mail (found : server.findClientByFd fd = some client) (message : Message) :
    CommandMail server fd client message (server.handleUser fd message) := by
  simp only [handleUser, found]
  split
  · exact CommandMail.of_tells (Tells.refl.numeric rfl rfl (by decide) _) found
  · split
    next username _ _ realname _ _ =>
      split
      · exact CommandMail.of_tells (Tells.refl.numeric rfl rfl (by decide) _) found
      · exact CommandMail.of_tryRegister (mail_updateClient server fd fun _ _ => rfl) rfl rfl
          (findClientByFd_updateClient (·.setUser username realname) found) rfl rfl
    · exact CommandMail.of_tells (Tells.refl.requireParams found _ _) found

theorem mail_renameClient (server : Server) (fd : Int) (client : Client) (nickname : Bytes) :
    (server.renameClient fd client nickname).mail = server.mail := by
  simp only [renameClient]
  refine (mail_updateClient _ fd ?_).trans ?_
  · intro _ _
    rfl
  · split
    · rfl
    · rfl

theorem channels_renameClient (server : Server) (fd : Int) (client : Client) (nickname : Bytes) :
    (server.renameClient fd client nickname).channels = server.channels := by
  simp only [renameClient]
  split
  · rfl
  · rfl

/-- The receivers of a shared broadcast depend on the channels alone. -/
theorem sharedTargets_of_channels {before after : Server}
    (same : after.channels = before.channels) (client : Client) :
    after.sharedTargets client = before.sharedTargets client := by
  have step : after.addTargets = before.addTargets := by
    funext targets key
    simp only [addTargets, findChannel, same]
  simp only [sharedTargets, step]

/-- The postings of an accepted NICK of a registered client. -/
theorem posts_notifyNick (server : Server) (fd : Int) (client : Client) (nickname : Bytes)
    (notice : Bytes) :
    server.Posts
      (⟨fd, notice⟩ :: (server.sharedTargets client).toList.map fun target => ⟨target, notice⟩)
      (((server.renameClient fd client nickname).queueToClient fd
        notice).broadcastToSharedChannels (client.setNickname nickname) notice) := by
  have sameChannels : ((server.renameClient fd client nickname).queueToClient fd
      notice).channels = server.channels := by
    rw [channels_queueToClient, channels_renameClient]
  have sameTargets := sharedTargets_of_channels sameChannels (client.setNickname nickname)
  have queued := (((Posts.refl server).of_mail_eq
    (mail_renameClient server fd client nickname)).queue fd notice).trans
      (mail_broadcastToSharedChannels _ (client.setNickname nickname) notice)
  rw [sameTargets] at queued
  exact queued

theorem sameRecords_notifyNick (server : Server) (fd : Int) (client : Client)
    (notice : Bytes) :
    SameRecords server
      ((server.queueToClient fd notice).broadcastToSharedChannels client notice) :=
  (SameRecords.queueToClient server fd notice).trans (SameRecords.queueToAll notice _ _)

/-- A client that shares a channel with another one is live and registered. -/
theorem registered_of_shared (consistent : server.core.Consistent) {client : Client}
    {other : Int} (shared : other ∈ server.sharedTargets client) :
    ∃ record, server.findClientByFd other = some record ∧ record.registered = true := by
  rcases mem_sharedTargets.mp shared with ⟨_, key, _, channel, foundChannel, member⟩
  exact (Tells.refl : Tells server 0 client { command := [] } server).members consistent
    foundChannel other member

theorem handleNick_mail (consistent : server.core.Consistent)
    (found : server.findClientByFd fd = some client) (message : Message) :
    CommandMail server fd client message (server.handleNick fd message) := by
  simp only [handleNick, found]
  split
  · exact CommandMail.of_tells (Tells.refl.numeric rfl rfl (by decide) _) found
  next nickname _ _ =>
    split
    · exact CommandMail.of_tells (Tells.refl.numeric rfl rfl (by decide) _) found
    · split
      · exact CommandMail.of_tells (Tells.refl.numeric rfl rfl (by decide) _) found
      · split
        next registered =>
          apply CommandMail.lines (posts_notifyNick server fd client nickname _)
          · intro posting listed
            rcases List.mem_cons.mp listed with rfl | listed
            · exact CommandLine.notice registered found registered (by decide) _
            · rcases List.mem_map.mp listed with ⟨target, shared, rfl⟩
              rcases registered_of_shared consistent (ExtTreeSet.mem_toList.mp shared) with
                ⟨record, foundRecord, admitted⟩
              exact CommandLine.notice registered foundRecord admitted (by decide) _
          · intro record foundRecord
            rcases (sameRecords_notifyNick _ fd _ _).exists_before foundRecord with
              ⟨renamed, foundRenamed, identity⟩
            rw [find_renameClient found nickname, Option.some.injEq] at foundRenamed
            subst foundRenamed
            exact (Client.registered_of_identity identity).symm
        next unregistered =>
          refine CommandMail.of_tryRegister (mail_renameClient server fd client nickname) ?_ ?_
            (find_renameClient found nickname) rfl rfl
          · simp only [renameClient]
            split
            · rfl
            · rfl
          · simp only [renameClient]
            split
            · rfl
            · rfl

theorem dispatchCommand_mail (consistent : server.core.Consistent)
    (found : server.findClientByFd fd = some client) (message : Message) :
    CommandMail server fd client message (server.dispatchCommand fd message) := by
  have happened := dispatchCommand_case consistent found message
  generalize server.dispatchCommand fd message = after at happened
  cases happened with
  | told tells _ => exact CommandMail.of_tells tells found
  | pass _ _ => exact handlePass_mail found message
  | nick _ => exact handleNick_mail consistent found message
  | user _ _ => exact handleUser_mail found message

end Server

end IrcPlatform.Irc
