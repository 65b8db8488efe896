import IrcPlatform.Irc.Nicknames
import IrcPlatform.Irc.Tables

/-!
# Accounts along the steps

A command moves the account of its sender only, by the automaton of
`Account.next`. Two facts follow for every reachable state: an account is
registered exactly when its three conditions hold, and a stored username has
passed the check of USER.
-/

namespace IrcPlatform.Irc

open Std

namespace Account

structure Sound (account : Account) : Prop where
  registered : account.registered = account.complete
  username : account.userReceived = true → Server.badUsername account.username = false
  blank : account.userReceived = false → account.username = [] ∧ account.realname = []

theorem sound_fresh (hostname : Bytes) : Sound { hostname := hostname } := by
  constructor
  · rfl
  · intro received
    exact Bool.noConfusion received
  · intro _
    exact ⟨rfl, rfl⟩

/-- A registered account stays complete when it gains something. -/
theorem registered_tryComplete {before after : Account} (sound : before.Sound)
    (flag : after.registered = before.registered)
    (grows : before.complete = true → after.complete = true) :
    after.tryComplete.registered = after.tryComplete.complete := by
  have same : after.tryComplete.complete = after.complete := rfl
  rw [same]
  simp only [tryComplete, flag, sound.registered]
  cases complete : before.complete with
  | false => rw [Bool.false_or]
  | true => rw [grows complete, Bool.true_or]

@[simp] theorem hostname_next (account : Account) (password : Bytes)
    (available : Bytes → Bool) (message : Message) :
    (account.next password available message).hostname = account.hostname := by
  simp only [next]
  split
  · split
    · rfl
    · rfl
  · split
    · split
      · rfl
      · split
        · rfl
        · rfl
    · split
      · rfl
      · split
        · rfl
        · rfl

theorem userData_eq_some {message : Message} {username realname : Bytes}
    (data : userData message = some (username, realname)) :
    message.command = ascii "USER" ∧ Server.badUsername username = false := by
  simp only [userData] at data
  split at data
  next command =>
    split at data
    · split at data
      · simp at data
      next good =>
        simp only [Option.some.injEq, Prod.mk.injEq] at data
        rcases data with ⟨rfl, rfl⟩
        exact ⟨command, by simpa using good⟩
    · simp at data
  · simp at data

theorem Sound.next {account : Account} (sound : account.Sound) (password : Bytes)
    (available : Bytes → Bool) (message : Message) :
    (account.next password available message).Sound := by
  by_cases pass : message.command = ascii "PASS"
  · rw [next_pass pass]
    split
    · refine ⟨registered_tryComplete sound rfl ?_, sound.username, sound.blank⟩
      intro whole
      simp only [complete, acceptPassword, Bool.and_eq_true] at whole ⊢
      exact ⟨⟨trivial, whole.1.2⟩, whole.2⟩
    · exact sound
  · by_cases nick : message.command = ascii "NICK"
    · rw [next_nick nick]
      split
      · exact sound
      next nickname _ _ =>
        split
        next accepted =>
          refine ⟨registered_tryComplete sound rfl ?_, sound.username, sound.blank⟩
          intro whole
          rw [Bool.and_eq_true] at accepted
          have nonempty : nickname.isEmpty = false := by
            cases nickname with
            | nil => simp [IrcUtil.isValidNickname] at accepted
            | cons _ _ => rfl
          simp only [complete, setNickname, Bool.and_eq_true] at whole ⊢
          exact ⟨⟨whole.1.1, by simp [nonempty]⟩, whole.2⟩
        · exact sound
    · rw [next_user pass nick]
      split
      · exact sound
      next username realname data =>
        split
        · exact sound
        · refine ⟨registered_tryComplete sound rfl ?_, ?_, ?_⟩
          · intro whole
            simp only [complete, setUser, Bool.and_eq_true] at whole ⊢
            exact ⟨whole.1, trivial⟩
          · intro _
            exact (userData_eq_some data).2
          · intro received
            exact absurd received (by simp [tryComplete, setUser])

end Account

/-- All other clients keep what `identity` shows of them. -/
def OthersSame (fd : Int) (before after : Server) : Prop :=
  ∀ other, other ≠ fd → (after.findClientByFd other).map Client.identity =
    (before.findClientByFd other).map Client.identity

namespace OthersSame

variable {fd : Int} {before between after : Server}

theorem trans (first : OthersSame fd before between) (second : OthersSame fd between after) :
    OthersSame fd before after :=
  fun other distinct => (second other distinct).trans (first other distinct)

theorem of_same (same : SameRecords before after) : OthersSame fd before after :=
  fun other _ => same.identity other

theorem updateClient (server : Server) (fd : Int) (change : Client → Client) :
    OthersSame fd server (server.updateClient fd change) := by
  intro other distinct
  rw [Server.findClientByFd_updateClient_eq, if_neg distinct]

end OthersSame

namespace Server

variable {server : Server} {fd : Int} {client : Client}

theorem tryRegisterClient_others (server : Server) (fd : Int) :
    OthersSame fd server (server.tryRegisterClient fd) := by
  simp only [tryRegisterClient]
  split
  · exact fun _ _ => rfl
  next client _ =>
    have written := OthersSame.updateClient server fd fun _ => client.tryCompleteRegistration.2
    split
    · exact written.trans (OthersSame.of_same (identity_sendWelcomeSequence _ _))
    · exact written

theorem renameClient_others (server : Server) (fd : Int) (client : Client) (nickname : Bytes) :
    OthersSame fd server (server.renameClient fd client nickname) := by
  intro other distinct
  simp only [renameClient]
  rw [findClientByFd_updateClient_eq, if_neg distinct]
  split
  · rfl
  · rfl

theorem handlePass_others (server : Server) (fd : Int) (message : Message) :
    OthersSame fd server (server.handlePass fd message) := by
  simp only [handlePass]
  split
  · exact fun _ _ => rfl
  next client found =>
    split
    · exact OthersSame.of_same (Tells.refl.requireParams found _ _ :
        Tells server fd client message _).same
    · split
      · exact OthersSame.of_same (SameRecords.queueToClient server fd _)
      · exact (OthersSame.updateClient server fd _).trans (tryRegisterClient_others _ fd)

theorem handleUser_others (server : Server) (fd : Int) (message : Message) :
    OthersSame fd server (server.handleUser fd message) := by
  simp only [handleUser]
  split
  · exact fun _ _ => rfl
  next client found =>
    split
    · exact OthersSame.of_same (SameRecords.queueToClient server fd _)
    · split
      · split
        · exact OthersSame.of_same (SameRecords.queueToClient server fd _)
        · exact (OthersSame.updateClient server fd _).trans (tryRegisterClient_others _ fd)
      · exact OthersSame.of_same (Tells.refl.requireParams found _ _ :
          Tells server fd client message _).same

theorem handleNick_others (server : Server) (fd : Int) (message : Message) :
    OthersSame fd server (server.handleNick fd message) := by
  simp only [handleNick]
  split
  · exact fun _ _ => rfl
  next client found =>
    split
    · exact OthersSame.of_same (SameRecords.queueToClient server fd _)
    next nickname _ _ =>
      split
      · exact OthersSame.of_same (SameRecords.queueToClient server fd _)
      · split
        · exact OthersSame.of_same (SameRecords.queueToClient server fd _)
        · have renamed := renameClient_others server fd client nickname
          split
          · exact renamed.trans (OthersSame.of_same
              ((SameRecords.queueToClient _ fd _).trans (SameRecords.queueToAll _ _ _)))
          · exact renamed.trans (tryRegisterClient_others _ fd)

theorem dispatchCommand_others (consistent : server.core.Consistent) (fd : Int)
    (message : Message) : OthersSame fd server (server.dispatchCommand fd message) := by
  cases found : server.findClientByFd fd with
  | none =>
      simp only [dispatchCommand, found]
      exact fun _ _ => rfl
  | some client =>
      have happened := dispatchCommand_case consistent found message
      generalize server.dispatchCommand fd message = after at happened
      cases happened with
      | told tells _ => exact OthersSame.of_same tells.same
      | pass _ _ => exact handlePass_others server fd message
      | nick _ => exact handleNick_others server fd message
      | user _ _ => exact handleUser_others server fd message

end Server

/-! ## The steps -/

/-- The descriptor whose record a step is about. -/
def ServerStep.subject : ServerStep → Option Int
  | accept fd _ | command fd _ | disconnect fd _ => some fd
  | receive _ _ | consume _ _ | refuse _ _ | reserve _ | flush _ _ | takeReservations => none

namespace Server

variable {server : Server} {fd : Int} {client : Client}

theorem identity_deliver (message : Bytes) (client : Client) :
    (deliver message client).identity = client.identity := by
  simp only [deliver]
  split
  · rfl
  · rfl

theorem identity_flushSendBuffer (server : Server) (fd : Int) (sent : Option Nat) (other : Int) :
    ((server.flushSendBuffer fd sent).findClientByFd other).map Client.identity =
      (server.findClientByFd other).map Client.identity := by
  simp only [flushSendBuffer]
  split
  · rfl
  · split
    · rw [findClientByFd_updatePollEvents]
    · split
      · rfl
      next count =>
        rw [findClientByFd_updatePollEvents]
        have erased : ∀ client : Client, (client.eraseSendPrefix count).identity =
            client.identity := fun _ => rfl
        exact (SameRecords.updateClient (server.record _) fd erased).identity other

theorem findClientByFd_acceptClient {peerAddress : Bytes} {other : Int} (distinct : other ≠ fd) :
    (server.acceptClient (some (fd, peerAddress))).findClientByFd other =
      server.findClientByFd other := by
  simp only [acceptClient, addClient]
  split
  · rfl
  · simp [addClientPollFd, record, findClientByFd, ExtTreeMap.getElem?_insert, Ne.symm distinct]

/-- No step changes the record of a client that it is not about. -/
theorem identity_advance (consistent : server.core.Consistent) {step : ServerStep}
    (elsewhere : step.subject ≠ some fd) :
    ((server.advance step).findClientByFd fd).map Client.identity =
      (server.findClientByFd fd).map Client.identity := by
  cases step with
  | accept other peerAddress =>
      have distinct : fd ≠ other := by
        rintro rfl
        exact elsewhere rfl
      exact congrArg _ (findClientByFd_acceptClient distinct)
  | receive other data =>
      exact (SameRecords.updateClient server other
        (fun _ => rfl : ∀ client : Client, (client.appendReceiveBuffer data).identity =
          client.identity)).identity fd
  | consume other length =>
      exact (SameRecords.updateClient server other
        (fun _ => rfl : ∀ client : Client, (client.eraseReceivePrefix length).identity =
          client.identity)).identity fd
  | command other message =>
      have distinct : fd ≠ other := by
        rintro rfl
        exact elsewhere rfl
      exact @dispatchCommand_others (server.record _) consistent other message fd distinct
  | refuse other error => exact (SameRecords.queueToClient server other error.text).identity fd
  | reserve other => rfl
  | flush other sent => exact identity_flushSendBuffer server other sent fd
  | takeReservations => rfl
  | disconnect other reason =>
      have distinct : fd ≠ other := by
        rintro rfl
        exact elsewhere rfl
      change ((server.disconnectClient other reason).findClientByFd fd).map _ = _
      cases found : server.findClientByFd other with
      | none => rw [disconnectClient_of_missing found]
      | some leaving =>
          rw [(disconnectClient_disconnected found reason).others fd distinct]
          split
          · rw [Option.map_map]
            congr 1
            funext client
            exact identity_deliver _ client
          · rfl

theorem core_clients_of_advance_accept {peerAddress : Bytes}
    (ready : server.ready (.accept fd peerAddress) = true) :
    (server.acceptClient (some (fd, peerAddress))).findClientByFd fd =
      some { fd := fd, hostname := peerAddress } := by
  simp only [Server.ready, Bool.and_eq_true, Bool.not_eq_true'] at ready
  simp [acceptClient, addClient, ready.1.1, addClientPollFd, record, findClientByFd]

theorem account_invokeDispatch (consistent : server.core.Consistent) {message : Message}
    {next : Client} (foundNext : (server.invokeDispatch fd message).findClientByFd fd = some next) :
    ∃ client, server.findClientByFd fd = some client ∧ next.account =
      client.account.next server.password (fun nickname => server.isNicknameAvailable nickname fd)
        message := by
  simp only [invokeDispatch] at foundNext
  generalize recorded : server.record (.dispatched fd (server.pendingDisconnects.contains fd)) =
    start at foundNext
  have sameClients : start.findClientByFd fd = server.findClientByFd fd := by
    rw [← recorded]
    rfl
  have sameCore : start.core = server.core := by
    rw [← recorded]
    rfl
  have kept := (dispatchCommand_kept start fd message).live fd
  rw [foundNext, sameClients] at kept
  rcases Option.isSome_iff_exists.mp kept.symm with ⟨client, found⟩
  rcases dispatchCommand_account (sameCore ▸ consistent) (sameClients.trans found) message with
    ⟨record, foundRecord, account⟩
  rw [foundNext, Option.some.injEq] at foundRecord
  refine ⟨client, found, ?_⟩
  rw [foundRecord, account, ← recorded]
  rfl

/-- The account of a client after one step: the automaton moves it when the step is a
command of the client, and a new connection starts with an empty one. -/
theorem account_advance (consistent : server.core.Consistent) {step : ServerStep}
    (ready : server.ready step = true) {next : Client}
    (foundNext : (server.advance step).findClientByFd fd = some next) :
    (∃ peerAddress, step = .accept fd peerAddress ∧
        next.account = { hostname := peerAddress }) ∨
    ∃ client, server.findClientByFd fd = some client ∧
      ((∃ message, step = .command fd message ∧ next.account = client.account.next
          server.password (fun nickname => server.isNicknameAvailable nickname fd) message) ∨
        step.subject ≠ some fd ∧ next.identity = client.identity) := by
  by_cases about : step.subject = some fd
  · cases step with
    | accept other peerAddress =>
        simp only [ServerStep.subject, Option.some.injEq] at about
        subst about
        have entered := core_clients_of_advance_accept ready
        change (server.acceptClient _).findClientByFd other = _ at foundNext
        rw [entered, Option.some.injEq] at foundNext
        subst foundNext
        exact Or.inl ⟨peerAddress, rfl, rfl⟩
    | command other message =>
        simp only [ServerStep.subject, Option.some.injEq] at about
        subst about
        rcases account_invokeDispatch consistent foundNext with ⟨client, found, account⟩
        exact Or.inr ⟨client, found, Or.inl ⟨message, rfl, account⟩⟩
    | disconnect other reason =>
        simp only [ServerStep.subject, Option.some.injEq] at about
        subst about
        change (server.disconnectClient other reason).findClientByFd other = _ at foundNext
        cases found : server.findClientByFd other with
        | none => simp [disconnectClient_of_missing found, found] at foundNext
        | some leaving => simp [(disconnectClient_disconnected found reason).gone] at foundNext
    | _ => simp [ServerStep.subject] at about
  · have same := identity_advance consistent about
    rw [foundNext] at same
    rcases Option.map_eq_some_iff.mp same.symm with ⟨client, found, identity⟩
    exact Or.inr ⟨client, found, Or.inr ⟨about, identity.symm⟩⟩

/-! ## Reachable accounts -/

theorem step_reachable_sound (reached : stepSystem.Reachable server)
    (found : server.findClientByFd fd = some client) : client.account.Sound := by
  have all : ∀ fd client, server.findClientByFd fd = some client → client.account.Sound := by
    refine reached.invariant (fun server => ∀ fd client,
      server.findClientByFd fd = some client → client.account.Sound) ?_ ?_
    · rintro _ ⟨password, serverStartTime, listenFd, rfl⟩ fd client found
      simp [fresh, findClientByFd] at found
    · rintro before step _ reached sound ⟨ready, rfl⟩ fd next foundNext
      have consistent := step_reachable_consistent reached
      rcases account_advance consistent ready foundNext with
        ⟨peerAddress, _, account⟩ | ⟨client, found, ⟨message, _, account⟩ | ⟨_, identity⟩⟩
      · rw [account]
        exact Account.sound_fresh peerAddress
      · rw [account]
        exact (sound fd client found).next _ _ _
      · rw [Client.account_of_identity identity]
        exact sound fd client found
  exact all fd client found

/-- Peer addresses come from `accept`. -/
def acceptsOnly (allowed : Bytes → Prop) (step : ServerStep) : Prop :=
  ∀ fd peerAddress, step = .accept fd peerAddress → allowed peerAddress

theorem hostname_of_reaches {allowed : Bytes → Prop}
    (reached : stepSystem.Reaches (fun _ step => acceptsOnly allowed step) server)
    (found : server.findClientByFd fd = some client) : allowed client.hostname := by
  have all : ∀ fd client, server.findClientByFd fd = some client → allowed client.hostname := by
    refine reached.invariant (fun server => ∀ fd client,
      server.findClientByFd fd = some client → allowed client.hostname) ?_ ?_
    · rintro _ ⟨password, serverStartTime, listenFd, rfl⟩ fd client found
      simp [fresh, findClientByFd] at found
    · rintro before step _ reached good accepted ⟨ready, rfl⟩ fd next foundNext
      have consistent := step_reachable_consistent reached
      have sameHost : ∀ account : Account, next.account = account →
          next.hostname = account.hostname := fun account same => congrArg Account.hostname same
      rcases account_advance consistent ready foundNext with
        ⟨peerAddress, entered, account⟩ | ⟨client, found, ⟨message, _, account⟩ | ⟨_, identity⟩⟩
      · rw [sameHost _ account]
        exact accepted fd peerAddress entered
      · rw [sameHost _ account, Account.hostname_next]
        exact good fd client found
      · rw [sameHost _ (Client.account_of_identity identity)]
        exact good fd client found
  exact all fd client found

end Server

/-! ## The settings -/

structure SameSettings (before after : Server) : Prop where
  serverName : after.serverName = before.serverName
  password : after.password = before.password

theorem SameSettings.trans {before between after : Server}
    (first : SameSettings before between) (second : SameSettings between after) :
    SameSettings before after :=
  ⟨second.serverName.trans first.serverName, second.password.trans first.password⟩

namespace Server

theorem updatePollEvents_settings (server : Server) (fd : Int) :
    SameSettings server (server.updatePollEvents fd) := by
  simp only [updatePollEvents]
  split
  · exact ⟨rfl, rfl⟩
  · exact ⟨rfl, rfl⟩

theorem queueToClient_settings (server : Server) (fd : Int) (message : Bytes) :
    SameSettings server (server.queueToClient fd message) := by
  simp only [queueToClient]
  split
  · exact ⟨rfl, rfl⟩
  · split
    · exact ⟨rfl, rfl⟩
    · have updated : SameSettings server ((server.record (.queued fd message true)).updateClient
          fd (·.appendSendBuffer (withCrlf message))) := ⟨rfl, rfl⟩
      exact updated.trans (updatePollEvents_settings _ fd)

end Server

theorem Writes.settings {before after : Server} (writes : Writes before after) :
    SameSettings before after := by
  induction writes with
  | refl => exact ⟨rfl, rfl⟩
  | tail _ write ih =>
      apply ih.trans
      cases write with
      | queue fd message => exact Server.queueToClient_settings _ fd message
      | reserve _ => exact ⟨rfl, rfl⟩
      | client _ _ => exact ⟨rfl, rfl⟩
      | tables _ _ _ same =>
          subst same
          exact ⟨rfl, rfl⟩

namespace Server

variable {server : Server}

theorem advance_settings (server : Server) (step : ServerStep) :
    SameSettings server (server.advance step) := by
  cases step with
  | accept fd peerAddress =>
      simp only [advance, acceptClient, addClient]
      split
      · split
        · exact ⟨rfl, rfl⟩
        · exact ⟨rfl, rfl⟩
      · split
        · exact ⟨rfl, rfl⟩
        · exact ⟨rfl, rfl⟩
  | receive fd data => exact ⟨rfl, rfl⟩
  | consume fd length => exact ⟨rfl, rfl⟩
  | command fd message =>
      have recorded : SameSettings server (server.record
          (.dispatched fd (server.pendingDisconnects.contains fd))) := ⟨rfl, rfl⟩
      exact recorded.trans (dispatchCommand_writes _ fd message).settings
  | refuse fd error => exact queueToClient_settings server fd error.text
  | reserve fd => exact ⟨rfl, rfl⟩
  | flush fd sent =>
      simp only [advance, flushSendBuffer]
      split
      · exact ⟨rfl, rfl⟩
      next client _ =>
        split
        · exact updatePollEvents_settings server fd
        · split
          · exact ⟨rfl, rfl⟩
          next count =>
            have updated : SameSettings server ((server.record (.sent fd
                (client.sendBuffer.take count))).updateClient fd (·.eraseSendPrefix count)) :=
              ⟨rfl, rfl⟩
            exact updated.trans (updatePollEvents_settings _ fd)
  | takeReservations => exact ⟨rfl, rfl⟩
  | disconnect fd reason =>
      change SameSettings server (server.disconnectClient fd reason)
      cases found : server.findClientByFd fd with
      | none =>
          rw [disconnectClient_of_missing found]
          exact ⟨rfl, rfl⟩
      | some client =>
          rcases disconnectClient_writes found reason with ⟨left, writes, _, same⟩
          rw [same]
          exact ⟨writes.settings.serverName, writes.settings.password⟩

/-- The name of the server is the one in the source. -/
theorem step_reachable_serverName (reached : stepSystem.Reachable server) :
    server.serverName = ascii "ircserv.local" := by
  refine reached.invariant (fun server => server.serverName = ascii "ircserv.local") ?_ ?_
  · rintro _ ⟨password, serverStartTime, listenFd, rfl⟩
    rfl
  · rintro before step _ _ same ⟨_, rfl⟩
    exact (advance_settings before step).serverName.trans same

end Server

end IrcPlatform.Irc
